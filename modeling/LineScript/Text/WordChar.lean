import LineScript.Text.WordRanges

set_option relaxedAutoImplicit false
set_option autoImplicit false

/-!
# Characters of names

Two alphabets are in use. Statements read names over the Unicode word characters, formulas over
ASCII letters, digits and the underscore; in both a name starts with an ASCII letter or an
underscore.

## Main definitions

* `LineScript.Text.isNameStart` — the characters that start a name.
* `LineScript.Text.isNameChar` — the characters of a name in a formula.
* `LineScript.Text.isPathChar` — the characters of a dotted path in a formula.
* `LineScript.Text.isWordChar` — the characters of a name in a statement.
-/

namespace LineScript.Text

/-- An ASCII letter or an underscore. -/
def isNameStart (c : Char) : Bool :=
  c.isAlpha || c == '_'

/-- An ASCII letter, an ASCII digit or an underscore. -/
def isNameChar (c : Char) : Bool :=
  c.isAlphanum || c == '_'

/-- A name character or a dot. -/
def isPathChar (c : Char) : Bool :=
  isNameChar c || c == '.'

/-- A Unicode word character: alphabetic, mark, decimal digit, connector or join control. -/
def isWordChar (c : Char) : Bool :=
  isNameChar c || (0x7F < c.toNat && wordRanges.any fun r => r.1 ≤ c.toNat && c.toNat ≤ r.2)

/-- Every name character is a word character. -/
theorem isWordChar_of_isNameChar {c : Char} (h : isNameChar c = true) : isWordChar c = true := by
  simp [isWordChar, h]

/-- Every character that starts a name may also stand inside one. -/
theorem isNameChar_of_isNameStart {c : Char} (h : isNameStart c = true) : isNameChar c = true := by
  simp only [isNameStart, isNameChar, Char.isAlphanum, Bool.or_eq_true] at h ⊢
  exact h.elim (fun h => .inl (.inl h)) .inr

end LineScript.Text
