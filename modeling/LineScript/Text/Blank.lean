set_option relaxedAutoImplicit false
set_option autoImplicit false

/-!
# Blank characters

Scripts, formulas, list items and settings are all trimmed of, and separated by, *blanks*. A
blank is a character of the Unicode property `White_Space`: besides the ASCII blanks also the
no-break space, the next-line control and the wide spaces. The zero-width characters U+200B and
U+FEFF are not blanks.

## Main definitions

* `LineScript.Text.isBlank` — the character class.
* `LineScript.Text.trimChars`, `LineScript.Text.trim` — text without blanks at its ends.
* `LineScript.Text.firstWord` — the text before the first blank.
-/

namespace LineScript.Text

/-- Whether a character has the Unicode property `White_Space`. -/
def isBlank (c : Char) : Bool :=
  let n := c.toNat
  (9 ≤ n && n ≤ 13) || n == 0x20 || n == 0x85 || n == 0xA0 || n == 0x1680 ||
    (0x2000 ≤ n && n ≤ 0x200A) || n == 0x2028 || n == 0x2029 || n == 0x202F || n == 0x205F ||
    n == 0x3000

/-- The characters of a text without the blanks at its start. -/
def trimStart (cs : List Char) : List Char :=
  cs.dropWhile isBlank

/-- The characters of a text without the blanks at its end. -/
def trimEnd (cs : List Char) : List Char :=
  (cs.reverse.dropWhile isBlank).reverse

/-- The characters of a text without the blanks at its two ends. -/
def trimChars (cs : List Char) : List Char :=
  trimEnd (trimStart cs)

/-- A text without the blanks at its two ends. -/
def trim (s : String) : String :=
  String.ofList (trimChars s.toList)

/-- The characters before the first blank; all of them when there is none. -/
def firstWord (cs : List Char) : List Char :=
  cs.takeWhile fun c => !isBlank c

/-- A text that starts with no blank is trimmed at its end only. -/
theorem trimStart_cons_of_not_blank {c : Char} {cs : List Char} (h : isBlank c = false) :
    trimStart (c :: cs) = c :: cs := by
  simp [trimStart, h]

/-- Dropping the blanks at the start a second time drops nothing. -/
theorem trimStart_trimStart (cs : List Char) : trimStart (trimStart cs) = trimStart cs := by
  induction cs with
  | nil => rfl
  | cons c cs ih =>
    by_cases h : isBlank c = true
    · simpa [trimStart, h] using ih
    · simp [trimStart, h]

end LineScript.Text
