import LineScript.Text.Blank
import LineScript.Text.WordChar

set_option relaxedAutoImplicit false
set_option autoImplicit false

/-!
# Classes of characters

How the classes of characters exclude and include each other, and what taking characters of a class
from a text leaves.

## Main results

* `LineScript.Text.isBlank_of_isPathChar`, `LineScript.Text.isBlank_of_isWordChar` — no character of
  a path or a name is a blank.
* `LineScript.Text.takeWhile_append_of_head?` — characters of a class, cut off where the text goes
  on with another one.
-/

namespace LineScript.Text

/-- The code points of digits. -/
theorem isDigit_iff {c : Char} : c.isDigit = true ↔ 48 ≤ c.toNat ∧ c.toNat ≤ 57 := by
  change (decide (48 ≤ c.val) && decide (c.val ≤ 57)) = true ↔ 48 ≤ c.val.toNat ∧ c.val.toNat ≤ 57
  simp [UInt32.le_iff_toNat_le]

/-- The code points of letters. -/
theorem isAlpha_iff {c : Char} : c.isAlpha = true ↔
    (65 ≤ c.toNat ∧ c.toNat ≤ 90) ∨ (97 ≤ c.toNat ∧ c.toNat ≤ 122) := by
  change (decide (65 ≤ c.val ∧ c.val ≤ 90) || decide (97 ≤ c.val) && decide (c.val ≤ 122)) =
    true ↔ (65 ≤ c.val.toNat ∧ c.val.toNat ≤ 90) ∨ (97 ≤ c.val.toNat ∧ c.val.toNat ≤ 122)
  simp [UInt32.le_iff_toNat_le]

/-- A character of a path is not a blank. -/
theorem isBlank_of_isPathChar {c : Char} (h : isPathChar c = true) : isBlank c = false := by
  simp only [isPathChar, isNameChar, Char.isAlphanum, Bool.or_eq_true, isAlpha_iff, isDigit_iff,
    beq_iff_eq] at h
  have hrange : (48 ≤ c.toNat ∧ c.toNat ≤ 57) ∨ (65 ≤ c.toNat ∧ c.toNat ≤ 90) ∨
      (97 ≤ c.toNat ∧ c.toNat ≤ 122) ∨ c.toNat = 95 ∨ c.toNat = 46 := by
    rcases h with (((h | h) | h) | rfl) | rfl
    · exact .inr (.inl h)
    · exact .inr (.inr (.inl h))
    · exact .inl h
    · exact .inr (.inr (.inr (.inl rfl)))
    · exact .inr (.inr (.inr (.inr rfl)))
  simp only [isBlank, Bool.or_eq_false_iff, Bool.and_eq_false_iff, decide_eq_false_iff_not,
    beq_eq_false_iff_ne]
  omega

/-- A digit may stand in a path. -/
theorem isPathChar_of_isDigit {c : Char} (h : c.isDigit = true) : isPathChar c = true := by
  simp [isPathChar, isNameChar, Char.isAlphanum, h]

/-- What starts a name may stand in a path. -/
theorem isPathChar_of_isNameStart {c : Char} (h : isNameStart c = true) : isPathChar c = true := by
  simp [isPathChar, isNameChar_of_isNameStart h]

/-- A name starts with no digit. -/
theorem isDigit_of_isNameStart {c : Char} (h : isNameStart c = true) : c.isDigit = false := by
  simp only [isNameStart, Bool.or_eq_true, isAlpha_iff, beq_iff_eq] at h
  rw [Bool.eq_false_iff, ne_eq, isDigit_iff]
  rcases h with h | rfl
  · omega
  · decide

/-- The code points of blanks past the ASCII characters. -/
def widePoints : List Nat :=
  [0x85, 0xA0, 0x1680, 0x2000, 0x2001, 0x2002, 0x2003, 0x2004, 0x2005, 0x2006, 0x2007,
    0x2008, 0x2009, 0x200A, 0x2028, 0x2029, 0x202F, 0x205F, 0x3000]

/-- A blank is no word character: its code point lies in none of their ranges. -/
theorem isBlank_of_isWordChar {c : Char} (h : isWordChar c = true) : isBlank c = false := by
  have hranges : ∀ n ∈ widePoints, (wordRanges.any fun r => r.1 ≤ n && n ≤ r.2) = false := by
    decide +kernel
  rw [isWordChar, Bool.or_eq_true, Bool.and_eq_true, decide_eq_true_eq] at h
  rcases h with hname | ⟨hwide, hany⟩
  · exact isBlank_of_isPathChar (by simp [isPathChar, hname])
  · rw [Bool.eq_false_iff]
    intro hblank
    have hmem : c.toNat ∈ widePoints := by
      simp only [isBlank, Bool.or_eq_true, Bool.and_eq_true, decide_eq_true_eq,
        beq_iff_eq] at hblank
      simp only [widePoints, List.mem_cons, List.not_mem_nil]
      omega
    rw [hranges _ hmem] at hany
    cases hany

/-- Characters of a class, up to a text that does not go on with it. -/
theorem takeWhile_append_of_head? {p : Char → Bool} {cs rest : List Char}
    (hcs : ∀ c ∈ cs, p c = true) (hrest : ∀ c ∈ rest.head?, p c = false) :
    (cs ++ rest).takeWhile p = cs ∧ (cs ++ rest).dropWhile p = rest := by
  rw [List.takeWhile_append_of_pos hcs, List.dropWhile_append_of_pos hcs]
  cases rest with
  | nil => simp
  | cons c rest =>
    have hc : p c = false := hrest c (by simp)
    simp [hc]

end LineScript.Text
