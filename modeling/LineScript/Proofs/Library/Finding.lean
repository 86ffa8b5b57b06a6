import LineScript.Proofs.Library.Slices
import LineScript.Proofs.Library.Splitting
import LineScript.Proofs.Number.Integers

set_option relaxedAutoImplicit false
set_option autoImplicit false

/-!
# Finding a text in a text

A text is found at the position of its first occurrence, and a slice of its length from there on
gives it back. Positions count characters. A search over the encoded texts counts bytes instead; it
finds the same occurrence, because the bytes of a text can only occur where a character begins.

## Main definitions

* `LineScript.Text.OccursAt`, `LineScript.Text.FirstAt` — the occurrences of a text in a text, and
  the first of them.
* `LineScript.Text.BytesAt`, `LineScript.Text.FirstByteAt` — the same over bytes.
* `LineScript.Text.byteOffset` — the byte at which a character begins.
* `LineScript.Text.ExactPositions` — positions that are exact as numbers.

## Main results

* `LineScript.Text.indexOf?_eq_some_iff_firstAt`, `LineScript.Text.indexOf?_eq_none_iff` — the
  position that is found is the first one.
* `LineScript.Text.indexOf?_eq_some_iff_firstByteAt` — a search over bytes finds the same position.
* `LineScript.Text.exactPositions_of_length_lt` — positions are exact in texts of less than `2 ^ 53`
  characters.
* `LineScript.Library.find_first_occurrence` — finding and slicing.
-/

namespace LineScript

namespace Text

/-! ## Occurrences -/

/-- The pattern stands in the text from the character at position `i` on. -/
def OccursAt (pat cs : List Char) (i : Nat) : Prop :=
  i ≤ cs.length ∧ pat <+: cs.drop i

/-- Whether a pattern occurs at a place can be decided. -/
instance (pat cs : List Char) (i : Nat) : Decidable (OccursAt pat cs i) :=
  inferInstanceAs (Decidable (_ ∧ _))

variable {pat cs : List Char} {i : Nat}

/-- A pattern occurs where a text is taken apart around it. -/
theorem occursAt_iff :
    OccursAt pat cs i ↔ ∃ before after, cs = before ++ pat ++ after ∧ before.length = i := by
  constructor
  · rintro ⟨hi, after, hafter⟩
    refine ⟨cs.take i, after, ?_, by simp [hi]⟩
    rw [List.append_assoc, hafter, List.take_append_drop]
  · rintro ⟨before, after, rfl, rfl⟩
    exact ⟨by simp, by simp⟩

/-- A pattern occurs nowhere after the end of a text. -/
theorem OccursAt.le_length {s : String} (h : OccursAt pat s.toList i) : i ≤ s.length := by
  rw [← String.length_toList]
  exact h.1

/-- The first occurrence of `n` in `h` is at position `i`. -/
def FirstAt (n h : String) (i : Nat) : Prop :=
  OccursAt n.toList h.toList i ∧ ∀ j < i, ¬OccursAt n.toList h.toList j

/-- Whether a text first occurs at a place can be decided: the places before it are finitely many.
-/
instance (n h : String) (i : Nat) : Decidable (FirstAt n h i) :=
  inferInstanceAs (Decidable (_ ∧ _))

variable {n h : String} {b : Nat}

/-- **The position that is found** is that of the first occurrence. -/
theorem indexOf?_eq_some_iff_firstAt : indexOf? n.toList h.toList = some i ↔ FirstAt n h i := by
  simp only [indexOf?, FirstAt, Option.map_eq_some_iff, Prod.exists, cutAt?_eq_some_iff,
    occursAt_iff]
  constructor
  · rintro ⟨front, rest, ⟨htext, hfirst⟩, rfl⟩
    refine ⟨⟨front, rest, htext, rfl⟩, ?_⟩
    rintro _ hlt ⟨before, after, hbefore, rfl⟩
    exact absurd (hfirst before after hbefore) (Nat.not_le.2 hlt)
  · rintro ⟨⟨front, rest, htext, rfl⟩, hfirst⟩
    refine ⟨front, rest, ⟨htext, fun before after hbefore => ?_⟩, rfl⟩
    exact Nat.not_lt.1 fun hlt => hfirst _ hlt ⟨before, after, hbefore, rfl⟩

/-- **Nothing is found** exactly if there is no occurrence. -/
theorem indexOf?_eq_none_iff : indexOf? pat cs = none ↔ ∀ i, ¬OccursAt pat cs i := by
  rw [indexOf?, Option.map_eq_none_iff, cutAt?_eq_none_iff]
  constructor
  · rintro hnone i hi
    obtain ⟨before, after, rfl, -⟩ := occursAt_iff.1 hi
    exact hnone ⟨before, after, rfl⟩
  · rintro hnone ⟨before, after, rfl⟩
    exact hnone before.length (occursAt_iff.2 ⟨before, after, rfl, rfl⟩)

/-! ## Bytes -/

/-- The bytes of `n` stand in those of `h` from the byte `b` on. -/
def BytesAt (n h : String) (b : Nat) : Prop :=
  h.toByteArray.extract b (b + n.utf8ByteSize) = n.toByteArray

/-- The bytes of `n` stand in those of `h` from the byte `b` on, and from no byte before it. -/
def FirstByteAt (n h : String) (b : Nat) : Prop :=
  BytesAt n h b ∧ ∀ b' < b, ¬BytesAt n h b'

/-- The number of bytes of the first `i` characters. -/
def byteOffset (h : String) (i : Nat) : Nat :=
  (String.ofList (h.toList.take i)).utf8ByteSize

/-- The offset right after a text is its size in bytes. -/
theorem byteOffset_append (before after : String) :
    byteOffset (before ++ after) before.length = before.utf8ByteSize := by
  rw [byteOffset, String.toList_append, ← String.length_toList, List.take_left,
    String.ofList_toList]

/-- Each character has bytes of its own. -/
theorem byteOffset_strictMonoOn (h : String) : StrictMonoOn (byteOffset h) (Set.Iic h.length) := by
  intro j _ i hi hlt
  have hsplit : h.toList.take i = h.toList.take j ++ (h.toList.take i).drop j := by
    have hparts := List.take_append_drop j (h.toList.take i)
    rw [List.take_take, min_eq_left hlt.le] at hparts
    exact hparts.symm
  have hmore : (String.ofList ((h.toList.take i).drop j)).utf8ByteSize ≠ 0 := by
    rw [ne_eq, String.utf8ByteSize_eq_zero_iff, String.ofList_eq_empty_iff,
      ← List.length_eq_zero_iff, List.length_drop, List.length_take, String.length_toList]
    have hle : i ≤ h.length := hi
    omega
  have hsize : byteOffset h i =
      byteOffset h j + (String.ofList ((h.toList.take i).drop j)).utf8ByteSize := by
    rw [byteOffset, byteOffset, ← String.utf8ByteSize_append, ← String.ofList_append, ← hsplit]
  omega

/-- **The bytes of a text** that is not empty start and end between two characters. -/
theorem exists_append_of_bytesAt (hn : n ≠ "") (hb : BytesAt n h b) :
    ∃ before after : String, h = before ++ n ++ after ∧ before.utf8ByteSize = b := by
  have hpos : n.utf8ByteSize ≠ 0 := fun hzero => hn (String.utf8ByteSize_eq_zero_iff.1 hzero)
  have hin : b + n.utf8ByteSize ≤ h.utf8ByteSize := by
    have hsize := congrArg ByteArray.size hb
    rw [ByteArray.size_extract, String.size_toByteArray, String.size_toByteArray] at hsize
    omega
  have hbytes : (h.toByteArray.extract b (b + n.utf8ByteSize)).IsValidUTF8 := by
    rw [hb]
    exact n.isValidUTF8
  have hends := (String.Pos.Raw.isValidUTF8_extract_iff (s := h) ⟨b⟩ ⟨b + n.utf8ByteSize⟩
    (by simp [String.Pos.Raw.le_iff]) (by simpa [String.Pos.Raw.le_iff] using hin)).1 hbytes
  obtain heq | ⟨hstart, hstop⟩ := hends
  · cases hpos (by simpa [String.Pos.Raw.ext_iff] using heq)
  · refine ⟨.ofByteArray _ hstart.isValidUTF8_extract_zero,
      .ofByteArray _ hstop.isValidUTF8_extract_utf8ByteSize, ?_, ?_⟩
    · have hwhole : h.toByteArray.extract 0 h.utf8ByteSize = h.toByteArray := by
        rw [← String.size_toByteArray, ByteArray.extract_zero_size]
      rw [← String.toByteArray_inj, String.toByteArray_append, String.toByteArray_append, ← hb]
      simp [max_eq_right hin, hwhole]
    · rw [← String.size_toByteArray]
      simp
      omega

/-- The bytes of a text stand where the text does. -/
theorem bytesAt_append (before after : String) :
    BytesAt n (before ++ n ++ after) before.utf8ByteSize := by
  have hshift := ByteArray.extract_append_size_add (a := before.toByteArray)
    (b := n.toByteArray ++ after.toByteArray) (i := 0) (j := n.toByteArray.size)
  rw [ByteArray.extract_append_eq_left rfl, String.size_toByteArray,
    String.size_toByteArray] at hshift
  rw [BytesAt, String.toByteArray_append, String.toByteArray_append, ByteArray.append_assoc]
  exact hshift

/-- **Bytes occur where characters do.** -/
theorem bytesAt_iff (hn : n ≠ "") :
    BytesAt n h b ↔ ∃ i, OccursAt n.toList h.toList i ∧ byteOffset h i = b := by
  constructor
  · intro hb
    obtain ⟨before, after, rfl, rfl⟩ := exists_append_of_bytesAt hn hb
    refine ⟨before.length, occursAt_iff.2 ⟨before.toList, after.toList, by simp,
      before.length_toList⟩, ?_⟩
    rw [String.append_assoc, byteOffset_append]
  · rintro ⟨i, hoccurs, rfl⟩
    obtain ⟨before, after, htext, rfl⟩ := occursAt_iff.1 hoccurs
    obtain rfl : h = String.ofList before ++ n ++ String.ofList after := by
      rw [← String.toList_inj, htext]
      simp
    have hoffset := byteOffset_append (String.ofList before) (n ++ String.ofList after)
    rw [String.length_ofList, ← String.append_assoc] at hoffset
    rw [hoffset]
    exact bytesAt_append _ _

/-- **A search over bytes** finds the same position: the first byte from which on the bytes of `n`
stand in those of `h` is where the character that is found begins.

**Proof sketch.** The byte positions where `n` stands are those where a character begins at which
`n` occurs (`bytesAt_iff`), and `byteOffset` is strictly increasing on the character positions. So
the first position on one side is the first one on the other. -/
theorem indexOf?_eq_some_iff_firstByteAt :
    indexOf? n.toList h.toList = some i ↔ i ≤ h.length ∧ FirstByteAt n h (byteOffset h i) := by
  by_cases hn : n = ""
  · -- an empty text occurs everywhere, so that it is found at the start
    subst hn
    have hempty : ∀ b, BytesAt "" h b := fun b => by simp [BytesAt]
    have hfound : indexOf? "".toList h.toList = some 0 :=
      indexOf?_eq_some_iff_firstAt.2 ⟨⟨Nat.zero_le _, by simp⟩, by simp⟩
    rw [hfound]
    constructor
    · rintro ⟨⟩
      exact ⟨Nat.zero_le _, hempty _, by simp [byteOffset]⟩
    · rintro ⟨hi, -, hfirst⟩
      rcases Nat.eq_zero_or_pos i with rfl | hpos
      · rfl
      · exact absurd (hempty _) (hfirst _ (byteOffset_strictMonoOn h (Nat.zero_le _) hi hpos))
  · rw [indexOf?_eq_some_iff_firstAt]
    have hmono := byteOffset_strictMonoOn h
    constructor
    · rintro ⟨hoccurs, hfirst⟩
      refine ⟨hoccurs.le_length, (bytesAt_iff hn).2 ⟨i, hoccurs, rfl⟩, fun b hlt hb => ?_⟩
      obtain ⟨j, hj, rfl⟩ := (bytesAt_iff hn).1 hb
      exact hfirst j ((hmono.lt_iff_lt hj.le_length hoccurs.le_length).1 hlt) hj
    · rintro ⟨hi, hb, hfirst⟩
      obtain ⟨j, hj, hoffset⟩ := (bytesAt_iff hn).1 hb
      obtain rfl : j = i := hmono.injOn hj.le_length hi hoffset
      refine ⟨hj, fun k hlt hk => ?_⟩
      exact hfirst _ (hmono hk.le_length hi hlt) ((bytesAt_iff hn).2 ⟨k, hk, rfl⟩)

/-! ## Positions as numbers -/

/-- The positions of a text are exact as numbers: truncation gives them back. -/
def ExactPositions (s : String) : Prop :=
  ∀ i ≤ s.length, Number.truncate (Number.ofNat i) = i

/-- The positions of a text with fewer than 2^53 characters are exact. -/
theorem exactPositions_of_length_lt (hlength : h.length < 2 ^ 53) : ExactPositions h :=
  fun _ hi => Number.truncate_ofNat (Nat.lt_of_le_of_lt hi hlength)

end Text

namespace Library

open Text (OccursAt FirstAt FirstByteAt byteOffset ExactPositions)

variable {n h : String} {i : Nat}

/-- Finding a text in another one. -/
theorem answer?_find (n h : String) :
    answer? "string" "find" [.str n, .str h] = some (.ok (findIn n h)) := rfl

/-- A slice from a found position on. -/
theorem answer?_slice (h : String) (found length : Float) :
    answer? "string" "slice" [.str h, .number found, .number length] =
      some (.ok (.str (sliceText h (Number.truncate found) (Number.truncate length)))) := rfl

/-- What is found is a position or `false`. -/
theorem answer?_find_eq_number_iff {x : Float} :
    answer? "string" "find" [.str n, .str h] = some (.ok (.number x)) ↔
      ∃ i, Text.indexOf? n.toList h.toList = some i ∧ x = Number.ofNat i := by
  rw [answer?_find, findIn]
  cases Text.indexOf? n.toList h.toList <;> simp [eq_comm]

/-- Positions that are exact are found under their own number only. -/
theorem answer?_find_eq_ofNat_iff (hexact : ExactPositions h)
    (hi : Number.truncate (Number.ofNat i) = i) :
    answer? "string" "find" [.str n, .str h] = some (.ok (.number (Number.ofNat i))) ↔
      Text.indexOf? n.toList h.toList = some i := by
  rw [answer?_find_eq_number_iff]
  constructor
  · rintro ⟨k, hk, heq⟩
    have hle := (Text.indexOf?_eq_some_iff_firstAt.1 hk).1.le_length
    have htruncated := congrArg Number.truncate heq
    rw [hi, hexact k hle, Int.natCast_inj] at htruncated
    rw [htruncated, hk]
  · intro hfound
    exact ⟨i, hfound, rfl⟩

/-- The answer is `false` only if there is no occurrence. -/
theorem answer?_find_eq_false_iff :
    answer? "string" "find" [.str n, .str h] = some (.ok (.bool false)) ↔
      Text.indexOf? n.toList h.toList = none := by
  rw [answer?_find, findIn]
  cases Text.indexOf? n.toList h.toList <;> simp

/-- A count that is no larger than one of 64 bits has 64 bits. -/
theorem isInteger64_of_le {size k : Nat} (hsize : Number.IsInteger64 size) (hk : k ≤ size) :
    Number.IsInteger64 k := by
  obtain ⟨-, hmax⟩ := hsize
  exact ⟨by unfold Number.minInteger; omega, by omega⟩

/-- A span that lies inside the items is not cut. -/
theorem span_of_add_le {size start length : Nat} (hsize : Number.IsInteger64 size)
    (hpos : length ≠ 0)
    (hle : start + length ≤ size) : span size start length = (start, start + length) := by
  have hstart : sliceStart size start = start := by
    unfold sliceStart
    omega
  have hstop : sliceStop size start length = (start + length : Nat) := by
    unfold sliceStop
    rw [hstart]
    omega
  rw [span_eq hsize (isInteger64_of_le hsize (by omega)) (isInteger64_of_le hsize (by omega)),
    hstart, hstop]
  rfl

/-- **The slice of a text** from an occurrence on. -/
theorem sliceText_of_occursAt (hn : n ≠ "") (hsize : Number.IsInteger64 h.length)
    (hoccurs : OccursAt n.toList h.toList i) : sliceText h i n.length = n := by
  obtain ⟨before, after, htext, rfl⟩ := Text.occursAt_iff.1 hoccurs
  have hlength : h.toList.length = before.length + n.length + after.length := by
    rw [htext, List.length_append, List.length_append, String.length_toList]
  have hpos : n.length ≠ 0 := by
    rw [← String.length_toList, ne_eq, List.length_eq_zero_iff, String.toList_eq_nil_iff]
    exact hn
  rw [← String.length_toList] at hsize
  have hspan : span h.toList.length before.length n.length =
      (before.length, before.length + n.length) := span_of_add_le hsize hpos (by omega)
  have hpart : (h.toList.take (before.length + n.length)).drop before.length = n.toList := by
    rw [htext, ← String.length_toList, ← List.length_append, List.take_left, List.drop_left]
  unfold sliceText
  simp only [hspan, hpart, String.ofList_toList]

/-- **Finding a text.** What is found is the position of the first occurrence, or `false` if there
is none; a search over the bytes of the texts comes to the same position. If positions are exact as
numbers, then each one is found under its own number only; and the slice of a text that is not
empty, from the position that is found and with its length, is the text again.

**Proof sketch.** Bytes that are those of a text begin and end between two characters
(`Text.exists_append_of_bytesAt`), and later characters begin at later bytes
(`Text.byteOffset_strictMonoOn`). Numbers of exact positions are distinct, as truncation tells them
apart (`answer?_find_eq_ofNat_iff`). An occurrence lies inside the text, so that no end of the slice
is cut (`span_of_add_le`). -/
theorem find_first_occurrence (n h : String) :
    (∀ found, answer? "string" "find" [.str n, .str h] = some (.ok (.number found)) ↔
      ∃ i, FirstAt n h i ∧ found = Number.ofNat i) ∧
    (∀ found, answer? "string" "find" [.str n, .str h] = some (.ok (.number found)) ↔
      ∃ i ≤ h.length, FirstByteAt n h (byteOffset h i) ∧ found = Number.ofNat i) ∧
    (answer? "string" "find" [.str n, .str h] = some (.ok (.bool false)) ↔
      ∀ i, ¬OccursAt n.toList h.toList i) ∧
    (ExactPositions h →
      (∀ i : Nat, Number.truncate (Number.ofNat i) = i →
        (answer? "string" "find" [.str n, .str h] = some (.ok (.number (Number.ofNat i))) ↔
          FirstAt n h i)) ∧
      (n ≠ "" → ∀ found, answer? "string" "find" [.str n, .str h] = some (.ok (.number found)) →
        ∃ length, answer? "string" "length" [.str n] = some (.ok (.number length)) ∧
          answer? "string" "slice" [.str h, .number found, .number length] =
            some (.ok (.str n)))) := by
  refine ⟨fun found => ?_, fun found => ?_, ?_, fun hexact =>
    ⟨fun i hi => ?_, fun hn found hfound => ?_⟩⟩
  · simp only [answer?_find_eq_number_iff, Text.indexOf?_eq_some_iff_firstAt]
  · simp only [answer?_find_eq_number_iff, Text.indexOf?_eq_some_iff_firstByteAt, and_assoc]
  · rw [answer?_find_eq_false_iff, Text.indexOf?_eq_none_iff]
  · rw [answer?_find_eq_ofNat_iff hexact hi, Text.indexOf?_eq_some_iff_firstAt]
  · obtain ⟨i, hi, rfl⟩ := answer?_find_eq_number_iff.1 hfound
    obtain ⟨hoccurs, -⟩ := Text.indexOf?_eq_some_iff_firstAt.1 hi
    have hsize : Number.IsInteger64 h.length := by
      rw [← hexact h.length le_rfl]
      exact Number.isInteger64_truncate _
    have hshorter : n.length ≤ h.length := by
      obtain ⟨before, after, htext, -⟩ := Text.occursAt_iff.1 hoccurs
      rw [← String.length_toList, ← h.length_toList, htext, List.length_append, List.length_append]
      omega
    refine ⟨Number.ofNat n.length, rfl, ?_⟩
    rw [answer?_slice, hexact i hoccurs.le_length, hexact n.length hshorter,
      sliceText_of_occursAt hn hsize hoccurs]

/-- After a character of two bytes: the byte and the character have different positions. -/
theorem find_first_occurrence_wide :
    ExactPositions "naïve" ∧ byteOffset "naïve" 3 = 4 ∧
    answer? "string" "find" [.str "ve", .str "naïve"] = some (.ok (.number (Number.ofNat 3))) ∧
    answer? "string" "find" [.str "vi", .str "naïve"] = some (.ok (.bool false)) ∧
    ∃ length, answer? "string" "length" [.str "ve"] = some (.ok (.number length)) ∧
      answer? "string" "slice" [.str "naïve", .number (Number.ofNat 3), .number length] =
        some (.ok (.str "ve")) := by
  have hexact : ExactPositions "naïve" := Text.exactPositions_of_length_lt (by decide)
  obtain ⟨-, -, -, hnumber⟩ := find_first_occurrence "ve" "naïve"
  obtain ⟨hfound, hslice⟩ := hnumber hexact
  have hposition := (hfound 3 (hexact 3 (by decide))).2 (by decide)
  obtain ⟨-, -, hnone, -⟩ := find_first_occurrence "vi" "naïve"
  have hnowhere : ∀ i < 6, ¬OccursAt "vi".toList "naïve".toList i := by decide
  refine ⟨hexact, by decide, hposition, hnone.2 fun i hoccurs => ?_, hslice (by decide) _ hposition⟩
  exact hnowhere i (Nat.lt_succ_of_le hoccurs.le_length) hoccurs

end Library

end LineScript
