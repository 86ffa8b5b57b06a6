import LineScript.Proofs.Concatenation
import LineScript.Proofs.Library.Answers

set_option relaxedAutoImplicit false
set_option autoImplicit false

/-!
# Slices of texts and collections

An offset and a length select a part of a sequence. What they select is said here over integers
without bounds; the positions are computed in sums that stop at the ends of the signed 64-bit
integers. The two agree for every offset and length of 64 bits, so a slice is never read outside of
the sequence.

## Main definitions

* `LineScript.sliceStart`, `LineScript.sliceStop` — where a slice begins, and where it ends.
* `LineScript.IsSlice` — the part of a list between the two.

## Main results

* `LineScript.span_eq` — the positions that are computed are those of the slice.
* `LineScript.slices_in_range` — slices of texts and of collections.
-/

namespace LineScript

open Number (IsInteger64)

/-- Where a slice of `size` items begins: at the offset, but not after the last item, or that many
items before the end, but not before the first one. -/
def sliceStart (size : Nat) (offset : Int) : Int :=
  if offset < 0 then max 0 (size + offset) else min offset size

/-- Where a slice of `size` items ends: at the end for the length zero, after that many items for a
positive length, and that many items before the end, but not before it begins, for a negative one.
-/
def sliceStop (size : Nat) (offset length : Int) : Int :=
  if length = 0 then size
  else if 0 < length then min (sliceStart size offset + length) size
  else max (sliceStart size offset) (size + length)

/-- The part of a list from the place where a slice begins up to the place where it ends. -/
def IsSlice {α : Type} (items : List α) (offset length : Int) (part : List α) : Prop :=
  ∃ before after, items = before ++ part ++ after ∧
    before.length = sliceStart items.length offset ∧
    (before ++ part).length = sliceStop items.length offset length

variable (size : Nat) (offset length : Int)

/-- A slice starts at the first entry or after it. -/
theorem sliceStart_nonneg : 0 ≤ sliceStart size offset := by
  unfold sliceStart
  split <;> omega

/-- A slice starts no later than at the end. -/
theorem sliceStart_le_size : sliceStart size offset ≤ size := by
  unfold sliceStart
  split <;> omega

/-- A slice does not stop before it starts. -/
theorem sliceStart_le_sliceStop : sliceStart size offset ≤ sliceStop size offset length := by
  have hsize := sliceStart_le_size size offset
  unfold sliceStop
  split <;> try split
  all_goals omega

/-- A slice stops no later than at the end. -/
theorem sliceStop_le_size : sliceStop size offset length ≤ size := by
  have hsize := sliceStart_le_size size offset
  unfold sliceStop
  split <;> try split
  all_goals omega

variable {size offset length}

/-- No sum that counts from the end of the items stops short. -/
theorem clamp_add_of_neg {n : Int} (hsize : IsInteger64 size) (hn : IsInteger64 n) (hneg : n < 0) :
    Number.clamp (size + n) = size + n := by
  obtain ⟨hmin, -⟩ := hn
  obtain ⟨-, hmax⟩ := hsize
  exact Number.clamp_of_mem (by omega) (by omega)

/-- A sum that does stop short has left the items behind it already. -/
theorem min_clamp_add {start : Int} (hsize : IsInteger64 size) (hstart : 0 ≤ start)
    (hlength : 0 < length) :
    min (Number.clamp (start + length)) size = min (start + length) size := by
  obtain ⟨-, hmax⟩ := hsize
  unfold Number.clamp Number.minInteger Number.maxInteger at *
  omega

/-- **The positions of a slice** are those that are meant: the sums agree with the unbounded ones
wherever they matter. -/
theorem span_eq (hsize : IsInteger64 size) (hoffset : IsInteger64 offset)
    (hlength : IsInteger64 length) :
    span size offset length =
      ((sliceStart size offset).toNat, (sliceStop size offset length).toNat) := by
  have hstart : (if offset < 0 then max 0 (Number.clamp (size + offset)) else min offset size) =
      sliceStart size offset := by
    unfold sliceStart
    by_cases hneg : offset < 0
    · rw [if_pos hneg, if_pos hneg, clamp_add_of_neg hsize hoffset hneg]
    · rw [if_neg hneg, if_neg hneg]
  have hstop : (if length = 0 then (size : Int)
      else if length < 0 then max (sliceStart size offset) (Number.clamp (size + length))
      else min (Number.clamp (sliceStart size offset + length)) size) =
      sliceStop size offset length := by
    unfold sliceStop
    rcases Int.lt_trichotomy length 0 with hneg | rfl | hpos
    · have hne : length ≠ 0 := by omega
      have hnot : ¬ 0 < length := by omega
      rw [if_neg hne, if_neg hne, if_pos hneg, if_neg hnot, clamp_add_of_neg hsize hlength hneg]
    · rfl
    · have hne : length ≠ 0 := by omega
      have hnot : ¬ length < 0 := by omega
      rw [if_neg hne, if_neg hne, if_neg hnot, if_pos hpos,
        min_clamp_add hsize (sliceStart_nonneg size offset) hpos]
  simp only [span, hstart, hstop]

/-- **A span lies inside the items**, and its ends are those of the slice. -/
theorem span_in_range (hsize : IsInteger64 size) (hoffset : IsInteger64 offset)
    (hlength : IsInteger64 length) :
    ∃ start stop : Nat, span size offset length = (start, stop) ∧
      start = sliceStart size offset ∧ stop = sliceStop size offset length ∧
      start ≤ stop ∧ stop ≤ size := by
  have hnonneg := sliceStart_nonneg size offset
  have hle := sliceStart_le_sliceStop size offset length
  have hsize' := sliceStop_le_size size offset length
  refine ⟨_, _, span_eq hsize hoffset hlength, ?_⟩
  omega

/-- What is taken and dropped along a span is the slice. -/
theorem isSlice_span {α : Type} (items : List α) (hsize : IsInteger64 items.length)
    (hoffset : IsInteger64 offset) (hlength : IsInteger64 length) :
    IsSlice items offset length ((items.take (span items.length offset length).2).drop
      (span items.length offset length).1) := by
  obtain ⟨start, stop, hspan, hstart, hstop, hle, hin⟩ := span_in_range hsize hoffset hlength
  have hfront : items.take start ++ (items.take stop).drop start = items.take stop := by
    have hparts := List.take_append_drop start (items.take stop)
    rwa [List.take_take, min_eq_left hle] at hparts
  rw [hspan]
  refine ⟨items.take start, items.drop stop, ?_, ?_, ?_⟩
  · rw [hfront, List.take_append_drop]
  · rw [List.length_take, min_eq_left (hle.trans hin), hstart]
  · rw [hfront, List.length_take, min_eq_left hin, hstop]

/-- Numbering leaves the values and their order. -/
theorem Collection.map_snd_numbered {α : Type} (start : Nat) (entries : List (Key × α)) :
    (Collection.numbered start entries).map Prod.snd = entries.map Prod.snd := by
  fun_induction Collection.numbered start entries with
  | case1 => rfl
  | case2 start n v rest ih => rw [List.map_cons, List.map_cons, ih]
  | case3 start s v rest ih => rw [List.map_cons, List.map_cons, ih]

/-- **Slices are in range and are what an offset and a length select.** For every number of items,
and every offset and length, of 64 bits, the positions that are computed are those of the slice over
unbounded integers, the first is not after the second, and neither is outside of the items. So a
slice of a text consists of exactly its characters between the two positions; and a slice of a
collection has exactly the entries between them, in order, under the same names and under indices
from zero on. Any values may stand for the offset and the length: what they are read as always has
64 bits.

**Proof sketch.** A sum that counts from the end of the items cannot leave the 64 bits
(`clamp_add_of_neg`), and a sum that counts on from the start stops only beyond the last item, where
the end of the items bounds it anyway (`min_clamp_add`). The entries of a collection with distinct
keys are gathered in their order (`Collection.gather_of_nodup`). -/
theorem slices_in_range :
    (∀ (size : Nat) (offset length : Int), IsInteger64 size → IsInteger64 offset →
      IsInteger64 length → ∃ start stop : Nat, span size offset length = (start, stop) ∧
        start = sliceStart size offset ∧ stop = sliceStop size offset length ∧
        start ≤ stop ∧ stop ≤ size) ∧
    (∀ args : List Value, IsInteger64 (Arguments.text args 0).length → ∃ part : List Char,
      IsSlice (Arguments.text args 0).toList (Arguments.integer args 1) (Arguments.integer args 2)
        part ∧
      Library.answer? "string" "slice" args = some (.ok (.str (String.ofList part)))) ∧
    (∀ (args : List Value) (c : Collection Value), Arguments.value args 0 = .collection c →
      IsInteger64 c.size → c.keys.Nodup → ∃ (part : List (Key × Value)) (r : Collection Value),
      IsSlice c.entries (Arguments.integer args 1) (Arguments.integer args 2) part ∧
      Library.answer? "array" "slice" args = some (.ok (.collection r)) ∧
      r.values = part.map Prod.snd ∧ r.entries = Collection.numbered 0 part) := by
  refine ⟨fun size offset length => span_in_range, fun args hsize => ?_,
    fun args c hc hsize hnodup => ?_⟩
  · exact ⟨_, isSlice_span _ hsize (Arguments.isInteger64_integer args 1)
      (Arguments.isInteger64_integer args 2), Library.answer?_string_slice args⟩
  · have hslice := isSlice_span c.entries hsize (Arguments.isInteger64_integer args 1)
      (Arguments.isInteger64_integer args 2)
    obtain ⟨before, after, hentries, -⟩ := id hslice
    generalize hpart : (c.entries.take _).drop _ = part at hslice hentries
    have hdistinct : (part.map Prod.fst).Nodup := by
      rw [Collection.keys, hentries, List.map_append, List.map_append] at hnodup
      exact (List.nodup_append.1 (List.nodup_append.1 hnodup).1).2.1
    have hgather : Library.sliceEntries c (Arguments.integer args 1) (Arguments.integer args 2) =
        ⟨Collection.numbered 0 part⟩ := by
      rw [← Collection.gather_of_nodup hdistinct, ← hpart]
      rfl
    refine ⟨part, _, hslice, Library.answer?_array_slice hc, ?_, ?_⟩
    · rw [hgather]
      exact Collection.map_snd_numbered 0 part
    · rw [hgather]

/-- The last two entries of a collection with gaps, and a text sliced by the least and the largest
integer. -/
theorem slices_in_range_extremes :
    IsInteger64 5 ∧ IsInteger64 Number.minInteger ∧ IsInteger64 Number.maxInteger ∧
    (∃ start stop : Nat, span 5 Number.minInteger Number.maxInteger = (start, stop) ∧
      (start : Int) = 0 ∧ (stop : Int) = 5 ∧ start ≤ stop ∧ stop ≤ 5) ∧
    (∃ part : List Char, IsSlice "naïve".toList (-1) 0 part ∧
      Library.answer? "string" "slice" [.str "naïve", .number (-1.0)] =
        some (.ok (.str (String.ofList part)))) ∧
    Collection.gappy.keys.Nodup ∧
    ∃ (part : List (Key × Value)) (r : Collection Value),
      IsSlice Collection.gappy.entries (-2) 0 part ∧
      Library.answer? "array" "slice" [.collection Collection.gappy, .number (-2.0), .null] =
        some (.ok (.collection r)) ∧
      r.values = part.map Prod.snd ∧ r.entries = Collection.numbered 0 part := by
  have hfive : IsInteger64 5 := by decide
  have hmin : IsInteger64 Number.minInteger := by decide
  have hmax : IsInteger64 Number.maxInteger := by decide
  have hnodup : Collection.gappy.keys.Nodup := by decide
  obtain ⟨hspan, htext, hcollection⟩ := slices_in_range
  refine ⟨hfive, hmin, hmax, hspan 5 _ _ hfive hmin hmax, ?_, hnodup, ?_⟩
  · have hoffset : Number.truncate (-1.0) = -1 := by decide +kernel
    have hlength : Number.truncate 0.0 = 0 := by decide +kernel
    rw [← hoffset, ← hlength]
    exact htext [.str "naïve", .number (-1.0)] (by decide)
  · have hoffset : Number.truncate (-2.0) = -2 := by decide +kernel
    have hlength : Number.truncate 0.0 = 0 := by decide +kernel
    rw [← hoffset, ← hlength]
    exact hcollection [.collection Collection.gappy, .number (-2.0), .null] _ rfl (by decide) hnodup

end LineScript
