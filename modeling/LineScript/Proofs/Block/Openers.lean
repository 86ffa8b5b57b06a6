import Mathlib.Data.List.Basic
import Mathlib.Data.List.Induction
import LineScript.Proofs.Structured.Program

set_option relaxedAutoImplicit false
set_option autoImplicit false

/-!
# Openers and their ends

Which lines of a source belong together as the opener and the end of one block is a matter of the
shapes of the lines alone, whatever a run makes of them. An opener is *unmatched* as long as the
lines after it end no more blocks than they open; an `end` belongs to the last opener that is
unmatched where it stands.

## Main definitions

* `LineScript.openerCount`, `LineScript.closerCount` — how many lines open and how many end a block.
* `LineScript.unmatched` — the indices of the openers that the lines do not end, in order.
* `LineScript.IsBlock` — the opener and the end of one block.

## Main results

* `LineScript.add_closerCount_of_nestAfter` — the nesting is the difference of the two counts.
* `LineScript.unmatched_concat_of_opener` and its siblings — the unmatched openers after one more
  line.
* `LineScript.length_unmatched` — there are as many unmatched openers as blocks are nested.
* `LineScript.isBlock_of_unmatched` — an `end` belongs to the last unmatched opener.
-/

namespace LineScript

/-! ## Counting openers and ends -/

/-- The number of lines that open a block. -/
def openerCount (lines : List String) : Nat :=
  lines.countP fun line => LineShape.ofLine line = .opener

/-- The number of lines that end a block. -/
def closerCount (lines : List String) : Nat :=
  lines.countP fun line => LineShape.ofLine line = .closer

/-- One line changes the nesting by what it opens or ends. -/
theorem add_closerCount_of_nestStep {line : String} {d e : Nat} (h : nestStep d line = some e) :
    e + closerCount [line] = d + openerCount [line] := by
  cases hline : LineShape.ofLine line with
  | opener =>
    simp only [nestStep, hline, Option.some.injEq] at h
    simp [closerCount, openerCount, hline]
    omega
  | closer =>
    cases d with
    | zero => simp [nestStep, hline] at h
    | succ d =>
      simp only [nestStep, hline, Option.some.injEq] at h
      simp [closerCount, openerCount, hline]
      omega
  | other =>
    simp only [nestStep, hline, Option.some.injEq] at h
    simp [closerCount, openerCount, hline]
    omega

/-- **The nesting is the difference of the counts** of openers and ends. -/
theorem add_closerCount_of_nestAfter {lines : List String} {d e : Nat}
    (h : nestAfter lines d = some e) : e + closerCount lines = d + openerCount lines := by
  induction lines generalizing d with
  | nil =>
    cases h
    simp [closerCount, openerCount]
  | cons line lines ih =>
    rw [nestAfter_cons] at h
    obtain ⟨m, hline, hrest⟩ := Option.bind_eq_some_iff.1 h
    have hstep := add_closerCount_of_nestStep hline
    have hlines := ih hrest
    simp only [closerCount, openerCount, List.countP_cons, List.countP_nil] at hstep hlines ⊢
    omega

/-- If blocks are nested properly after some lines, they are after any first part of them. -/
theorem nestAfter_take {lines : List String} {d e : Nat} (h : nestAfter lines d = some e)
    (k : Nat) :
    ∃ m, nestAfter (lines.take k) d = some m := by
  rw [← List.take_append_drop k lines, nestAfter_append] at h
  obtain ⟨m, hm, -⟩ := Option.bind_eq_some_iff.1 h
  exact ⟨m, hm⟩

/-- No first part of properly nested lines ends more blocks than it opens. -/
theorem closerCount_take_le {lines : List String} {e : Nat} (h : nestAfter lines 0 = some e)
    (k : Nat) :
    closerCount (lines.take k) ≤ openerCount (lines.take k) := by
  obtain ⟨m, hm⟩ := nestAfter_take h k
  have hcount := add_closerCount_of_nestAfter hm
  omega

/-- The nesting after one more line. -/
theorem nestAfter_concat (lines : List String) (line : String) (d : Nat) :
    nestAfter (lines ++ [line]) d = (nestAfter lines d).bind fun e => nestStep e line := by
  rw [nestAfter_append]
  refine Option.bind_congr fun e _ => ?_
  rw [nestAfter_cons]
  exact Option.bind_fun_some (nestStep e line)

/-! ## Unmatched openers -/

/-- Whether the line with index `i` opens a block that the lines after it do not end. -/
def isUnmatched (lines : List String) (i : Nat) : Bool :=
  lines[i]?.map LineShape.ofLine == some .opener && (nestAfter (lines.drop (i + 1)) 0).isSome

/-- The indices of the openers that are not ended, outermost first. -/
def unmatched (lines : List String) : List Nat :=
  (List.range lines.length).filter (isUnmatched lines)

/-- The opener on line `i` and the end on line `j` are those of one block: the lines between them
end all blocks that they open, and no others. -/
structure IsBlock (lines : List String) (i j : Nat) : Prop where
  lt : i < j
  opener : lines[i]?.map LineShape.ofLine = some .opener
  closer : lines[j]?.map LineShape.ofLine = some .closer
  between : nestAfter ((lines.take j).drop (i + 1)) 0 = some 0

/-- An opener that is not ended is one of the lines. -/
theorem lt_length_of_mem_unmatched {lines : List String} {i : Nat} (h : i ∈ unmatched lines) :
    i < lines.length := by
  rw [unmatched, List.mem_filter, List.mem_range] at h
  exact h.1

/-- An opener that is not ended opens a block. -/
theorem opener_of_mem_unmatched {lines : List String} {i : Nat} (h : i ∈ unmatched lines) :
    lines[i]?.map LineShape.ofLine = some .opener := by
  rw [unmatched, List.mem_filter, isUnmatched, Bool.and_eq_true, beq_iff_eq] at h
  exact h.2.1

/-- Whether an opener is still unmatched after one more line. -/
theorem isUnmatched_concat (lines : List String) (line : String) {i : Nat} (hi : i < lines.length) :
    isUnmatched (lines ++ [line]) i =
      (lines[i]?.map LineShape.ofLine == some .opener &&
        ((nestAfter (lines.drop (i + 1)) 0).bind fun e => nestStep e line).isSome) := by
  rw [isUnmatched, List.getElem?_append_left hi, List.drop_append_of_le_length (by omega),
    nestAfter_concat]

/-- A line that ends no block leaves unmatched openers unmatched. -/
theorem isUnmatched_concat_of_ne_closer {lines : List String} {line : String}
    (hline : LineShape.ofLine line ≠ .closer) {i : Nat} (hi : i < lines.length) :
    isUnmatched (lines ++ [line]) i = isUnmatched lines i := by
  have hstep : ∀ e, (nestStep e line).isSome = true := by
    intro e
    cases h : LineShape.ofLine line with
    | opener => simp [nestStep, h]
    | closer => exact absurd h hline
    | other => simp [nestStep, h]
  rw [isUnmatched_concat lines line hi, isUnmatched]
  cases nestAfter (lines.drop (i + 1)) 0 with
  | none => rfl
  | some e => rw [Option.bind_some, hstep e, Option.isSome_some]

/-- Of the lines so far, the same openers are left without an end by a further line that ends no
block. -/
theorem filter_isUnmatched_concat {lines : List String} {line : String}
    (hline : LineShape.ofLine line ≠ .closer) :
    (List.range lines.length).filter (isUnmatched (lines ++ [line])) = unmatched lines := by
  refine List.filter_congr fun i hi => ?_
  exact isUnmatched_concat_of_ne_closer hline (List.mem_range.1 hi)

/-- The unmatched openers of one more line are among the indices up to it. -/
theorem unmatched_concat (lines : List String) (line : String) :
    unmatched (lines ++ [line]) =
      (List.range lines.length).filter (isUnmatched (lines ++ [line])) ++
        if LineShape.ofLine line = .opener then [lines.length] else [] := by
  have hlast : isUnmatched (lines ++ [line]) lines.length =
      decide (LineShape.ofLine line = .opener) := by
    simp [isUnmatched, nestAfter, Bool.beq_eq_decide_eq]
  rw [unmatched, List.length_append, List.length_singleton, List.range_succ, List.filter_append]
  simp [List.filter_cons, hlast]

/-- A line that neither opens nor ends a block changes nothing. -/
theorem unmatched_concat_of_other {lines : List String} {line : String}
    (hline : LineShape.ofLine line = .other) : unmatched (lines ++ [line]) = unmatched lines := by
  rw [unmatched_concat, filter_isUnmatched_concat (by simp [hline]), if_neg (by simp [hline]),
    List.append_nil]

/-- An opener is not ended yet. -/
theorem unmatched_concat_of_opener {lines : List String} {line : String}
    (hline : LineShape.ofLine line = .opener) :
    unmatched (lines ++ [line]) = unmatched lines ++ [lines.length] := by
  rw [unmatched_concat, filter_isUnmatched_concat (by simp [hline]), if_pos hline]

/-- What is left open after every unmatched opener: as many blocks as there are unmatched openers
after it. -/
def Leveled (lines : List String) : Prop :=
  ∀ us u vs, unmatched lines = us ++ u :: vs → nestAfter (lines.drop (u + 1)) 0 = some vs.length

/-- An end makes the last unmatched opener a matched one: only after that one is no block left open.
-/
theorem Leveled.unmatched_concat_of_closer {lines : List String} (h : Leveled lines) {line : String}
    (hline : LineShape.ofLine line = .closer) :
    unmatched (lines ++ [line]) = (unmatched lines).dropLast := by
  have hstays : ∀ i ∈ unmatched lines, isUnmatched (lines ++ [line]) i =
      decide (nestAfter (lines.drop (i + 1)) 0 ≠ some 0) := by
    intro i hi
    rw [isUnmatched_concat lines line (lt_length_of_mem_unmatched hi), opener_of_mem_unmatched hi]
    obtain ⟨us, vs, hsplit⟩ := List.append_of_mem hi
    rw [h us i vs hsplit]
    cases vs <;> simp [nestStep, hline]
  -- an opener that was matched before stays so
  have hfilter : (List.range lines.length).filter (isUnmatched (lines ++ [line])) =
      (unmatched lines).filter (isUnmatched (lines ++ [line])) := by
    rw [unmatched, List.filter_filter]
    refine List.filter_congr fun i hi => ?_
    rw [isUnmatched_concat lines line (List.mem_range.1 hi), isUnmatched]
    cases nestAfter (lines.drop (i + 1)) 0 with
    | none => simp
    | some e =>
      rw [Option.isSome_some, Bool.and_true, Bool.and_right_comm, Bool.and_self]
  rw [unmatched_concat, if_neg (by simp [hline]), List.append_nil, hfilter]
  rcases List.eq_nil_or_concat' (unmatched lines) with hnil | ⟨us, u, hlast⟩
  · rw [hnil]
    rfl
  · have hu : isUnmatched (lines ++ [line]) u = false := by
      rw [hstays u (by simp [hlast]), h us u [] hlast]
      simp
    have hus : ∀ i ∈ us, isUnmatched (lines ++ [line]) i = true := by
      intro i hi
      obtain ⟨before, after, rfl⟩ := List.append_of_mem hi
      have hlevel := h before i (after ++ [u]) (by simp [hlast])
      rw [hstays i (by simp [hlast]), hlevel]
      simp
    rw [hlast, List.filter_append, List.filter_eq_self.2 hus, List.dropLast_concat]
    simp [hu]

/-- **After an unmatched opener** as many blocks are left open as there are unmatched openers after
it. By induction on the lines from their end: an opener leaves one more block open after all that
were unmatched, and an end one less. -/
theorem leveled (lines : List String) : Leveled lines := by
  induction lines using List.reverseRecOn with
  | nil =>
    intro us u vs h
    simp [unmatched] at h
  | append_singleton lines line ih =>
    have hmore : ∀ us u vs, unmatched lines = us ++ u :: vs →
        nestAfter ((lines ++ [line]).drop (u + 1)) 0 = nestStep vs.length line := by
      intro us u vs hsplit
      have hu : u < lines.length := lt_length_of_mem_unmatched (by simp [hsplit])
      rw [List.drop_append_of_le_length (by omega), nestAfter_concat, ih us u vs hsplit,
        Option.bind_some]
    intro us u vs h
    cases hline : LineShape.ofLine line with
    | other =>
      rw [unmatched_concat_of_other hline] at h
      rw [hmore us u vs h]
      simp [nestStep, hline]
    | opener =>
      rw [unmatched_concat_of_opener hline] at h
      rcases List.eq_nil_or_concat' vs with rfl | ⟨ws, w, rfl⟩
      · obtain ⟨-, hu⟩ := List.append_inj' h rfl
        obtain rfl : lines.length = u := by simpa using hu
        simp [nestAfter]
      · have hsplit : unmatched lines ++ [lines.length] = (us ++ u :: ws) ++ [w] := by
          rw [h]
          simp
        obtain ⟨hsplit, -⟩ := List.append_inj' hsplit rfl
        rw [hmore us u ws hsplit]
        simp [nestStep, hline]
    | closer =>
      rw [ih.unmatched_concat_of_closer hline] at h
      have hne : unmatched lines ≠ [] := by
        intro hnil
        simp [hnil] at h
      have hsplit : unmatched lines = us ++ u :: (vs ++ [(unmatched lines).getLast hne]) := by
        conv_lhs => rw [← List.dropLast_concat_getLast hne, h]
        simp
      rw [hmore us u _ hsplit]
      simp [nestStep, hline]

/-- An end takes away the last opener that is not ended. -/
theorem unmatched_concat_of_closer {lines : List String} {line : String}
    (hline : LineShape.ofLine line = .closer) :
    unmatched (lines ++ [line]) = (unmatched lines).dropLast :=
  (leveled lines).unmatched_concat_of_closer hline

/-! ## One line further -/

section Take

variable {lines : List String} {i : Nat} {line : String} (hline : lines[i]? = some line)

include hline

/-- The first lines up to a line, and that line. -/
theorem take_succ_of_getElem? : lines.take (i + 1) = lines.take i ++ [line] := by
  rw [List.take_add_one, hline]
  rfl

/-- The depth after a further line, if the blocks before it are nested properly. -/
theorem nestAfter_take_succ {d : Nat} (h : nestAfter (lines.take i) 0 = some d) :
    nestAfter (lines.take (i + 1)) 0 = nestStep d line := by
  rw [take_succ_of_getElem? hline, nestAfter_concat, h]
  rfl

/-- Going on over a line that neither opens nor ends a block. -/
theorem unmatched_take_succ_of_other (h : LineShape.ofLine line = .other) :
    unmatched (lines.take (i + 1)) = unmatched (lines.take i) := by
  rw [take_succ_of_getElem? hline, unmatched_concat_of_other h]

/-- Going on over an opener. -/
theorem unmatched_take_succ_of_opener (h : LineShape.ofLine line = .opener) :
    unmatched (lines.take (i + 1)) = unmatched (lines.take i) ++ [i] := by
  have hi : i < lines.length := (List.getElem?_eq_some_iff.1 hline).1
  rw [take_succ_of_getElem? hline, unmatched_concat_of_opener h,
    List.length_take_of_le (Nat.le_of_lt hi)]

/-- Going on over an end. -/
theorem unmatched_take_succ_of_closer (h : LineShape.ofLine line = .closer) :
    unmatched (lines.take (i + 1)) = (unmatched (lines.take i)).dropLast := by
  rw [take_succ_of_getElem? hline, unmatched_concat_of_closer h]

end Take

/-- **There are as many unmatched openers as blocks are nested.** -/
theorem length_unmatched {lines : List String} {d : Nat} (h : nestAfter lines 0 = some d) :
    (unmatched lines).length = d := by
  induction lines using List.reverseRecOn generalizing d with
  | nil =>
    cases h
    rfl
  | append_singleton lines line ih =>
    rw [nestAfter_concat] at h
    obtain ⟨m, hm, hstep⟩ := Option.bind_eq_some_iff.1 h
    have hlength := ih hm
    cases hline : LineShape.ofLine line with
    | other =>
      simp only [nestStep, hline, Option.some.injEq] at hstep
      rw [unmatched_concat_of_other hline]
      omega
    | opener =>
      simp only [nestStep, hline, Option.some.injEq] at hstep
      rw [unmatched_concat_of_opener hline, List.length_append, List.length_singleton]
      omega
    | closer =>
      cases m with
      | zero => simp [nestStep, hline] at hstep
      | succ m =>
        simp only [nestStep, hline, Option.some.injEq] at hstep
        rw [unmatched_concat_of_closer hline, List.length_dropLast]
        omega

/-- **An end belongs to the last unmatched opener** of the lines before it. -/
theorem isBlock_of_unmatched {lines : List String} {i j : Nat} {us : List Nat}
    (hi : unmatched (lines.take j) = us ++ [i])
    (hj : lines[j]?.map LineShape.ofLine = some .closer) : IsBlock lines i j := by
  have hmem : i ∈ unmatched (lines.take j) := by simp [hi]
  have hlt : i < j := by
    have hlength := lt_length_of_mem_unmatched hmem
    rw [List.length_take] at hlength
    omega
  refine ⟨hlt, ?_, hj, ?_⟩
  · have hopener := opener_of_mem_unmatched hmem
    rwa [List.getElem?_take_of_lt hlt] at hopener
  · exact leveled (lines.take j) us i [] hi

end LineScript
