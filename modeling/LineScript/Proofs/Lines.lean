import Mathlib.Data.List.Basic
import Mathlib.Data.List.DropRight
import LineScript.Text.Blank
import LineScript.Text.Lines

set_option relaxedAutoImplicit false
set_option autoImplicit false

/-!
# Lines, trimmed and joined

The lines of a text hold no line feeds, and trimmed lines end with no blank, so also with no
carriage return. Joined by line feeds they are read again as the same lines, up to an empty one at
the end.

## Main definitions

* `LineScript.Text.IsTrimmedLine` — the lines of sources as they are read.

## Main results

* `LineScript.Text.isTrimmedLine_of_mem_lines` — every line of a text is one, once it is trimmed.
* `LineScript.Text.lines_intercalate` — trimmed lines joined and read again.
-/

namespace LineScript.Text

/-! ## Trimming -/

/-- What is left after trimming at the end is a first part of the text. -/
theorem trimEnd_isPrefix (cs : List Char) : trimEnd cs <+: cs := by
  have hsuffix := List.dropWhile_suffix (l := cs.reverse) isBlank
  simpa [trimEnd] using List.reverse_prefix.2 hsuffix

/-- A text that is trimmed at its end has nothing more to trim there. -/
theorem trimEnd_trimEnd (cs : List Char) : trimEnd (trimEnd cs) = trimEnd cs := by
  simp only [trimEnd, List.reverse_reverse, List.dropWhile_idempotent]

/-- A text trimmed at its start does not start with a blank. -/
theorem isBlank_of_head?_trimStart {cs : List Char} {c : Char} (h : (trimStart cs).head? = some c) :
    isBlank c = false := by
  have hnot := List.head?_dropWhile_not isBlank cs
  rw [trimStart] at h
  simpa [h] using hnot

/-- Trimming at the end leaves the start as it is. -/
theorem trimStart_of_prefix {cs ds : List Char} (h : ds <+: trimStart cs) : trimStart ds = ds := by
  cases ds with
  | nil => rfl
  | cons c ds =>
    obtain ⟨rest, hrest⟩ := h
    have hhead : (trimStart cs).head? = some c := by
      rw [← hrest]
      rfl
    exact trimStart_cons_of_not_blank (isBlank_of_head?_trimStart hhead)

/-- Only blanks are trimmed away altogether. -/
theorem trimChars_eq_nil_iff {cs : List Char} : trimChars cs = [] ↔ ∀ c ∈ cs, isBlank c = true := by
  rw [trimChars, trimEnd, List.reverse_eq_nil_iff, List.dropWhile_eq_nil_iff]
  constructor
  · intro h c hc
    rw [← List.takeWhile_append_dropWhile (p := isBlank) (l := cs), List.mem_append] at hc
    rcases hc with hc | hc
    · exact List.mem_takeWhile_imp hc
    · exact h c (List.mem_reverse.2 hc)
  · intro h c hc
    exact h c ((List.dropWhile_suffix isBlank).subset (List.mem_reverse.1 hc))

/-- A text that neither starts nor ends with a blank is trimmed. -/
theorem trimChars_of_ends {cs : List Char} (hstart : ∃ c ds, cs = c :: ds ∧ isBlank c = false)
    (hend : ∃ ds d, cs = ds ++ [d] ∧ isBlank d = false) : trimChars cs = cs := by
  have htrim : trimStart cs = cs := by
    obtain ⟨c, ds, rfl, hc⟩ := hstart
    exact trimStart_cons_of_not_blank hc
  obtain ⟨ds, d, rfl, hd⟩ := hend
  rw [trimChars, htrim, trimEnd]
  simp [hd]

/-- **A trimmed text stays as it is.** -/
theorem trim_trim (s : String) : trim (trim s) = trim s := by
  unfold trim trimChars
  rw [String.toList_ofList, trimStart_of_prefix (trimEnd_isPrefix _), trimEnd_trimEnd]

/-! ## Lines -/

/-- A line as it is read from a source: without line feeds and trimmed. -/
structure IsTrimmedLine (line : String) : Prop where
  noFeed : '\n' ∉ line.toList
  trim_eq : trim line = line

/-- A character that is no line feed is gathered. -/
theorem linesFrom_cons_of_ne {c : Char} (hc : c ≠ '\n') (gathered cs : List Char) :
    linesFrom gathered (c :: cs) = linesFrom (c :: gathered) cs := by
  rw [linesFrom]
  exact hc

/-- A line feed ends the line that was gathered. -/
theorem linesFrom_feed (gathered cs : List Char) :
    linesFrom gathered ('\n' :: cs) = endLine gathered :: linesFrom [] cs :=
  rfl

/-- The characters of a finished line are those that were gathered. -/
theorem mem_of_mem_endLine {gathered : List Char} {c : Char} (h : c ∈ (endLine gathered).toList) :
    c ∈ gathered := by
  unfold endLine at h
  split at h
  · rw [String.toList_ofList, List.mem_reverse] at h
    exact List.mem_cons_of_mem _ h
  · rwa [String.toList_ofList, List.mem_reverse] at h

/-- No line feed is gathered into a line. -/
theorem noFeed_of_mem_linesFrom {line : String} {gathered cs : List Char}
    (hgathered : '\n' ∉ gathered) (h : line ∈ linesFrom gathered cs) : '\n' ∉ line.toList := by
  induction cs generalizing gathered with
  | nil =>
    rw [linesFrom] at h
    split at h
    · cases h
    · obtain rfl : line = String.ofList gathered.reverse := by simpa using h
      simpa using hgathered
  | cons c cs ih =>
    by_cases hc : c = '\n'
    · subst hc
      rw [linesFrom_feed] at h
      rcases List.mem_cons.1 h with rfl | h
      · intro hmem
        exact hgathered (mem_of_mem_endLine hmem)
      · exact ih (by simp) h
    · rw [linesFrom_cons_of_ne hc] at h
      refine ih ?_ h
      intro hmem
      rcases List.mem_cons.1 hmem with rfl | hmem
      · exact hc rfl
      · exact hgathered hmem

/-- **Every line of a text, once it is trimmed.** -/
theorem isTrimmedLine_of_mem_lines {s line : String} (h : line ∈ (lines s).map trim) :
    IsTrimmedLine line := by
  obtain ⟨raw, hraw, rfl⟩ := List.mem_map.1 h
  refine ⟨?_, trim_trim raw⟩
  intro hmem
  refine noFeed_of_mem_linesFrom (by simp) hraw ?_
  rw [trim, String.toList_ofList] at hmem
  exact (List.dropWhile_suffix isBlank).subset ((trimEnd_isPrefix _).subset hmem)

/-! ## Lines that are joined -/

/-- A trimmed line does not end with a carriage return, which would belong to the line end. -/
theorem IsTrimmedLine.endLine_reverse {line : String} (h : IsTrimmedLine line) :
    endLine line.toList.reverse = line := by
  have hreverse : line.toList.reverse = (trimStart line.toList).reverse.dropWhile isBlank := by
    conv_lhs => rw [← h.trim_eq]
    simp [trim, trimChars, trimEnd]
  have hlast : ∀ c, line.toList.reverse.head? = some c → isBlank c = false := by
    intro c hc
    rw [hreverse] at hc
    exact isBlank_of_head?_trimStart hc
  unfold endLine
  split
  next rest hrest =>
    have hblank := hlast '\r' (by rw [hrest]; rfl)
    cases hblank
  · rw [List.reverse_reverse, String.ofList_toList]

/-- A line is read up to its line feed. -/
theorem linesFrom_append_feed {cs : List Char} (hcs : '\n' ∉ cs) (gathered rest : List Char) :
    linesFrom gathered (cs ++ '\n' :: rest) =
      endLine (cs.reverse ++ gathered) :: linesFrom [] rest := by
  induction cs generalizing gathered with
  | nil => rfl
  | cons c cs ih =>
    rw [List.mem_cons, not_or] at hcs
    rw [List.cons_append, linesFrom_cons_of_ne (Ne.symm hcs.1), ih hcs.2]
    simp

/-- The last line is read up to the end of the text, unless it is empty. -/
theorem linesFrom_last {cs : List Char} (hcs : '\n' ∉ cs) (gathered : List Char) :
    linesFrom gathered cs =
      if cs.reverse ++ gathered = [] then [] else [String.ofList (gathered.reverse ++ cs)] := by
  induction cs generalizing gathered with
  | nil => simp [linesFrom]
  | cons c cs ih =>
    rw [List.mem_cons, not_or] at hcs
    rw [linesFrom_cons_of_ne (Ne.symm hcs.1), ih hcs.2]
    simp

/-- **Trimmed lines joined by line feeds are read again**, but an empty line at the end is lost. -/
theorem lines_intercalate {ls : List String} (h : ∀ l ∈ ls, IsTrimmedLine l) :
    lines (String.intercalate "\n" ls) = if ls.getLast? = some "" then ls.dropLast else ls := by
  induction ls with
  | nil => rfl
  | cons l ls ih =>
    have hl := h l List.mem_cons_self
    cases ls with
    | nil =>
      rw [String.intercalate_singleton, lines, linesFrom_last hl.noFeed]
      by_cases hempty : l = ""
      · simp [hempty]
      · simp [hempty]
    | cons l' ls =>
      have hrest := ih fun x hx => h x (List.mem_cons_of_mem _ hx)
      rw [lines] at hrest
      have htext : (String.intercalate "\n" (l :: l' :: ls)).toList =
          l.toList ++ '\n' :: (String.intercalate "\n" (l' :: ls)).toList := by
        rw [String.intercalate_cons_cons]
        simp
      rw [lines, htext, linesFrom_append_feed hl.noFeed, hrest, List.append_nil, hl.endLine_reverse,
        List.getLast?_cons_cons]
      split
      · rw [List.dropLast_cons_cons]
      · rfl

end LineScript.Text
