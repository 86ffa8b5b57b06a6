import LineScript.Proofs.Block.Run
import LineScript.Proofs.Lines

set_option relaxedAutoImplicit false
set_option autoImplicit false

/-!
# Bodies of functions, gathered and run

While the body of a function is gathered, blocks are counted by the first words of the lines. When
the function is called, the same lines are read as statements and run. The two agree on which lines
open and end blocks, so at every line of the body as many blocks are open in its run as there were
counted inside the function.

## Main definitions

* `LineScript.BlockStack.gathered` — the stack after some lines of a function.

## Main results

* `LineScript.BlockStack.gathered_of_nestAfter` — what is counted is the nesting of the lines.
* `LineScript.Activation.nestAfter_of_mem_visited_body` — the run of a body has as many blocks open
  as its lines leave open.
* `LineScript.LineShape.gathered_as_run` — the shapes of lines are those of their statements, and
  bodies are nested alike when they are gathered and when they are run.
-/

namespace LineScript

/-! ## Gathered lines -/

namespace BlockStack

/-- The stack after some lines were taken in. -/
def gathered (b : BlockStack) (lines : List String) : BlockStack :=
  lines.foldl (fun b line => (b.captureLine line).2) b

/-- A line that does not end the function moves the depth as it moves the nesting. -/
theorem captureLine_of_nestStep {b : BlockStack} {line : String} {target n m : Nat}
    (hcapturing : b.capturing = some target) (hdepth : b.depth = target + n)
    (h : nestStep n line = some m) :
    (b.captureLine line).2.capturing = some target ∧ (b.captureLine line).2.depth = target + m := by
  cases hline : LineShape.ofLine line with
  | other =>
    simp only [nestStep, hline, Option.some.injEq] at h
    simp only [captureLine, hcapturing, hline, keepLine]
    exact ⟨trivial, by omega⟩
  | opener =>
    simp only [nestStep, hline, Option.some.injEq] at h
    simp only [captureLine, hcapturing, hline, keepLine]
    exact ⟨trivial, by omega⟩
  | closer =>
    cases n with
    | zero => simp [nestStep, hline] at h
    | succ n =>
      simp only [nestStep, hline, Option.some.injEq] at h
      simp only [captureLine, hcapturing, hline]
      rw [if_neg (by omega)]
      simp only [keepLine]
      exact ⟨trivial, by omega⟩

/-- **What is counted is the nesting of the lines**, as long as they stay inside the function. -/
theorem gathered_of_nestAfter {b : BlockStack} {lines : List String} {target n m : Nat}
    (hcapturing : b.capturing = some target) (hdepth : b.depth = target + n)
    (h : nestAfter lines n = some m) :
    (b.gathered lines).capturing = some target ∧ (b.gathered lines).depth = target + m := by
  induction lines generalizing b n with
  | nil =>
    cases h
    exact ⟨hcapturing, hdepth⟩
  | cons line lines ih =>
    rw [nestAfter_cons] at h
    obtain ⟨k, hline, hrest⟩ := Option.bind_eq_some_iff.1 h
    obtain ⟨hcapturing', hdepth'⟩ := captureLine_of_nestStep hcapturing hdepth hline
    exact ih hcapturing' hdepth' hrest

end BlockStack

/-! ## Lines that are run -/

namespace Activation

/-- The cursor does not pass the end of the source. -/
theorem next_le_of_mem_visited {steps : Nat} {source : Array String} {a b : Activation}
    (ha : a.blocks.Tracks (trimmed source) a.next) (hle : a.next ≤ source.size)
    (h : b ∈ visited steps source a) : b.next ≤ source.size := by
  refine (of_mem_visited (I := fun c => c.blocks.Tracks (trimmed source) c.next ∧
    c.next ≤ source.size) ?_ ⟨ha, hle⟩ h).2
  rintro run c d ⟨hc, -⟩ hrun
  obtain ⟨hd, hjump⟩ := step_tracks hc hrun
  refine ⟨hd, ?_⟩
  have hlt : c.next < source.size := by
    by_contra hlt
    rw [runFrom_step_of_none (Array.getElem?_eq_none (by omega))] at hrun
    cases (depth_of_finish hrun).2
  by_cases hnext : d.next = c.next + 1
  · omega
  · have hback := (hjump hnext).lt
    omega

/-- The lines of a body are trimmed already, and only an empty one at its end may be missing from
the source that is run. -/
theorem trimmed_body {body : List String} (h : ∀ line ∈ body, Text.IsTrimmedLine line) :
    trimmed (Text.lines (String.intercalate "\n" body)).toArray <+: body := by
  rw [trimmed, Text.lines_intercalate h]
  have hmap : ∀ ls : List String, ls <+: body → ls.map Text.trim = ls := by
    intro ls hls
    have hid : ls.map Text.trim = ls.map id := by
      refine List.map_congr_left fun line hline => ?_
      exact (h line (hls.subset hline)).trim_eq
    rw [hid, List.map_id]
  have hfront : body.dropLast <+: body := List.dropLast_prefix body
  have hwhole : body <+: body := List.prefix_refl body
  split
  · rwa [hmap _ hfront]
  · rewrite [hmap _ hwhole]
    exact hwhole

/-- **Where the run of a body stands**, the lines before are nested as deep as its stack of blocks
is. -/
theorem nestAfter_of_mem_visited_body {body : List String} {steps : Nat} {s : Session}
    {a : Activation} (h : ∀ line ∈ body, Text.IsTrimmedLine line)
    (ha : a ∈ visited steps (Text.lines (String.intercalate "\n" body)).toArray { session := s }) :
    nestAfter (body.take a.next) 0 = some a.blocks.depth := by
  have hstart := BlockStack.tracks_start
    (trimmed (Text.lines (String.intercalate "\n" body)).toArray)
  have hnested := (visited_tracks hstart ha).nested
  have hnext := next_le_of_mem_visited hstart (Nat.zero_le _) ha
  obtain ⟨rest, hrest⟩ := trimmed_body h
  have htake : body.take a.next =
      (trimmed (Text.lines (String.intercalate "\n" body)).toArray).take a.next := by
    conv_lhs => rw [← hrest]
    refine List.take_append_of_le_length ?_
    simpa [trimmed] using hnext
  rw [htake, hnested]

end Activation

/-! ## Shapes and statements -/

/-- A line of blanks neither opens nor ends a block. -/
theorem LineShape.ofLine_of_blank {line : String} (h : ∀ c ∈ line.toList, Text.isBlank c = true) :
    ofLine line = .other := by
  have hword : Text.firstWord line.toList = [] := by
    unfold Text.firstWord
    cases hline : line.toList with
    | nil => rfl
    | cons c cs =>
      rw [hline] at h
      rw [List.takeWhile_cons_of_neg (by simp [h c List.mem_cons_self])]
  rw [ofLine, hword]
  rfl

/-- **Gathering and running agree on blocks.** A line that is read as a statement opens a block
exactly if the statement is the header of one, and ends a block exactly if the statement does; blank
lines and comments do neither. So while the run of a body stands at one of its lines, as many blocks
are open as were counted, inside the function, when it was gathered up to there.

**Proof sketch.** The shape of a line is that of its statement. Along a run the depth of the stack
is the nesting of the lines before the cursor, and this nesting is also what is counted while lines
are gathered. -/
theorem LineShape.gathered_as_run :
    (∀ line st, Statement.parse line = .ok st →
      (ofLine line = .opener ↔ (∃ condition, st = .branch condition) ∨
        (∃ condition, st = .loop condition) ∨
        (∃ name start stop step, st = .count name start stop step) ∨
        (∃ name src, st = .each name src) ∨ ∃ name params, st = .function name params) ∧
      (ofLine line = .closer ↔ st = .close)) ∧
    (∀ line : String, (∀ c ∈ line.toList, Text.isBlank c = true) → ofLine line = .other) ∧
    (∀ line : String, line.toList.head? = some ';' → ofLine line = .other) ∧
    ∀ (code : String) (capture : Capture), capture.lines <:+: (Text.lines code).map Text.trim →
      ∀ (b : BlockStack) (begun : Capture) (header steps : Nat) (s : Session) (a : Activation),
        a ∈ Activation.visited steps (Text.lines capture.body).toArray { session := s } →
          ((b.beginCapture begun header).gathered (capture.lines.take a.next)).capturing =
              some (b.beginCapture begun header).depth ∧
            ((b.beginCapture begun header).gathered (capture.lines.take a.next)).depth =
              (b.beginCapture begun header).depth + a.blocks.depth := by
  refine ⟨?_, ?_, ?_, ?_⟩
  · intro line st hparse
    rw [ofLine_of_parse hparse]
    cases st <;> simp [Statement.shape]
  · intro line hline
    exact ofLine_of_blank hline
  · intro line hline
    exact ofLine_of_isIdle (by simp [Activation.isIdle, hline])
  · intro code capture hcapture b begun header steps s a ha
    have hlines : ∀ line ∈ capture.lines, Text.IsTrimmedLine line := by
      intro line hline
      exact Text.isTrimmedLine_of_mem_lines (hcapture.subset hline)
    have hnest := Activation.nestAfter_of_mem_visited_body hlines ha
    exact BlockStack.gathered_of_nestAfter rfl rfl hnest

/-- A function whose body has the word `end` in other places than at the end of its block. -/
def wordySource : String :=
  "\n".intercalate ["function f", "  if true", "    ; end", "    echo 'end'", "  end", "end"]

/-- The body of that function. -/
def wordyBody : Capture :=
  { name := "f", lines := ["if true", "; end", "echo 'end'", "end"] }

/-- One block is open before the last line of the body, both where it is gathered, one level inside
the source, and where it is run. -/
theorem LineShape.gathered_as_run_wordyBody :
    Statement.parse "foreach $c in ['end']" = .ok (.each "c" "['end']") ∧
      ofLine "foreach $c in ['end']" = .opener ∧
      wordyBody.lines <:+: (Text.lines wordySource).map Text.trim ∧
      ∃ a ∈ Activation.visited 4 (Text.lines wordyBody.body).toArray { session := {} },
        a.next = 3 ∧ a.blocks.depth = 1 ∧
          ((BlockStack.start.beginCapture wordyBody 0).gathered
              ["if true", "; end", "echo 'end'"]).depth =
            (BlockStack.start.beginCapture wordyBody 0).depth + 1 := by
  have hparse : Statement.parse "foreach $c in ['end']" = .ok (.each "c" "['end']") := by
    decide +kernel
  have hbody : wordyBody.lines <:+: (Text.lines wordySource).map Text.trim :=
    ⟨["function f"], ["end"], by decide +kernel⟩
  have hobserved : (Activation.visited 4 (Text.lines wordyBody.body).toArray
      { session := {} })[3]?.map (fun a => (a.next, a.blocks.depth)) = some (3, 1) := by
    decide +kernel
  obtain ⟨hshapes, -, -, hagree⟩ := gathered_as_run
  refine ⟨hparse, (hshapes _ _ hparse).1.2 (by simp), hbody, ?_⟩
  obtain ⟨a, ha, hobserved⟩ := Option.map_eq_some_iff.1 hobserved
  obtain ⟨hnext, hdepth⟩ := Prod.mk.inj hobserved
  have hmem := List.mem_of_getElem? ha
  have hgathered := (hagree wordySource wordyBody hbody BlockStack.start wordyBody 0 4 {} a hmem).2
  rw [hnext, hdepth] at hgathered
  exact ⟨a, hmem, hnext, hdepth, hgathered⟩

end LineScript
