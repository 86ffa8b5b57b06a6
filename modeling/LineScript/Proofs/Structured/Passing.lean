import LineScript.Proofs.Session.Basic
import LineScript.Proofs.Structured.Blocks
import LineScript.Proofs.Structured.Semantics

set_option relaxedAutoImplicit false
set_option autoImplicit false

/-!
# Lines that are passed

Where a block is inactive, its lines are still read one by one, and headers and ends still move the
stack of blocks; but the session stays as it is, apart from the line it is at. The same is true
while a function is gathered. A structured program in such a place is passed as a whole, and leaves
the stack as it found it.

## Main definitions

* `LineScript.Activation.delay` — a run after some steps that do nothing else.
* `LineScript.Activation.Passes` — a run comes from one point to another without doing anything
  else.

## Main results

* `LineScript.Program.skip`, `LineScript.Branches.skip` — programs in an inactive block, and
  branches of which none is to be taken any more.
* `LineScript.Activation.gather` — lines that are gathered into the body of a function.
-/

namespace LineScript

namespace Activation

/-! ## Steps -/

/-- One step at a line: it is gathered, left out or run. -/
theorem runFrom_step {source : Array String} {i : Nat} {line : String}
    (hline : source[i]?.map Text.trim = some line) (run : SourceRunner) (s : Session)
    (b : BlockStack) :
    (step run source).runFrom ⟨s, b, i⟩ =
      (if b.isCapturing then do
          gatherLine line
          pure none
        else if isIdle line then pure none
        else runOutside run i line : Action Activation (Option Value)).runFrom
        ⟨s.atLine (i + 1), b, i + 1⟩ := by
  obtain ⟨raw, hraw, rfl⟩ := Option.map_eq_some_iff.1 hline
  unfold step
  rw [Action.runFrom_get_bind]
  simp only [hraw]
  rw [Action.runFrom_set_bind]
  rfl

/-- Entering a block changes the open blocks alone. -/
@[simp]
theorem runFrom_enter (kind : BlockKind) (header : Nat) (a : Activation) :
    (enter kind header).runFrom a =
      .ok (.ok (a.blocks.enter kind header).1,
        { a with blocks := (a.blocks.enter kind header).2 }) :=
  rfl

/-- Changing the current frame changes the open blocks alone. -/
@[simp]
theorem runFrom_modifyFrame (f : Frame → Frame) (a : Activation) :
    (modifyFrame f).runFrom a = .ok (.ok (), { a with blocks := a.blocks.modifyCurrent f }) :=
  rfl

/-- Beginning to gather a function changes the open blocks alone. -/
@[simp]
theorem runFrom_beginCapture (capture : Capture) (header : Nat) (a : Activation) :
    (beginCapture capture header).runFrom a =
      .ok (.ok (), { a with blocks := a.blocks.beginCapture capture header }) :=
  rfl

/-- A run that first uses up `k` steps. -/
def delay (k : Nat) (run : Nat → Except Stop (Except ScriptError Value × Session)) (n : Nat) :
    Except Stop (Except ScriptError Value × Session) :=
  if n < k then .error .outOfSteps else run (n - k)

/-- A delayed run has an answer if the run has it with `k` steps less. -/
theorem delay_eq_ok {k n : Nat} {run : Nat → Except Stop (Except ScriptError Value × Session)}
    {r : Except ScriptError Value × Session} :
    delay k run n = .ok r ↔ ∃ m, m + k = n ∧ run m = .ok r := by
  unfold delay
  split
  · constructor
    · intro h
      cases h
    · rintro ⟨m, rfl, -⟩
      omega
  · constructor
    · intro h
      exact ⟨n - k, by omega, h⟩
    · rintro ⟨m, rfl, h⟩
      rwa [Nat.add_sub_cancel]

/-- From `a`, a run comes to `b` in `k` steps, and does nothing else. -/
def Passes (source : Array String) (k : Nat) (a b : Activation) : Prop :=
  ∀ n, run n source a = delay k (fun n => run n source b) n

namespace Passes

variable {source : Array String} {j k : Nat} {a b c : Activation}

/-- What it takes for a run that passes lines to have an answer. -/
theorem run_eq_ok (h : Passes source k a b) {n : Nat} {r : Except ScriptError Value × Session} :
    run n source a = .ok r ↔ ∃ m, m + k = n ∧ run m source b = .ok r := by
  rw [h n, delay_eq_ok]

/-- Nothing is passed in no steps. -/
theorem refl (source : Array String) (a : Activation) : Passes source 0 a a := by
  intro n
  rfl

/-- Passing lines and then further ones. -/
theorem trans (hab : Passes source j a b) (hbc : Passes source k b c) :
    Passes source (j + k) a c := by
  intro n
  rw [hab n]
  unfold delay
  by_cases hj : n < j
  · rw [if_pos hj, if_pos (by omega)]
  · rw [if_neg hj]
    simp only [hbc (n - j), delay]
    by_cases hk : n - j < k
    · rw [if_pos hk, if_pos (by omega)]
    · rw [if_neg hk, if_neg (by omega), Nat.sub_sub]

/-- One step without a result. -/
theorem of_step (h : ∀ run, (step run source).runFrom a = .ok (.ok none, b)) :
    Passes source 1 a b := by
  intro n
  cases n with
  | zero => rfl
  | succ n =>
    rw [run, h]
    rfl

end Passes

section Lines

variable {source : Array String} {i : Nat} {s : Session} {b b' : BlockStack}

/-- A line without a statement is passed. -/
theorem passes_idle (line : IdleLine) (hline : source[i]?.map Text.trim = some line.text)
    (hb : b.capturing = none) :
    Passes source 1 ⟨s, b, i⟩ ⟨s.atLine (i + 1), b, i + 1⟩ := by
  refine .of_step fun run => ?_
  rw [runFrom_step hline, if_neg (by simp [BlockStack.isCapturing, hb]), if_pos line.isIdle]
  rfl

/-- A step at a line with a statement runs this. -/
theorem runFrom_step_of_statement {st : Statement} (line : LineOf st)
    (hline : source[i]?.map Text.trim = some line.text) (hb : b.capturing = none)
    (run : SourceRunner) :
    (step run source).runFrom ⟨s, b, i⟩ =
      match (runStatement run i st).runFrom ⟨s.atLine (i + 1), b, i + 1⟩ with
      | .error reason => .error reason
      | .ok (.ok .next, a) => .ok (.ok none, a)
      | .ok (.ok (.jump header), a) => .ok (.ok none, { a with next := header })
      | .ok (.ok (.finish v), a) => .ok (.ok (some v), a)
      | .ok (.error e, a) =>
        (do
          onSession (Session.recover e)
          pure none : Action Activation (Option Value)).runFrom a := by
  have hparse : runLine run i line.text = runStatement run i st := by
    unfold runLine
    rw [line.reads]
    rfl
  rw [runFrom_step hline, if_neg (by simp [BlockStack.isCapturing, hb]),
    if_neg (by simp [isIdle_of_parse line.reads]), runOutside, Action.runFrom_bind,
    Action.runFrom_attempt, hparse]
  rcases (runStatement run i st).runFrom ⟨s.atLine (i + 1), b, i + 1⟩ with reason | ⟨e | flow, a⟩
  · rfl
  · rfl
  · cases flow <;> rfl

/-- A statement that leaves the session alone is passed. -/
theorem passes_statement {st : Statement} (line : LineOf st)
    (hline : source[i]?.map Text.trim = some line.text) (hb : b.capturing = none)
    (h : ∀ run, (runStatement run i st).runFrom ⟨s.atLine (i + 1), b, i + 1⟩ =
      .ok (.ok .next, ⟨s.atLine (i + 1), b', i + 1⟩)) :
    Passes source 1 ⟨s, b, i⟩ ⟨s.atLine (i + 1), b', i + 1⟩ := by
  refine .of_step fun run => ?_
  rw [runFrom_step_of_statement line hline hb, h]

/-- The end of a loop that comes round leads back to its header. -/
theorem runFrom_step_close_of_loop (line : LineOf .close)
    (hline : source[i]?.map Text.trim = some line.text) (hb : b.Settled) {f : Frame}
    (hloop : f.kind.isLoop = true) (hactive : f.active = true) (run : SourceRunner) :
    (step run source).runFrom ⟨s, b.push f, i⟩ =
      .ok (.ok none, ⟨s.atLine (i + 1), b.returning f, f.header⟩) := by
  rw [runFrom_step_of_statement line hline (hb.push f).capturing]
  simp only [runStatement, close, Action.runFrom_get, hb.close_push_of_loop hloop hactive,
    Action.runFrom_bind, Action.runFrom_ofExcept, Action.runFrom_set, Action.runFrom_pure]

/-- The end of a loop that is running goes back to its header. -/
theorem passes_close_of_loop (line : LineOf .close)
    (hline : source[i]?.map Text.trim = some line.text) (hb : b.Settled) {f : Frame}
    (hloop : f.kind.isLoop = true) (hactive : f.active = true) :
    Passes source 1 ⟨s, b.push f, i⟩ ⟨s.atLine (i + 1), b.returning f, f.header⟩ :=
  .of_step (runFrom_step_close_of_loop line hline hb hloop hactive)

/-- The end of any other block leaves it. -/
theorem passes_close (line : LineOf .close) (hline : source[i]?.map Text.trim = some line.text)
    (hb : b.Settled) {f : Frame} (hf : (f.kind.isLoop && f.active) = false) :
    Passes source 1 ⟨s, b.push f, i⟩ ⟨s.atLine (i + 1), b, i + 1⟩ := by
  refine passes_statement line hline (hb.push f).capturing fun run => ?_
  simp only [runStatement, close, Action.runFrom_get, hb.close_push hf, Action.runFrom_bind,
    Action.runFrom_ofExcept, Action.runFrom_set, Action.runFrom_pure]

/-! ## Inactive blocks -/

/-- A simple statement in an inactive block. -/
theorem passes_simple {st : Statement} (line : LineOf st) (hst : st.isSimple = true)
    (hline : source[i]?.map Text.trim = some line.text) (hb : b.capturing = none)
    (hactive : b.active = false) :
    Passes source 1 ⟨s, b, i⟩ ⟨s.atLine (i + 1), b, i + 1⟩ := by
  refine passes_statement line hline hb fun run => ?_
  have hrun : runStatement run i st = (do
      let a ← get
      if a.blocks.active then onSession (Session.runSimple run st) else pure .next) := by
    cases st <;> first | rfl | cases hst
  rw [hrun, Action.runFrom_get_bind]
  simp only [hactive, Bool.false_eq_true, if_false, Action.runFrom_pure]

/-- The header of a branch in an inactive block. -/
theorem passes_branch {condition : String} (line : LineOf (.branch condition))
    (hline : source[i]?.map Text.trim = some line.text) (hb : b.Settled)
    (hactive : b.active = false) :
    Passes source 1 ⟨s, b, i⟩
      ⟨s.atLine (i + 1), b.push { kind := .branch, header := i }, i + 1⟩ := by
  refine passes_statement line hline hb.capturing fun run => ?_
  simp only [runStatement, openBranch, Action.runFrom_bind, runFrom_enter, hb.enter, hactive,
      Bool.false_eq_true, if_false, Action.runFrom_pure]

/-- The header of a loop in an inactive block. -/
theorem passes_loop {header : LoopHeader} (line : LineOf header.statement)
    (hline : source[i]?.map Text.trim = some line.text) (hb : b.Settled)
    (hactive : b.active = false) :
    ∃ f : Frame, f.active = false ∧
      Passes source 1 ⟨s, b, i⟩ ⟨s.atLine (i + 1), b.push f, i + 1⟩ := by
  cases header with
  | condition src =>
    refine ⟨{ kind := .loop, header := i }, rfl, ?_⟩
    refine passes_statement line hline hb.capturing fun run => ?_
    simp only [LoopHeader.statement, runStatement, openLoop, Action.runFrom_bind, runFrom_enter,
      hb.enter, hactive, Bool.false_eq_true, if_false, Action.runFrom_pure]
  | count name start stop step =>
    refine ⟨{ kind := .count none, header := i }, rfl, ?_⟩
    refine passes_statement line hline hb.capturing fun run => ?_
    simp only [LoopHeader.statement, runStatement, openCount, Action.runFrom_bind, runFrom_enter,
      hb.enter, hactive, Bool.false_eq_true, if_false, Action.runFrom_pure]
  | each name src =>
    refine ⟨{ kind := .each, header := i }, rfl, ?_⟩
    refine passes_statement line hline hb.capturing fun run => ?_
    simp only [LoopHeader.statement, runStatement, openEach, Action.runFrom_bind, runFrom_enter,
      hb.enter, hactive, Bool.false_eq_true, if_false, Action.runFrom_pure]

/-- The header of a function in an inactive block: its body is gathered, but not to be registered.
-/
theorem passes_function {name : String} {params : Option String}
    (line : LineOf (.function name params)) (hline : source[i]?.map Text.trim = some line.text)
    (hb : b.Settled) (hactive : b.active = false) :
    ∃ capture : Capture, capture.register = false ∧
      Passes source 1 ⟨s, b, i⟩ ⟨s.atLine (i + 1), b.gathering i capture 0, i + 1⟩ := by
  refine ⟨{ name := qualify s.scope name }, rfl, ?_⟩
  refine passes_statement line hline hb.capturing fun run => ?_
  simp only [runStatement, openFunction, Action.runFrom_bind, Action.runFrom_get, hactive,
    Bool.false_eq_true, if_false, runFrom_beginCapture, hb.beginCapture, Action.runFrom_pure]
  rfl

/-- An `elseif` or `else` that is not to be taken any more. -/
theorem passes_otherwiseIf {condition : String} (line : LineOf (.otherwiseIf condition))
    (hline : source[i]?.map Text.trim = some line.text) (hb : b.Settled) {f : Frame}
    (hf : f.kind = .branch) (hpassed : (b.active && !f.branchTaken) = false) :
    Passes source 1 ⟨s, b.push f, i⟩
      ⟨s.atLine (i + 1), b.push { f with active := false }, i + 1⟩ := by
  refine passes_statement line hline (hb.push f).capturing fun run => ?_
  simp only [runStatement, continueBranch, Action.runFrom_bind, Action.runFrom_get,
    hb.branchFrame_push hf, Action.runFrom_ofExcept, hpassed, Bool.false_eq_true, if_false,
    runFrom_modifyFrame, hb.modifyCurrent_push, Action.runFrom_pure]

/-- The last branch of a block is active if no other one was taken. -/
theorem passes_otherwise (line : LineOf .otherwise)
    (hline : source[i]?.map Text.trim = some line.text) (hb : b.Settled) {f : Frame}
    (hf : f.kind = .branch) :
    Passes source 1 ⟨s, b.push f, i⟩
      ⟨s.atLine (i + 1),
        b.push { f with active := b.active && !f.branchTaken, branchTaken := true }, i + 1⟩ := by
  refine passes_statement line hline (hb.push f).capturing fun run => ?_
  simp only [runStatement, lastBranch, Action.runFrom_bind, Action.runFrom_get,
    hb.branchFrame_push hf, Action.runFrom_ofExcept, runFrom_modifyFrame, hb.modifyCurrent_push,
    Action.runFrom_pure]

/-! ## Bodies of functions -/

/-- A line inside a function moves the nesting and becomes a part of the body. -/
theorem captureLine_of_nestStep (hb : b.Settled) {line : String} {nested nested' : Nat}
    (h : nestStep nested line = some nested') (header : Nat) (capture : Capture) :
    (b.gathering header capture nested).captureLine line =
      (none, b.gathering header { capture with lines := capture.lines ++ [line] } nested') := by
  cases hline : LineShape.ofLine line with
  | opener =>
    simp only [nestStep, hline, Option.some.injEq] at h
    rw [← h]
    exact hb.captureLine_gathering_of_opener hline header capture nested
  | closer =>
    cases nested with
    | zero => simp [nestStep, hline] at h
    | succ nested =>
      simp only [nestStep, hline, Option.some.injEq] at h
      rw [← h]
      exact hb.captureLine_gathering_of_closer hline header capture nested
  | other =>
    simp only [nestStep, hline, Option.some.injEq] at h
    rw [← h]
    exact hb.captureLine_gathering_of_other hline header capture nested

/-- **Lines inside a function** are gathered one by one, as long as they do not end it.

**Proof sketch.** Induction on the lines. Each of them keeps the depth that `nestStep` gives it, so
it is added to the definition in one step, and the lines after it follow. -/
theorem gather (hb : b.Settled) (header : Nat) {lines : List String} {nested nested' : Nat}
    (hnest : nestAfter lines nested = some nested') (h : Stands source i lines)
    (capture : Capture) :
    ∃ l, Passes source lines.length ⟨s, b.gathering header capture nested, i⟩
      ⟨s.atLine l, b.gathering header { capture with lines := capture.lines ++ lines } nested',
        i + lines.length⟩ := by
  induction lines generalizing i s nested capture with
  | nil =>
    cases hnest
    refine ⟨s.line, ?_⟩
    rw [List.append_nil]
    exact Passes.refl source _
  | cons line lines ih =>
    obtain ⟨middle, hline, hnest⟩ := Option.bind_eq_some_iff.1 hnest
    have hpass : Passes source 1 ⟨s, b.gathering header capture nested, i⟩
        ⟨s.atLine (i + 1),
          b.gathering header { capture with lines := capture.lines ++ [line] } middle, i + 1⟩ := by
      refine .of_step fun run => ?_
      rw [runFrom_step h.head, if_pos (BlockStack.isCapturing_gathering b header capture nested)]
      simp only [gatherLine, Action.runFrom_bind, Action.runFrom_get,
        captureLine_of_nestStep hb hline, Action.runFrom_set, Action.runFrom_pure]
    obtain ⟨l, hrest⟩ := ih hnest h.tail { capture with lines := capture.lines ++ [line] }
    refine ⟨l, ?_⟩
    have hall := hpass.trans hrest
    rw [List.append_assoc] at hall
    rw [List.length_cons, Nat.add_comm lines.length, ← Nat.add_assoc]
    exact hall

/-- The end of a function that is not to be registered. -/
theorem passes_gathered (line : LineOf .close) (hline : source[i]?.map Text.trim = some line.text)
    (hb : b.Settled) (header : Nat) (capture : Capture) (hcapture : capture.register = false) :
    Passes source 1 ⟨s, b.gathering header capture 0, i⟩ ⟨s.atLine (i + 1), b, i + 1⟩ := by
  refine .of_step fun run => ?_
  rw [runFrom_step hline, if_pos (BlockStack.isCapturing_gathering b header capture 0)]
  simp only [gatherLine, Action.runFrom_bind, Action.runFrom_get,
    hb.captureLine_gathering_last line.ofLine_text, Action.runFrom_set, Action.runFrom_attempt,
    onSession, Action.runFrom_zoom, Session.defineCaptured, hcapture, Bool.false_eq_true, if_false,
    Action.runFrom_pure]

end Lines

end Activation

/-! ## Whole programs -/

open Activation (Passes)

section

variable {source : Array String}

mutual

/-- **A program in an inactive block is passed.**

**Proof sketch.** By recursion on the program, one pass for each of its parts. A header in an
inactive block opens an inactive block, so that its body is skipped as well; a definition gathers
its body, and nothing is defined at its end. -/
theorem Program.skip : (p : Program) → ∀ {b : BlockStack}, b.Settled → b.active = false →
    ∀ {i j : Nat}, Stands source i p.lines → j = i + p.size → ∀ s : Session,
    ∃ l, Passes source p.size ⟨s, b, i⟩ ⟨s.atLine l, b, j⟩
  | .done, b, _, _, i, j, _, hj, s => ⟨s.line, by subst hj; exact Passes.refl source _⟩
  | .idle line next, b, hb, hactive, i, j, h, hj, s => by
    rw [Program.size_idle] at hj ⊢
    have hline := Activation.passes_idle (s := s) line h.head hb.capturing
    obtain ⟨l, hnext⟩ := next.skip hb hactive h.tail (show j = i + 1 + next.size by omega)
      (s.atLine (i + 1))
    exact ⟨l, hline.trans hnext⟩
  | .simple st line isSimple next, b, hb, hactive, i, j, h, hj, s => by
    rw [Program.size_simple] at hj ⊢
    have hline := Activation.passes_simple (s := s) line isSimple h.head hb.capturing hactive
    obtain ⟨l, hnext⟩ := next.skip hb hactive h.tail (show j = i + 1 + next.size by omega)
      (s.atLine (i + 1))
    exact ⟨l, hline.trans hnext⟩
  | .choice condition line body rest next, b, hb, hactive, i, j, h, hj, s => by
    rw [Program.size_choice] at hj ⊢
    have hline := Activation.passes_branch (s := s) line h.head hb hactive
    obtain ⟨l, hbody⟩ := body.skip (hb.push { kind := .branch, header := i }) (hb.active_push _)
      h.tail.left rfl (s.atLine (i + 1))
    have hrest := rest.skip hb (f := { kind := .branch, header := i }) rfl (by simp [hactive])
      h.tail.right.left rfl (s.atLine l)
    obtain ⟨l', hnext⟩ := next.skip hb hactive h.tail.right.right
      (show j = i + 1 + body.size + rest.size + next.size by omega)
      (s.atLine (i + 1 + body.size + rest.size))
    exact ⟨l', ((hline.trans hbody).trans hrest).trans hnext⟩
  | .loop header line body close next, b, hb, hactive, i, j, h, hj, s => by
    rw [Program.size_loop] at hj ⊢
    obtain ⟨f, hf, hline⟩ := Activation.passes_loop (s := s) line h.head hb hactive
    obtain ⟨l, hbody⟩ := body.skip (hb.push f) ((hb.active_push f).trans hf) h.tail.left rfl
      (s.atLine (i + 1))
    have hclose := Activation.passes_close (s := s.atLine l) (f := f) close h.tail.right.head hb
      (by simp [hf])
    obtain ⟨l', hnext⟩ := next.skip hb hactive h.tail.right.tail
      (show j = i + 1 + body.size + 1 + next.size by omega) (s.atLine (i + 1 + body.size + 1))
    exact ⟨l', ((hline.trans hbody).trans hclose).trans hnext⟩
  | .function name params line body close next, b, hb, hactive, i, j, h, hj, s => by
    rw [Program.size_function] at hj ⊢
    obtain ⟨capture, hcapture, hline⟩ := Activation.passes_function (s := s) line h.head hb hactive
    -- the body is no block here: its lines are gathered, and nothing is defined at the end
    obtain ⟨l, hbody⟩ := Activation.gather (s := s.atLine (i + 1)) hb i (body.nestAfter_lines 0)
      h.tail.left capture
    have hclose := Activation.passes_gathered (s := s.atLine l) close h.tail.right.head hb i
      { capture with lines := capture.lines ++ body.lines } hcapture
    obtain ⟨l', hnext⟩ := next.skip hb hactive h.tail.right.tail
      (show j = i + 1 + body.size + 1 + next.size by omega) (s.atLine (i + 1 + body.size + 1))
    exact ⟨l', ((hline.trans hbody).trans hclose).trans hnext⟩

/-- **Branches of which none is to be taken any more are passed**, with the end of their block. -/
theorem Branches.skip : (r : Branches) → ∀ {b : BlockStack}, b.Settled → ∀ {f : Frame},
    f.kind = .branch → (b.active && !f.branchTaken) = false →
    ∀ {i j : Nat}, Stands source i r.lines → j = i + r.size → ∀ s : Session,
    Passes source r.size ⟨s, b.push f, i⟩ ⟨s.atLine j, b, j⟩
  | .close line, b, hb, f, hf, _, i, j, h, hj, s => by
    subst hj
    exact Activation.passes_close line h.head hb (by simp [hf, BlockKind.isLoop])
  | .otherwiseIf condition line body rest, b, hb, f, hf, hpassed, i, j, h, hj, s => by
    rw [Branches.size_otherwiseIf] at hj ⊢
    have hline := Activation.passes_otherwiseIf (s := s) line h.head hb hf hpassed
    obtain ⟨l, hbody⟩ := body.skip (hb.push { f with active := false }) (hb.active_push _)
      h.tail.left rfl (s.atLine (i + 1))
    have hrest := rest.skip hb (f := { f with active := false }) hf hpassed h.tail.right
      (show j = i + 1 + body.size + rest.size by omega) (s.atLine l)
    exact (hline.trans hbody).trans hrest
  | .otherwise line body close, b, hb, f, hf, hpassed, i, j, h, hj, s => by
    rw [Branches.size_otherwise] at hj ⊢
    have hline := Activation.passes_otherwise (s := s) line h.head hb hf
    rw [hpassed] at hline
    obtain ⟨l, hbody⟩ := body.skip (hb.push { f with active := false, branchTaken := true })
      (hb.active_push _) h.tail.left rfl (s.atLine (i + 1))
    have hclose := Activation.passes_close (s := s.atLine l)
      (f := { f with active := false, branchTaken := true }) close h.tail.right.head hb
      (by simp [hf, BlockKind.isLoop])
    obtain rfl : j = i + 1 + body.size + 1 := by omega
    exact (hline.trans hbody).trans hclose

end

end

end LineScript
