import LineScript.Proofs.Session.Basic
import LineScript.Proofs.Structured.Performing

set_option relaxedAutoImplicit false
set_option autoImplicit false

/-!
# What statements and headers do

In an active block every statement does what the semantics of its node says, and opens, changes or
keeps blocks accordingly. Conditions leave their value in the frame of the branch, loops their
progress in the frame of the loop.

## Main definitions

* `LineScript.Frame.branch`, `LineScript.LoopHeader.frame` — the frame of a branch whose condition
  has been evaluated, and that of a loop that is in a pass.

## Main results

* `LineScript.does_simple`, `LineScript.does_branch`, `LineScript.does_otherwiseIf`,
  `LineScript.does_first`, `LineScript.does_again`, `LineScript.does_function` — each of the
  statements that do something.
-/

namespace LineScript

open Activation (runStatement runFrom_enter runFrom_modifyFrame runFrom_beginCapture)

/-- The frame of an `if` whose latest condition had the value `v`, where none before was true. -/
def Frame.branch (header : Nat) (v : Bool) : Frame :=
  { kind := .branch, active := v, header := header, branchTaken := v }

namespace LoopHeader

/-- The kind of the frame of a loop in a pass. -/
def kind : (header : LoopHeader) → header.Progress → BlockKind
  | .condition _, _ => .loop
  | .count .., range => .count (some range)
  | .each .., _ => .each

/-- The number of entries that a loop has come to. -/
def iteration : (header : LoopHeader) → header.Progress → Nat
  | .condition _, _ => 0
  | .count .., _ => 0
  | .each .., k => k

/-- The frame of a loop in a pass. -/
def frame (header : LoopHeader) (i : Nat) (k : header.Progress) : Frame :=
  { kind := header.kind k, active := true, header := i, iteration := header.iteration k }

/-- The frame of a loop is that of a loop, in every round. -/
theorem isLoop_frame (header : LoopHeader) (i : Nat) (k : header.Progress) :
    (header.frame i k).kind.isLoop = true := by
  cases header <;> rfl

end LoopHeader

section

variable {source : Array String} {b : BlockStack} {i : Nat} (hb : b.Settled)
  (hactive : b.active = true)

include hb hactive

/-! ## Branches -/

/-- **The header of a branching block**: its condition decides whether the first branch is active.
-/
theorem does_branch (condition : String) :
    Does source b i (.branch condition) (fun run => Session.holds run condition) false
      fun v => goingOn source (b.push (.branch i v)) (i + 1) := by
  intro run s
  simp only [Session.holds, runStatement, Activation.openBranch, Action.runFrom_bind, runFrom_enter,
    hb.enter, hactive, if_true, Activation.onSession, Action.runFrom_zoom]
  rcases (Session.evaluateWith run condition).runFrom s with reason | ⟨e | v, t⟩
  · rfl
  · exact ⟨_, rfl, rfl⟩
  · simp only [Action.runFrom_pure, runFrom_modifyFrame, hb.modifyCurrent_push]
    exact ⟨_, .next, rfl, rfl⟩

/-- **A further branch**, where none was taken: its condition decides whether it is active. -/
theorem does_otherwiseIf (header : Nat) (condition : String) :
    Does source (b.push (.branch header false)) i (.otherwiseIf condition)
      (fun run => Session.holds run condition) false
      fun v => goingOn source (b.push (.branch header v)) (i + 1) := by
  have hframe := hb.branchFrame_push (f := .branch header false) rfl .otherwiseIf
  have hopen : (b.active && !(Frame.branch header false).branchTaken) = true := by
    rw [hactive]
    rfl
  intro run s
  simp only [Session.holds, runStatement, Activation.continueBranch, Action.runFrom_bind,
    Action.runFrom_get, hframe, Action.runFrom_ofExcept, hopen, if_true, Activation.onSession,
    Action.runFrom_zoom]
  rcases (Session.evaluateWith run condition).runFrom s with reason | ⟨e | v, t⟩
  · rfl
  · exact ⟨_, rfl, rfl⟩
  · simp only [Action.runFrom_pure, runFrom_modifyFrame, hb.modifyCurrent_push]
    exact ⟨_, .next, rfl, rfl⟩

end

/-! ## Loops

The header of a loop enters its block either from above or coming round. Conditions and collections
do not tell these apart, so only the entered block matters for them. -/

section Loops

variable {source : Array String} {b : BlockStack} {i : Nat} (hb : b.Settled) {after : Course}
  (hafter : ∀ f : Frame, f.active = false → goingOn source (b.push f) (i + 1) = after)

include hb hafter

/-- A condition of a loop, in its first round as well as in later ones. -/
theorem does_condition {c : BlockStack} {revisit : Bool} (src : String)
    (henter : c.enter .loop i = (⟨revisit, true⟩, b.push { kind := .loop, header := i })) :
    Does source c i (.loop src) (fun run => (LoopHeader.condition src).first run) none
      (orElse after fun k => goingOn source (b.push ((LoopHeader.condition src).frame i k)) (i + 1))
    := by
  intro run s
  simp only [LoopHeader.first, Session.holds, runStatement, Activation.openLoop,
    Action.runFrom_bind, runFrom_enter, henter, if_true, Activation.onSession, Action.runFrom_zoom]
  rcases (Session.evaluateWith run src).runFrom s with reason | ⟨e | v, t⟩
  · rfl
  · exact ⟨_, rfl, hafter _ rfl⟩
  · simp only [Action.runFrom_pure, runFrom_modifyFrame, hb.modifyCurrent_push]
    cases v.truth with
    | false => exact ⟨_, .next, rfl, hafter _ rfl⟩
    | true => exact ⟨_, .next, rfl, rfl⟩

/-- A loop over a collection: the next value is bound, or the loop is left inactive.

**Proof sketch.** The step evaluates the collection, looks up its next entry and binds it, each of
which may fail. `Session.bindEntry` does the same three things, so that both are unfolded side by
side. -/
theorem does_each {c : BlockStack} {revisit : Bool} (name src : String) (k : Nat)
    (henter : c.enter .each i =
      (⟨revisit, true⟩, b.push { kind := .each, header := i, iteration := k })) :
    Does source c i (.each name src) (fun run => Session.bindEntry run name src k) none
      (orElse after fun k =>
        goingOn source (b.push ((LoopHeader.each name src).frame i k)) (i + 1)) := by
  intro run s
  simp only [Session.bindEntry, runStatement, Activation.openEach, Action.runFrom_bind,
    runFrom_enter, henter, if_true, Activation.onSession, Action.runFrom_zoom]
  rcases (Session.evaluateWith run src).runFrom s with reason | ⟨e | v, t⟩
  · rfl
  · exact ⟨_, rfl, hafter _ rfl⟩
  · cases v with
    | collection items =>
      simp only [Action.runFrom_bind, Action.runFrom_get, runFrom_modifyFrame,
        hb.modifyCurrent_push, hb.current?_push, Option.map_some, Option.getD_some]
      cases items.entryAt? k with
      | none => exact ⟨_, .next, rfl, hafter _ rfl⟩
      | some entry =>
        obtain ⟨key, item⟩ := entry
        simp only [Action.runFrom_bind, Action.runFrom_zoom, Session.runFrom_updateStore]
        cases t.store.bind name (Activation.entryRecord key item) .localScope with
        | error e => exact ⟨_, rfl, hafter _ rfl⟩
        | ok store =>
          simp only [Action.runFrom_pure, runFrom_modifyFrame, hb.modifyCurrent_push]
          exact ⟨_, .next, rfl, rfl⟩
    | _ => exact ⟨_, rfl, hafter _ rfl⟩

variable (hactive : b.active = true)

include hactive

/-- **A loop that is first reached.** -/
theorem does_first (header : LoopHeader) :
    Does source b i header.statement (fun run => header.first run) none
      (orElse after fun k => goingOn source (b.push (header.frame i k)) (i + 1)) := by
  have henter (kind : BlockKind) :
      b.enter kind i = (⟨false, true⟩, b.push { kind := kind, header := i }) := by
    rw [hb.enter, hactive]
  cases header with
  | condition src => exact does_condition hb hafter src (henter .loop)
  | each name src => exact does_each hb hafter name src 0 (henter .each)
  | count name start stop step =>
    intro run s
    simp only [LoopHeader.first, LoopHeader.statement, runStatement, Activation.openCount,
      Action.runFrom_bind, runFrom_enter, henter, if_true, Bool.false_eq_true, if_false,
      Activation.onSession, Action.runFrom_zoom]
    rcases (Session.openCount run name start stop step).runFrom s with reason | ⟨e | range, t⟩
    · rfl
    · exact ⟨_, rfl, hafter _ rfl⟩
    · simp only [Action.runFrom_pure, runFrom_modifyFrame, hb.modifyCurrent_push]
      exact ⟨_, .next, rfl, rfl⟩

/-- **A loop that comes round.** -/
theorem does_again (header : LoopHeader) (k : header.Progress) :
    Does source (b.returning (header.frame i k)) i header.statement (fun run => header.again run k)
      none (orElse after fun k => goingOn source (b.push (header.frame i k)) (i + 1)) := by
  have henter (kind : BlockKind) (hkind : kind.isLoop = true) :
      (b.returning (header.frame i k)).enter kind i =
        (⟨true, true⟩, b.push { header.frame i k with active := false }) := by
    rw [hb.enter_returning, hactive]
    simp only [BlockStack.comesRound, header.isLoop_frame, hkind]
    simp [LoopHeader.frame]
  cases header with
  | condition src => exact does_condition hb hafter src (henter .loop rfl)
  | each name src => exact does_each hb hafter name src k (henter .each rfl)
  | count name start stop step =>
    intro run s
    have hkind : ((LoopHeader.count name start stop step).frame i k).kind = .count (some k) := rfl
    simp only [LoopHeader.again, LoopHeader.statement, runStatement, Activation.openCount,
      Action.runFrom_bind, runFrom_enter, henter (.count none) rfl, if_true, Action.runFrom_get,
      hb.current?_push, Option.map_some, hkind, Activation.onSession, Action.runFrom_zoom]
    rcases (Session.advanceCount k).runFrom s with reason | ⟨e | more, t⟩
    · rfl
    · exact ⟨_, rfl, hafter _ rfl⟩
    · simp only [Action.runFrom_pure, runFrom_modifyFrame, hb.modifyCurrent_push]
      cases more with
      | false => exact ⟨_, .next, rfl, hafter _ rfl⟩
      | true => exact ⟨_, .next, rfl, rfl⟩

end Loops

/-! ## Simple statements and functions -/

section

variable {source : Array String} {b : BlockStack} {i : Nat}

/-- A simple statement goes on at the next line or returns. -/
theorem runSimple_gives (run : SourceRunner) (st : Statement) :
    Action.Gives (fun flow => ∀ header, flow ≠ .jump header) (Session.runSimple run st) := by
  have hnext : ∀ header, Flow.next ≠ .jump header := by simp
  cases st with
  | giveBack src => exact .of_next fun v => .pure (by simp)
  | echo src => exact .of_next fun _ => .of_next fun _ => .pure hnext
  | eval src => exact .of_next fun _ => .of_next fun _ => .of_next fun _ => .pure hnext
  | load src => exact .of_next fun _ => .of_next fun _ => .pure hnext
  | enterNamespace src =>
    cases src with
    | none => exact .of_next fun _ => .pure hnext
    | some src => exact .of_next fun _ => .of_next fun _ => .pure hnext
  | declare lifetime list => exact .of_next fun _ => .of_next fun _ => .pure hnext
  | set path mode src => exact .of_next fun _ => .pure hnext
  | call name args =>
    cases args with
    | none => exact .of_next fun _ => .pure hnext
    | some args => exact .of_next fun _ => .of_next fun _ => .pure hnext
  | _ => exact .pure hnext

/-- A simple statement goes on with the next line, or it ends the source with a value. -/
theorem does_simple {st : Statement} (hst : st.isSimple = true) (hactive : b.active = true) :
    Does source b i st (fun run => Session.perform run st) none
      (orElse (goingOn source b (i + 1)) returned) := by
  intro run s
  have hrun : runStatement run i st = (do
      let a ← get
      if a.blocks.active then Activation.onSession (Session.runSimple run st) else pure .next) := by
    cases st <;> first | rfl | cases hst
  simp only [Session.perform, hrun, Action.runFrom_bind, Action.runFrom_get, hactive, if_true,
    Activation.onSession, Action.runFrom_zoom]
  rcases hsimple : (Session.runSimple run st).runFrom s with reason | ⟨e | flow, t⟩
  · rfl
  · exact ⟨_, rfl, rfl⟩
  · cases flow with
    | next => exact ⟨_, .next, rfl, rfl⟩
    | jump header => exact absurd rfl (runSimple_gives run st s _ t hsimple header)
    | finish v => exact ⟨_, .finish v, rfl, rfl⟩

/-- The header of a function gives a definition without lines. -/
theorem prepareCapture_gives (run : SourceRunner) (name : String) (params : Option String) :
    Action.Gives (fun capture => capture.lines = []) (Session.prepareCapture run name params) := by
  refine .of_next fun s => ?_
  split
  · exact .throw _
  · refine .of_next fun items => .foldlM (fun capture item hcapture => ?_) items rfl
    unfold Session.addParameter
    split
    · exact .pure hcapture
    · exact .of_next fun v => .pure hcapture

/-- **The header of a function**: its lines are gathered in any case, but the function is registered
only if its parameters can be read. -/
theorem does_function (hb : b.Settled) (hactive : b.active = true) {after : Course}
    (hafter : ∀ c : Capture, c.register = false →
      goingOn source (b.gathering i c 0) (i + 1) = after)
    (name : String) (params : Option String) :
    Does source b i (.function name params) (fun run => Session.openFunction run name params) none
      (orElse after fun c => goingOn source (b.gathering i { c with lines := [] } 0) (i + 1)) := by
  intro run s
  simp only [Session.openFunction, runStatement, Activation.openFunction, Action.runFrom_bind,
    Action.runFrom_get, hactive, if_true, Action.runFrom_attempt, Activation.onSession,
    Action.runFrom_zoom]
  rcases hprepare : (Session.prepareCapture run (qualify s.scope name) params).runFrom s with
    reason | ⟨e | capture, t⟩
  · rfl
  · simp only [Action.runFrom_bind, runFrom_beginCapture, hb.beginCapture, Action.runFrom_throw]
    exact ⟨_, rfl, hafter _ rfl⟩
  · have hlines : { capture with lines := [] } = capture := by
      rw [← prepareCapture_gives run _ params s capture t hprepare]
    simp only [runFrom_beginCapture, hb.beginCapture, Action.runFrom_pure, orElse, hlines]
    exact ⟨_, .next, rfl, rfl⟩

/-- The end of a function that has been gathered defines it. -/
theorem stepsAs_gathered (line : LineOf .close) (hline : source[i]?.map Text.trim = some line.text)
    (hb : b.Settled) (header : Nat) (capture : Capture) :
    StepsAs source (b.gathering header capture 0) i
      (fun _ => Session.onLine (i + 1) () (Session.defineCaptured capture))
      fun _ => goingOn source b (i + 1) := by
  intro run s
  have hreach : (Session.onLine (i + 1) () (Session.defineCaptured capture)).runFrom s =
      (Session.guarded () (Session.defineCaptured capture)).runFrom (s.atLine (i + 1)) := rfl
  rw [hreach, Session.runFrom_guarded, Activation.runFrom_step hline,
    if_pos (BlockStack.isCapturing_gathering b header capture 0)]
  simp only [Activation.gatherLine, Action.runFrom_bind, Action.runFrom_get,
    hb.captureLine_gathering_last line.ofLine_text, Action.runFrom_set, Action.runFrom_attempt,
    Activation.onSession, Action.runFrom_zoom]
  rcases (Session.defineCaptured capture).runFrom (s.atLine (i + 1)) with reason | ⟨e | _, t⟩
  · rfl
  · simp only [Action.runFrom_zoom]
    rcases (Session.recover e).runFrom t with reason | ⟨e' | _, u⟩
    · rfl
    · exact ⟨_, _, rfl⟩
    · exact ⟨none, _, _, rfl, rfl⟩
  · exact ⟨none, _, _, rfl, rfl⟩

end

end LineScript
