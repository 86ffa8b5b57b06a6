import LineScript.Proofs.Session.Basic
import LineScript.Proofs.Session.Matching
import LineScript.Proofs.Store
import LineScript.Proofs.Upholding

set_option relaxedAutoImplicit false
set_option autoImplicit false

/-!
# Conditions upheld by whole runs

A run changes its session in few ways: it writes variables, hides and restores local ones around a
call, defines functions, moves its place, and makes entries in the output and the log. Only entering
an error into the log puts an error on its way, and only the end of a source may take one off it. A
condition that all of these keep is upheld by every run, whatever calls, formulas and further
sources the run goes through.

## Main definitions

* `LineScript.Session.Kept` — a condition that the changes of a run keep.
* `LineScript.Activation.Holds` — the condition for a source being run.

## Main results

* `LineScript.Session.recover_upholds` — failures that are dealt with.
* `LineScript.Activation.step_upholds` — one step of a source.
* `LineScript.Activation.run_upholds`, `LineScript.Session.runner_upholds` — whole runs.
-/

namespace LineScript

open LineScript.Action (Upholds)

variable {I : Option Message → Session → Prop} {pending : Option Message}

namespace Session

/-- The condition `I` on an error on its way and the session it passes through is kept by everything
that a run can do to the session. -/
structure Kept (I : Option Message → Session → Prop) : Prop where
  native : ∀ {s}, I none s → ∀ {name f native}, s.functions.get? name = some f →
    f.body = .native native → ∀ args {t}, I none t → I (raisedIn? (native args)) t
  update : ∀ {s}, I none s → ∀ {store}, s.store.Updates store → I none { s with store := store }
  hide : ∀ {s}, I none s → I none { s with store := s.store.withoutLocals }
  restore : ∀ {s}, I none s → ∀ {pending t}, I pending t →
    I pending { t with store := t.store.restore s.store.locals }
  define : ∀ {s}, I none s → ∀ {f functions}, s.functions.define none f = .ok functions →
    f.body.Plain → I none { s with functions := functions }
  enter : ∀ {s}, I none s → ∀ scope, I none { s with scope := scope }
  move : ∀ {pending s}, I pending s → ∀ zone line, I pending { s with zone := zone, line := line }
  print : ∀ {s}, I none s → ∀ text, I none { s with output := s.output.push text }
  note : ∀ {s}, I none s → ∀ m : Message, m.level ≠ .error → I none (s.logged m)
  raise : ∀ {s}, I none s → ∀ m : Message, m.level = .error → I (some m) (s.logged m)
  settle : ∀ {m s}, I (some m) s → s.settings.throwErrors = false → I none s

variable (hI : Kept I) {run : SourceRunner} (hrun : ∀ code zone, Upholds I none (run code zone))

/-! ## Logging and variables -/

section

include hI

/-- What is below the level of an error is logged and no more. -/
theorem report_upholds {e : ScriptError} (he : e.recoverable = true) :
    Upholds I none (report e) := by
  intro s hs o t h
  rw [runFrom_report] at h
  cases h
  have hlevel : e.level ≠ .error := by simpa [ScriptError.recoverable] using he
  exact hI.note hs _ hlevel

/-- An error that is logged is on its way from then on; one that is on its way already is not logged
again. -/
theorem raise_upholds {α : Type} (e : ScriptError) :
    Upholds I e.raised? (raise e : Action Session α) := by
  cases e with
  | raised m => exact .throw rfl
  | _ =>
    intro s hs o t h
    cases h
    exact hI.raise hs _ rfl

/-- **A failure that is dealt with**: an error on its way is passed on, what is below the level of
an error is logged, and any other failure is put on its way. -/
theorem recover_upholds (e : ScriptError) : Upholds I e.raised? (recover e) := by
  unfold recover
  split
  · exact .throw rfl
  · cases hrecoverable : e.recoverable with
    | true =>
      rw [if_pos rfl, ScriptError.raised?_of_recoverable hrecoverable]
      exact report_upholds hI hrecoverable
    | false =>
      rw [if_neg Bool.false_ne_true]
      exact raise_upholds hI e

/-- Reading a variable: what is reported is below the level of an error, and what is passed on was
not raised. -/
theorem readVariable_upholds (path : String) : Upholds I none (readVariable path) := by
  refine .get_bind fun s hs => ?_
  cases hget : s.store.get path with
  | ok v => exact .pure _
  | error e =>
    cases hrecoverable : e.recoverable with
    | true =>
      simp only [hrecoverable, if_true]
      exact .bind (report_upholds hI hrecoverable) fun _ => .pure _
    | false =>
      simp only [hrecoverable, Bool.false_eq_true, if_false]
      exact .throw (unraised_of_eq_error (s.store.raisedIn?_get path) hget)

/-- A change of the variables of a permitted kind, which fails with nothing raised. -/
theorem updateStore_upholds {change : Store → Except ScriptError Store}
    (hchange : ∀ st, raisedIn? (change st) = none)
    (hupdates : ∀ st {st'}, change st = .ok st' → st.Updates st') :
    Upholds I none (updateStore change) := by
  refine .get_bind fun s hs => ?_
  cases hchanged : change s.store with
  | ok store => exact .set (hI.update hs (hupdates _ hchanged))
  | error e => exact .throw (unraised_of_eq_error (hchange _) hchanged)

/-- A parameter is bound, or the failure is reported below the level of an error. -/
theorem bindParameter_upholds (b : Binding) : Upholds I none (bindParameter b) := by
  intro s hs o t h
  unfold bindParameter at h
  rw [Action.runFrom_bind, Action.runFrom_attempt, runFrom_updateStore] at h
  cases hbind : s.store.bind b.param b.value .localScope with
  | ok store =>
    rw [hbind] at h
    cases h
    exact hI.update hs (.bind hbind)
  | error e =>
    rw [hbind] at h
    exact report_upholds hI (Store.recoverable_of_bind hbind) s hs o t h

/-- At the end of a source an error may be taken off its way. -/
theorem settled {s : Session} {outcome : Except ScriptError Value} (h : I (raisedIn? outcome) s) :
    I (raisedIn? (settle s.settings outcome)) s := by
  cases outcome with
  | ok v => exact h
  | error e =>
    cases e with
    | raised m =>
      cases hthrow : s.settings.throwErrors with
      | true => simpa only [settle, hthrow, if_true] using h
      | false =>
        simp only [settle, hthrow, Bool.false_eq_true, if_false]
        exact hI.settle h hthrow
    | _ => exact h

end

/-! ## Calls and imports -/

section

include hI hrun

/-- **The body of a function** runs with the local variables put aside, and they come back at its
end, with an error on its way or without. -/
theorem runProtected_upholds (code zone : String) (bound : List Binding) :
    Upholds I none (runProtected run code zone bound) := by
  refine .get_bind fun s hs => ?_
  refine .set_bind (hI.hide hs) ?_
  refine .bind (.forM fun b _ => bindParameter_upholds hI b) fun _ => ?_
  refine .attempt_bind (hrun code (some zone)) fun outcome => ?_
  exact .modify_bind (fun t ht => hI.restore hs ht) (.ofExcept rfl)

/-- A call: the warnings about its arguments, then a host function or the body of a function. -/
theorem callFunction_upholds (name : String) (args : List Value) :
    Upholds I none (callFunction run name args) := by
  refine .get_bind fun s hs => ?_
  cases hf : s.functions.get? name with
  | none => exact .throw rfl
  | some f =>
    refine .bind (.forM fun e he => report_upholds hI (Function.recoverable_of_mem_bind he))
      fun _ => ?_
    cases hbody : f.body with
    | native native =>
      intro t ht o u h
      cases h
      exact hI.native hs hf hbody _ ht
    | source code => exact runProtected_upholds hI hrun _ _ _

/-- What a session offers to formulas upholds the condition. -/
theorem host_upholds : (host run).Upholds I :=
  ⟨readVariable_upholds hI, callFunction_upholds hI hrun⟩

/-- Evaluating a formula upholds the condition. -/
theorem evaluateWith_upholds (src : String) : Upholds I none (evaluateWith run src) :=
  Formula.evaluate_upholds (host_upholds hI hrun) src

omit hrun in
/-- An import without a source is an error, which may be settled at once. -/
theorem refuseSource_upholds (id reason : String) : Upholds I none (refuseSource id reason) := by
  intro s hs o t h
  cases h
  exact settled hI (raise_upholds hI (.load id reason) s hs _ _ rfl)

/-- An import, which may turn out to have no source. -/
theorem loadSource_upholds (id : String) : Upholds I none (loadSource run id) := by
  refine .get_bind fun s hs => ?_
  split
  · exact refuseSource_upholds hI _ _
  · split
    · exact hrun _ _
    · exact refuseSource_upholds hI _ _
    · exact .stop _

/-! ## Statements -/

/-- An initial value, or null without a formula. -/
theorem initialValue_upholds (src : Option String) : Upholds I none (initialValue run src) := by
  cases src with
  | none => exact .pure _
  | some src => exact evaluateWith_upholds hI hrun src

/-- A declaration: a failure of the store is dealt with. -/
theorem declareItem_upholds (lifetime : Lifetime) (item : Assignment) :
    Upholds I none (declareItem run lifetime item) := by
  refine .bind (initialValue_upholds hI hrun item.init) fun v => ?_
  exact .handle (updateStore_upholds hI (fun st => st.raisedIn?_declare _ _ _) fun _ => .declare)
    (recover_upholds hI)

omit hrun in
/-- The old value of a variable, if the assignment asks for it. -/
theorem currentValue_upholds (path : String) (mode : AssignMode) :
    Upholds I none (currentValue path mode) :=
  .get_bind fun _ _ => .ite (.pure _) (.ite (readVariable_upholds hI path) (.pure _))

/-- An assignment: all that can fail in it was not raised, but for the formula. -/
theorem assign_upholds (path : String) (mode : AssignMode) (src : String) :
    Upholds I none (assign run path mode src) := by
  refine .get_bind fun s _ => .ite (.throw rfl) ?_
  refine .bind (evaluateWith_upholds hI hrun src) fun rhs => ?_
  refine .bind (currentValue_upholds hI path mode) fun current => ?_
  refine .bind (.ofExcept (mode.raisedIn?_combine current rhs)) fun v => ?_
  exact updateStore_upholds hI (fun st => st.raisedIn?_set path v) fun _ => .set

/-- The bounds of a counting loop are evaluated and its counter is bound. -/
theorem openCount_upholds (name start stop : String) (step : Option String) :
    Upholds I none (openCount run name start stop step) := by
  have hbind (low : Value) :
      Upholds I none (updateStore fun st => st.bind name low .localScope) :=
    updateStore_upholds hI (fun st => st.raisedIn?_bind name low .localScope) fun _ => .bind
  refine .bind (evaluateWith_upholds hI hrun start) fun first => ?_
  refine .bind (evaluateWith_upholds hI hrun stop) fun last => ?_
  cases step with
  | none => exact .bind (.pure _) fun width => .ite (.throw rfl) (.bind (hbind _) fun _ => .pure _)
  | some src =>
    exact .bind (evaluateWith_upholds hI hrun src) fun v => .bind (.pure _) fun width =>
      .ite (.throw rfl) (.bind (hbind _) fun _ => .pure _)

omit hrun in
/-- The counter of a loop moves on. -/
theorem advanceCount_upholds (range : ForRange) : Upholds I none (advanceCount range) := by
  refine .ite (.pure _) (.get_bind fun s _ => ?_)
  refine .bind (.ofExcept (s.store.raisedIn?_get range.name)) fun v => .ite ?_ (.pure _)
  exact .bind (updateStore_upholds hI (fun st => st.raisedIn?_set _ _) fun _ => .set)
    fun _ => .pure _

/-- The defaults of the parameters are evaluated. -/
theorem prepareCapture_upholds (name : String) (params : Option String) :
    Upholds I none (prepareCapture run name params) := by
  refine .get_bind fun s _ => .ite (.throw rfl) ?_
  refine .bind (.ofExcept (Assignment.raisedIn?_parseList _)) fun items =>
    .foldlM (fun capture item => ?_) items _
  unfold addParameter
  split
  · exact .pure _
  · exact .bind (evaluateWith_upholds hI hrun _) fun v => .pure _

omit hrun in
/-- A function with a body of the script is defined, unless its name is taken. -/
theorem defineCaptured_upholds (capture : Capture) : Upholds I none (defineCaptured capture) := by
  refine .ite (.get_bind fun s hs => ?_) (.pure _)
  dsimp only
  cases hdefine : s.functions.define none _ with
  | ok functions => exact .set (hI.define hs hdefine trivial)
  | error e => exact .throw (unraised_of_eq_error (s.functions.raisedIn?_define none _) hdefine)

omit hrun in
/-- Printing, or a notice in a silent session. -/
theorem echo_upholds (text : String) : Upholds I none (echo text) := by
  refine .get_bind fun s hs => .ite ?_ (.set (hI.print hs _))
  intro s hs o t h
  cases h
  exact hI.note hs _ (by simp [message])

/-- **Simple statements** uphold what the sources that they run uphold.

**Proof sketch.** By cases over the statements; each is a chain of binds, and the lemmas about
formulas, calls, declarations and sources are its links. -/
theorem runSimple_upholds (st : Statement) : Upholds I none (runSimple run st) := by
  cases st with
  | giveBack src => exact .bind (initialValue_upholds hI hrun src) fun v => .pure _
  | echo src =>
    exact .bind (evaluateWith_upholds hI hrun src) fun v =>
      .bind (echo_upholds hI _) fun _ => .pure _
  | eval src =>
    exact .bind (evaluateWith_upholds hI hrun src) fun v => .get_bind fun s _ =>
      .bind (hrun _ _) fun _ => .pure _
  | load src =>
    exact .bind (evaluateWith_upholds hI hrun src) fun v =>
      .bind (loadSource_upholds hI hrun _) fun _ => .pure _
  | enterNamespace src =>
    cases src with
    | none => exact .bind (.modify fun s hs => hI.enter hs _) fun _ => .pure _
    | some src =>
      exact .bind (evaluateWith_upholds hI hrun src) fun v =>
        .bind (.modify fun s hs => hI.enter hs _) fun _ => .pure _
  | declare lifetime list =>
    exact .bind (.ofExcept (Assignment.raisedIn?_parseList list)) fun items =>
      .bind (.forM fun item _ => declareItem_upholds hI hrun lifetime item) fun _ => .pure _
  | set path mode src => exact .bind (assign_upholds hI hrun path mode src) fun _ => .pure _
  | call name args =>
    cases args with
    | none => exact .bind (callFunction_upholds hI hrun name []) fun _ => .pure _
    | some args =>
      exact .bind (Formula.evaluateList_upholds (host_upholds hI hrun) args) fun vs =>
        .bind (callFunction_upholds hI hrun name vs) fun _ => .pure _
  | _ => exact .pure _

end

end Session

namespace Activation

/-- The condition holds for the session of a source being run. -/
def Holds (I : Option Message → Session → Prop) (pending : Option Message)
    (a : Activation) : Prop :=
  I pending a.session

/-- An action on the session. -/
theorem onSession_upholds {α : Type} {act : Action Session α} (h : Upholds I pending act) :
    Upholds (Holds I) pending (onSession act) := by
  intro a ha o b hrun
  obtain ⟨s, hact, rfl⟩ := Action.runFrom_zoom_eq_ok.1 hrun
  exact h a.session ha o s hact

/-- Entering a block leaves the session. -/
theorem enter_upholds (kind : BlockKind) (header : Nat) :
    Upholds (Holds I) none (enter kind header) :=
  .get_bind fun _ ha => .set_bind ha (.pure _)

/-- A change of the current frame leaves the session. -/
theorem modifyFrame_upholds (f : Frame → Frame) : Upholds (Holds I) none (modifyFrame f) :=
  .modify fun _ ha => ha

/-- Beginning to gather a function leaves the session. -/
theorem beginCapture_upholds (capture : Capture) (header : Nat) :
    Upholds (Holds I) none (beginCapture capture header) :=
  .modify fun _ ha => ha

/-- The last branch of a block leaves the session. -/
theorem lastBranch_upholds : Upholds (Holds I) none lastBranch :=
  .get_bind fun a _ => .bind (.ofExcept (a.blocks.raisedIn?_branchFrame _)) fun _ =>
    modifyFrame_upholds _

/-- An end leaves the session. -/
theorem close_upholds : Upholds (Holds I) none close := by
  refine .get_bind fun a ha => .bind (.ofExcept a.blocks.raisedIn?_close) fun (jump, blocks) => ?_
  refine .set_bind ha ?_
  cases jump with
  | none => exact .pure _
  | some line => exact .pure _

section

variable (hI : Session.Kept I) {run : SourceRunner}
  (hrun : ∀ code zone, Upholds I none (run code zone))

include hI hrun

/-! ## Headers of blocks -/

/-- A condition, and what is done with its value. -/
theorem condition_upholds (condition : String) (f : Value → Frame → Frame) :
    Upholds (Holds I) none
      (do
        let v ← onSession (Session.evaluateWith run condition)
        modifyFrame (f v)) :=
  .bind (onSession_upholds (Session.evaluateWith_upholds hI hrun condition)) fun _ =>
    modifyFrame_upholds _

/-- A branching block changes the session by its condition alone. -/
theorem openBranch_upholds (condition : String) (header : Nat) :
    Upholds (Holds I) none (openBranch run condition header) :=
  .bind (enter_upholds _ _) fun _ => .ite (condition_upholds hI hrun condition _) (.pure _)

/-- A further branch changes the session by its condition alone. -/
theorem continueBranch_upholds (condition : String) :
    Upholds (Holds I) none (continueBranch run condition) :=
  .get_bind fun a _ => .bind (.ofExcept (a.blocks.raisedIn?_branchFrame _)) fun _ =>
    .ite (condition_upholds hI hrun condition _) (modifyFrame_upholds _)

/-- A conditional loop changes the session by its condition alone. -/
theorem openLoop_upholds (condition : String) (header : Nat) :
    Upholds (Holds I) none (openLoop run condition header) :=
  .bind (enter_upholds _ _) fun _ => .ite (condition_upholds hI hrun condition _) (.pure _)

/-- A counting loop changes the session by its bounds and its counter. -/
theorem openCount_upholds (name start stop : String) (step : Option String) (header : Nat) :
    Upholds (Holds I) none (openCount run name start stop step header) := by
  refine .bind (enter_upholds _ _) fun entry => .ite (.ite (.get_bind fun a _ => ?_) ?_) (.pure _)
  · split
    · exact .bind (onSession_upholds (Session.advanceCount_upholds hI _)) fun _ =>
        modifyFrame_upholds _
    · exact .throw rfl
  · exact .bind (onSession_upholds (Session.openCount_upholds hI hrun name start stop step))
        fun _ =>
      modifyFrame_upholds _

/-- A loop over a collection changes the session by the collection and its variable. -/
theorem openEach_upholds (name src : String) (header : Nat) :
    Upholds (Holds I) none (openEach run name src header) := by
  refine .bind (enter_upholds _ _) fun entry => .ite ?_ (.pure _)
  refine .bind (onSession_upholds (Session.evaluateWith_upholds hI hrun src)) fun v => ?_
  split
  · refine .get_bind fun a _ => .bind (modifyFrame_upholds _) fun _ => ?_
    split
    · exact .pure _
    · refine .bind (onSession_upholds ?_) fun _ => modifyFrame_upholds _
      exact Session.updateStore_upholds hI (fun st => st.raisedIn?_bind _ _ _) fun _ => .bind
  · exact .throw rfl

/-- A header that fails opens its body all the same, with the error still on its way. -/
theorem openFunction_upholds (name : String) (params : Option String) (header : Nat) :
    Upholds (Holds I) none (openFunction run name params header) := by
  refine .get_bind fun a _ => .ite ?_ (beginCapture_upholds _ _)
  refine .attempt_bind (onSession_upholds (Session.prepareCapture_upholds hI hrun _ params))
    fun outcome => ?_
  rcases outcome with e | capture
  · exact .modify_bind (fun _ ha => ha) (.throw rfl)
  · exact beginCapture_upholds _ _

/-! ## Steps and runs -/

/-- **A statement** upholds the condition if the sources that it runs do. -/
theorem runStatement_upholds (index : Nat) (st : Statement) :
    Upholds (Holds I) none (runStatement run index st) := by
  have hsimple : Upholds (Holds I) none
      (do
        let a ← get
        if a.blocks.active then onSession (Session.runSimple run st) else pure .next) :=
    .get_bind fun _ _ => .ite (onSession_upholds (Session.runSimple_upholds hI hrun st)) (.pure _)
  cases st with
  | branch condition => exact .bind (openBranch_upholds hI hrun condition index) fun _ => .pure _
  | otherwiseIf condition => exact .bind (continueBranch_upholds hI hrun condition) fun _ => .pure _
  | otherwise => exact .bind lastBranch_upholds fun _ => .pure _
  | loop condition => exact .bind (openLoop_upholds hI hrun condition index) fun _ => .pure _
  | count name start stop step =>
    exact .bind (openCount_upholds hI hrun name start stop step index) fun _ => .pure _
  | each name src => exact .bind (openEach_upholds hI hrun name src index) fun _ => .pure _
  | function name params =>
    exact .bind (openFunction_upholds hI hrun name params index) fun _ => .pure _
  | close => exact close_upholds
  | _ => exact hsimple

omit hrun in
/-- A line that is gathered: at the end of the function it is defined, or the failure is dealt with.
-/
theorem gatherLine_upholds (line : String) : Upholds (Holds I) none (gatherLine line) := by
  refine .get_bind fun a ha => .set_bind ha ?_
  split
  · exact .pure _
  · exact .handle (onSession_upholds (Session.defineCaptured_upholds hI _)) fun e =>
      onSession_upholds (Session.recover_upholds hI e)

/-- A line whose statement fails is dealt with while its error is on its way. -/
theorem runOutside_upholds (index : Nat) (line : String) :
    Upholds (Holds I) none (runOutside run index line) := by
  have hline : Upholds (Holds I) none (runLine run index line) :=
    .bind (.ofExcept (Statement.raisedIn?_parse line)) (runStatement_upholds hI hrun index)
  refine .attempt_bind hline fun outcome => ?_
  split
  · exact .pure _
  · exact .modify_bind (fun _ ha => ha) (.pure _)
  · exact .pure _
  · exact .bind (onSession_upholds (Session.recover_upholds hI _)) fun _ => .pure _

/-- **One step** upholds what the sources that it runs uphold. -/
theorem step_upholds (lines : Array String) : Upholds (Holds I) none (step run lines) := by
  refine .get_bind fun a ha => ?_
  split
  · refine .get_bind fun a _ => .ite (onSession_upholds ?_) (.pure _)
    exact Session.raise_upholds hI .missingBlockEnd
  · refine .set_bind (hI.move ha a.session.zone (a.next + 1)) (.ite ?_ (.ite (.pure _) ?_))
    · exact .bind (gatherLine_upholds hI _) fun _ => .pure _
    · exact runOutside_upholds hI hrun _ _

end

end Activation

/-- A source run in its zone. The place of the surrounding source comes back with the error on its
way, unless the end of the source takes it off. -/
theorem Session.runSource_upholds (hI : Kept I)
    {go : Array String → Activation → Except Stop (Except ScriptError Value × Session)}
    (hgo : ∀ lines a, Activation.Holds I none a → ∀ o t, go lines a = .ok (o, t) →
      I (raisedIn? o) t)
    (code : String) (zone : Option String) : Upholds I none (runSource go code zone) := by
  intro s hs o t h
  rw [runFrom_runSource] at h
  have hstart : Activation.Holds I none { session := { s with zone := zone } } :=
    hI.move hs zone s.line
  rcases hended : go (Text.lines code).toArray { session := { s with zone := zone } } with
    reason | ⟨outcome, ended⟩
  · rw [hended] at h
    cases h
  · rw [hended] at h
    cases h
    exact hI.move (settled hI (hgo _ _ hstart _ _ hended)) s.zone s.line

/-- **A whole run** upholds every condition that its changes keep, by induction on the steps it may
take. The sources that a step runs have fewer steps left, and the induction hypothesis speaks of
them as well. -/
theorem Activation.run_upholds (hI : Session.Kept I) {n : Nat} {lines : Array String}
    {a : Activation} (ha : Holds I none a) {o : Except ScriptError Value} {t : Session}
    (h : run n lines a = .ok (o, t)) : I (raisedIn? o) t := by
  induction n generalizing lines a o t with
  | zero => cases h
  | succ n ih =>
    have hsources (code : String) (zone : Option String) :
        Upholds I none (Session.runner n code zone) :=
      Session.runSource_upholds hI (fun _ _ ha _ _ h => ih ha h) code zone
    obtain ⟨r, b, hstep, h⟩ := run_succ_eq_ok.1 h
    have hb : Holds I (raisedIn? r) b := step_upholds hI hsources lines a ha r b hstep
    rcases r with e | (_ | v)
    · obtain ⟨rfl, rfl⟩ := h
      exact hb
    · exact ih hb h
    · obtain ⟨rfl, rfl⟩ := h
      exact hb

/-- **Sources run from within** uphold every condition that their changes keep. -/
theorem Session.runner_upholds (hI : Kept I) (n : Nat) (code : String) (zone : Option String) :
    Upholds I none (runner n code zone) :=
  runSource_upholds hI (fun _ _ ha _ _ h => Activation.run_upholds hI ha h) code zone

end LineScript
