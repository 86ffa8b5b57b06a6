import LineScript.Proofs.Formula.Evaluation
import LineScript.Session.Run

set_option relaxedAutoImplicit false
set_option autoImplicit false

/-!
# Runs from related sessions

Two sessions may differ in what a run never reads. If a relation between sessions stays when both
are changed alike, then whole runs from related sessions go the same way: every answer of the one is
an answer of the other, and the sessions they leave are related. Taking equality for the relation, a
run that has an answer keeps it when it is allowed more steps.

## Main definitions

* `LineScript.Session.Alike` — a relation that stays when statements change both sessions alike.
* `LineScript.Session.Matching` — one that also stays when both move to another place.
* `LineScript.Activation.Matches` — the relation between sources being run.

## Main results

* `LineScript.Activation.step_follows` — one step from related sessions.
* `LineScript.Activation.run_follows`, `LineScript.Session.runner_follows` — whole runs from related
  sessions, the second with at least as many steps.
* `LineScript.Activation.run_mono` — more steps do not change an answer.
-/

namespace LineScript

open LineScript.Action (Follows)

namespace Session

/-- Related sessions agree on all that statements read, and stay related when both are changed
alike. -/
structure Alike (I : Session → Session → Prop) : Prop where
  store : ∀ {s t}, I s t → s.store = t.store
  functions : ∀ {s t}, I s t → s.functions = t.functions
  scope : ∀ {s t}, I s t → s.scope = t.scope
  zone : ∀ {s t}, I s t → s.zone = t.zone
  loader : ∀ {s t}, I s t → s.loader = t.loader
  throwErrors : ∀ {s t}, I s t → s.settings.throwErrors = t.settings.throwErrors
  write : ∀ {s t}, I s t → ∀ store, I { s with store := store } { t with store := store }
  define : ∀ {s t}, I s t → ∀ {f functions}, s.functions.define none f = .ok functions →
    I { s with functions := functions } { t with functions := functions }
  enter : ∀ {s t}, I s t → ∀ scope, I { s with scope := scope } { t with scope := scope }
  record : ∀ level kind text,
    Follows I (record level (some kind) text) (record level (some kind) text)
  echo : ∀ text, Follows I (echo text) (echo text)

/-- Related sessions are at the same place, and also stay related when both move to another one, as
runs do from line to line and from source to source. -/
structure Matching (I : Session → Session → Prop) : Prop extends Alike I where
  line : ∀ {s t}, I s t → s.line = t.line
  move : ∀ {s t}, I s t → ∀ zone line,
    I { s with zone := zone, line := line } { t with zone := zone, line := line }

/-- Related sessions at another line. -/
theorem Matching.moveLine {I : Session → Session → Prop} (hI : Matching I) {s t : Session}
    (hst : I s t) (line : Nat) : I { s with line := line } { t with line := line } := by
  have ht : { t with line := line } = { t with zone := s.zone, line := line } := by
    rw [hI.zone hst]
  rw [ht]
  exact hI.move hst s.zone line

/-- Equal sessions stay equal. -/
theorem matching_eq : Matching Eq where
  store h := h ▸ rfl
  functions h := h ▸ rfl
  scope h := h ▸ rfl
  zone h := h ▸ rfl
  line h := h ▸ rfl
  loader h := h ▸ rfl
  throwErrors h := h ▸ rfl
  write h _ := h ▸ rfl
  define h _ _ _ := h ▸ rfl
  enter h _ := h ▸ rfl
  move h _ _ := h ▸ rfl
  record _ _ _ := .refl _
  echo _ := .refl _

/-- A text is printed, or noted if output is silenced. -/
theorem runFrom_echo (text : String) (s : Session) :
    (Session.echo text).runFrom s =
      .ok (.ok (), if s.settings.silent then s.logged (s.message .notice none text)
        else { s with output := s.output.push text }) := by
  unfold Session.echo
  rw [Action.runFrom_get_bind]
  split
  · rfl
  · rfl

/-- The two sessions may change their parts. -/
theorem Matching.flip {I : Session → Session → Prop} (hI : Matching I) :
    Matching fun t s => I s t where
  store h := (hI.store h).symm
  functions h := (hI.functions h).symm
  scope h := (hI.scope h).symm
  zone h := (hI.zone h).symm
  line h := (hI.line h).symm
  loader h := (hI.loader h).symm
  throwErrors h := (hI.throwErrors h).symm
  write h := hI.write h
  define h _ _ hdefine := hI.define h (by rw [hI.functions h]; exact hdefine)
  enter h := hI.enter h
  move h := hI.move h
  record level kind text := (hI.record level kind text).flip fun _ => ⟨_, _, rfl⟩
  echo text := (hI.echo text).flip fun _ => ⟨_, _, runFrom_echo text _⟩

variable {I : Session → Session → Prop} (hI : Alike I) {run run' : SourceRunner}
  (hrun : ∀ code zone, Follows I (run code zone) (run' code zone))

/-! ## Logging and variables -/

section

include hI

/-- A report is logged alike. -/
theorem report_follows (e : ScriptError) : Follows I (report e) (report e) :=
  .bind (hI.record _ _ _) fun _ => .pure ()

/-- An error is raised alike. -/
theorem raise_follows {α : Type} (e : ScriptError) :
    Follows I (raise e : Action Session α) (raise e) := by
  cases e with
  | raised m => exact .throw _
  | _ => exact .bind (hI.record _ _ _) fun m => .throw _

/-- A failure is dealt with alike. -/
theorem recover_follows (e : ScriptError) : Follows I (recover e) (recover e) := by
  unfold recover
  split
  · exact .throw _
  · split
    · exact report_follows hI _
    · exact raise_follows hI _

/-- A variable is read alike, as related sessions have the same variables. -/
theorem readVariable_follows (path : String) :
    Follows I (readVariable path) (readVariable path) := by
  refine .get_bind fun s t hst => ?_
  rw [hI.store hst]
  split
  · exact .pure _
  · split
    · exact .bind (report_follows hI _) fun _ => .pure _
    · exact .throw _

/-- The variables are changed alike. -/
theorem updateStore_follows (change : Store → Except ScriptError Store) :
    Follows I (updateStore change) (updateStore change) := by
  refine .get_bind fun s t hst => ?_
  rw [hI.store hst]
  split
  · exact .set (hI.write hst _)
  · exact .throw _

/-- What becomes of an error depends on whether errors are thrown, and related sessions agree on
that. -/
theorem settle_follows {s t : Session} (hst : I s t) (outcome : Except ScriptError Value) :
    settle s.settings outcome = settle t.settings outcome := by
  unfold settle
  rw [hI.throwErrors hst]

end

/-! ## Calls and imports -/

section

include hI hrun

/-- The body of a function is run alike, with local variables of its own. -/
theorem runProtected_follows (code zone : String) (bound : List Binding) :
    Follows I (runProtected run code zone bound) (runProtected run' code zone bound) := by
  refine .get_bind fun s t hst => ?_
  rw [hI.store hst]
  refine .bind (.set (hI.write hst _)) fun _ => ?_
  refine .bind (.forM (fun b => ?_) bound) fun _ => ?_
  · exact .handle (updateStore_follows hI _) (report_follows hI)
  · refine .bind (.attempt (hrun code (some zone))) fun outcome => ?_
    refine .bind (.modify fun s' t' hst' => ?_) fun _ => .ofExcept outcome
    rw [hI.store hst']
    exact hI.write hst' _

/-- A function is called alike. -/
theorem callFunction_follows (name : String) (args : List Value) :
    Follows I (callFunction run name args) (callFunction run' name args) := by
  refine .get_bind fun s t hst => ?_
  rw [hI.functions hst]
  split
  · exact .throw _
  · refine .bind (.forM (report_follows hI) _) fun _ => ?_
    split
    · exact .ofExcept _
    · exact runProtected_follows hI hrun _ _ _

/-- What related sessions offer to formulas follows. -/
theorem host_follows : (host run).Follows I (host run') :=
  ⟨readVariable_follows hI, callFunction_follows hI hrun⟩

/-- Formulas are evaluated alike. -/
theorem evaluateWith_follows (src : String) :
    Follows I (evaluateWith run src) (evaluateWith run' src) :=
  Formula.evaluate_follows (host_follows hI hrun) src

/-- A source is imported alike. -/
theorem loadSource_follows (id : String) :
    Follows I (loadSource run id) (loadSource run' id) := by
  have hrefuse (reason : String) :
      Follows I (refuseSource id reason) (refuseSource id reason) := by
    refine .bind (.attempt (raise_follows hI _)) fun outcome => .get_bind fun s t hst => ?_
    rw [settle_follows hI hst]
    exact .ofExcept _
  refine .get_bind fun s t hst => ?_
  rw [hI.loader hst]
  split
  · exact hrefuse _
  · split
    · exact hrun _ _
    · exact hrefuse _
    · exact .stop _ _

/-! ## Statements -/

/-- Initial values are evaluated alike. -/
theorem initialValue_follows (src : Option String) :
    Follows I (initialValue run src) (initialValue run' src) := by
  cases src with
  | none => exact .pure _
  | some src => exact evaluateWith_follows hI hrun src

/-- A variable is declared alike. -/
theorem declareItem_follows (lifetime : Lifetime) (item : Assignment) :
    Follows I (declareItem run lifetime item) (declareItem run' lifetime item) :=
  .bind (initialValue_follows hI hrun item.init) fun _ =>
    .handle (updateStore_follows hI _) (recover_follows hI)

omit hrun in
/-- The old value of a variable is the same. -/
theorem currentValue_follows (path : String) (mode : AssignMode) :
    Follows I (currentValue path mode) (currentValue path mode) := by
  refine .get_bind fun s t hst => ?_
  rw [hI.store hst]
  split
  · exact .pure _
  · split
    · exact readVariable_follows hI path
    · exact .pure _

/-- A variable is set alike. -/
theorem assign_follows (path : String) (mode : AssignMode) (src : String) :
    Follows I (assign run path mode src) (assign run' path mode src) := by
  refine .get_bind fun s t hst => ?_
  rw [hI.store hst]
  split
  · exact .throw _
  · refine .bind (evaluateWith_follows hI hrun src) fun rhs => ?_
    refine .bind (currentValue_follows hI path mode) fun current => ?_
    exact .bind (.ofExcept _) fun v => updateStore_follows hI _

/-- The bounds of a counting loop are evaluated alike. -/
theorem openCount_follows (name start stop : String) (step : Option String) :
    Follows I (openCount run name start stop step) (openCount run' name start stop step) := by
  refine .bind (evaluateWith_follows hI hrun start) fun first => ?_
  refine .bind (evaluateWith_follows hI hrun stop) fun last => ?_
  cases step with
  | none =>
    exact .bind (.pure _) fun width =>
      .ite (.throw _) (.bind (updateStore_follows hI _) fun _ => .pure _)
  | some src =>
    exact .bind (evaluateWith_follows hI hrun src) fun v => .bind (.pure _) fun width =>
      .ite (.throw _) (.bind (updateStore_follows hI _) fun _ => .pure _)

omit hrun in
/-- The counter of a loop moves on alike. -/
theorem advanceCount_follows (range : ForRange) :
    Follows I (advanceCount range) (advanceCount range) := by
  unfold advanceCount
  split
  · exact .pure _
  · refine .get_bind fun s t hst => ?_
    rw [hI.store hst]
    exact .bind (.ofExcept _) fun v =>
      .ite (.bind (updateStore_follows hI _) fun _ => .pure _) (.pure _)

/-- The parameters of a function are read alike. -/
theorem prepareCapture_follows (name : String) (params : Option String) :
    Follows I (prepareCapture run name params) (prepareCapture run' name params) := by
  refine .get_bind fun s t hst => ?_
  rw [hI.functions hst]
  split
  · exact .throw _
  · refine .bind (.ofExcept _) fun items => .foldlM (fun capture item => ?_) items _
    unfold addParameter
    split
    · exact .pure _
    · exact .bind (evaluateWith_follows hI hrun _) fun v => .pure _

omit hrun in
/-- A function that was gathered is defined alike. -/
theorem defineCaptured_follows (capture : Capture) :
    Follows I (defineCaptured capture) (defineCaptured capture) := by
  unfold defineCaptured
  split
  · refine .get_bind fun s t hst => ?_
    rw [← hI.functions hst]
    dsimp only
    cases hdefine : s.functions.define none _ with
    | ok functions => exact .set (hI.define hst hdefine)
    | error e => exact .throw _
  · exact .pure _

/-- **Simple statements** from related sessions.

**Proof sketch.** By cases over the statements; each is a chain of binds, and the lemmas about
formulas, calls, declarations and sources are its links. -/
theorem runSimple_follows (st : Statement) :
    Follows I (runSimple run st) (runSimple run' st) := by
  cases st with
  | giveBack src => exact .bind (initialValue_follows hI hrun src) fun v => .pure _
  | echo src =>
    exact .bind (evaluateWith_follows hI hrun src) fun v => .bind (hI.echo _) fun _ => .pure _
  | eval src =>
    refine .bind (evaluateWith_follows hI hrun src) fun v => .get_bind fun s t hst => ?_
    rw [hI.zone hst]
    exact .bind (hrun _ _) fun _ => .pure _
  | load src =>
    exact .bind (evaluateWith_follows hI hrun src) fun v =>
      .bind (loadSource_follows hI hrun _) fun _ => .pure _
  | enterNamespace src =>
    cases src with
    | none => exact .bind (.modify fun s t hst => hI.enter hst _) fun _ => .pure _
    | some src =>
      exact .bind (evaluateWith_follows hI hrun src) fun v =>
        .bind (.modify fun s t hst => hI.enter hst _) fun _ => .pure _
  | declare lifetime list =>
    exact .bind (.ofExcept _) fun items =>
      .bind (.forM (declareItem_follows hI hrun lifetime) items) fun _ => .pure _
  | set path mode src => exact .bind (assign_follows hI hrun path mode src) fun _ => .pure _
  | call name args =>
    cases args with
    | none => exact .bind (callFunction_follows hI hrun name []) fun _ => .pure _
    | some args =>
      exact .bind (Formula.evaluateList_follows (host_follows hI hrun) args) fun vs =>
        .bind (callFunction_follows hI hrun name vs) fun _ => .pure _
  | _ => exact .pure _

end

end Session

namespace Activation

variable {I : Session → Session → Prop}

/-- Sources at the same point, in related sessions. -/
structure Matches (I : Session → Session → Prop) (a b : Activation) : Prop where
  session : I a.session b.session
  blocks : a.blocks = b.blocks
  next : a.next = b.next

/-- An action on related sessions. -/
theorem onSession_follows {α : Type} {act act' : Action Session α} (h : Follows I act act') :
    Follows (Matches I) (onSession act) (onSession act') := by
  rintro a b ⟨hsession, hblocks, hnext⟩ o a' hrun
  unfold onSession at hrun ⊢
  rw [Action.runFrom_zoom] at hrun ⊢
  rcases hact : act.runFrom a.session with reason | ⟨p, s⟩
  · rw [hact] at hrun
    cases hrun
  · rw [hact] at hrun
    cases hrun
    obtain ⟨t, ht, hst⟩ := h _ _ hsession _ _ hact
    rw [ht]
    exact ⟨_, rfl, hst, hblocks, hnext⟩

/-- The same block is entered. -/
theorem enter_follows (kind : BlockKind) (header : Nat) :
    Follows (Matches I) (enter kind header) (enter kind header) := by
  refine .get_bind fun a b hab => ?_
  rw [hab.blocks]
  exact .bind (.set ⟨hab.session, rfl, hab.next⟩) fun _ => .pure _

/-- The current frame is changed alike. -/
theorem modifyFrame_follows (f : Frame → Frame) :
    Follows (Matches I) (modifyFrame f) (modifyFrame f) := by
  refine .modify fun a b hab => ⟨hab.session, ?_, hab.next⟩
  rw [hab.blocks]

/-- The same function begins to be gathered. -/
theorem beginCapture_follows (capture : Capture) (header : Nat) :
    Follows (Matches I) (beginCapture capture header) (beginCapture capture header) := by
  refine .modify fun a b hab => ⟨hab.session, ?_, hab.next⟩
  rw [hab.blocks]

/-- The last branch of a block looks at the same open blocks. -/
theorem lastBranch_follows : Follows (Matches I) lastBranch lastBranch := by
  refine .get_bind fun a b hab => ?_
  rw [hab.blocks]
  exact .bind (.ofExcept _) fun _ => modifyFrame_follows _

/-- An end looks at the same open blocks. -/
theorem close_follows : Follows (Matches I) close close := by
  refine .get_bind fun a b hab => ?_
  rw [hab.blocks]
  refine .bind (.ofExcept _) fun (jump, blocks) => ?_
  refine .bind (.set ⟨hab.session, rfl, hab.next⟩) fun _ => ?_
  cases jump with
  | none => exact .pure _
  | some line => exact .pure _

section

variable (hI : Session.Alike I) {run run' : SourceRunner}
  (hrun : ∀ code zone, Follows I (run code zone) (run' code zone))

include hI hrun

/-! ## Headers of blocks -/

/-- A condition, and what is done with its value. -/
theorem condition_follows (condition : String) (f : Value → Frame → Frame) :
    Follows (Matches I)
      (do
        let v ← onSession (Session.evaluateWith run condition)
        modifyFrame (f v))
      (do
        let v ← onSession (Session.evaluateWith run' condition)
        modifyFrame (f v)) :=
  .bind (onSession_follows (Session.evaluateWith_follows hI hrun condition)) fun _ =>
    modifyFrame_follows _

/-- A branching block is opened alike. -/
theorem openBranch_follows (condition : String) (header : Nat) :
    Follows (Matches I) (openBranch run condition header) (openBranch run' condition header) :=
  .bind (enter_follows _ _) fun _ => .ite (condition_follows hI hrun condition _) (.pure _)

/-- A further branch is tried alike. -/
theorem continueBranch_follows (condition : String) :
    Follows (Matches I) (continueBranch run condition) (continueBranch run' condition) := by
  refine .get_bind fun a b hab => ?_
  rw [hab.blocks]
  exact .bind (.ofExcept _) fun _ =>
    .ite (condition_follows hI hrun condition _) (modifyFrame_follows _)

/-- A conditional loop is opened alike. -/
theorem openLoop_follows (condition : String) (header : Nat) :
    Follows (Matches I) (openLoop run condition header) (openLoop run' condition header) :=
  .bind (enter_follows _ _) fun _ => .ite (condition_follows hI hrun condition _) (.pure _)

/-- A counting loop is opened, or moves on, alike. -/
theorem openCount_follows (name start stop : String) (step : Option String) (header : Nat) :
    Follows (Matches I) (openCount run name start stop step header)
      (openCount run' name start stop step header) := by
  refine .bind (enter_follows _ _) fun entry => .ite (.ite ?_ ?_) (.pure _)
  · refine .get_bind fun a b hab => ?_
    rw [hab.blocks]
    split
    · exact .bind (onSession_follows (Session.advanceCount_follows hI _)) fun _ =>
        modifyFrame_follows _
    · exact .throw _
  · exact .bind (onSession_follows (Session.openCount_follows hI hrun name start stop step))
        fun _ =>
      modifyFrame_follows _

/-- A loop over a collection is opened, or moves on, alike. -/
theorem openEach_follows (name src : String) (header : Nat) :
    Follows (Matches I) (openEach run name src header) (openEach run' name src header) := by
  refine .bind (enter_follows _ _) fun entry => .ite ?_ (.pure _)
  refine .bind (onSession_follows (Session.evaluateWith_follows hI hrun src)) fun v => ?_
  split
  · refine .get_bind fun a b hab => ?_
    rw [hab.blocks]
    refine .bind (modifyFrame_follows _) fun _ => ?_
    split
    · exact .pure _
    · exact .bind (onSession_follows (Session.updateStore_follows hI _)) fun _ =>
        modifyFrame_follows _
  · exact .throw _

/-- A function is opened alike, also if its parameters fail. -/
theorem openFunction_follows (name : String) (params : Option String) (header : Nat) :
    Follows (Matches I) (openFunction run name params header)
      (openFunction run' name params header) := by
  refine .get_bind fun a b hab => ?_
  rw [hab.blocks, hI.scope hab.session]
  refine .ite ?_ (beginCapture_follows _ _)
  refine .bind (.attempt (onSession_follows (Session.prepareCapture_follows hI hrun _ params)))
    fun outcome => ?_
  rcases outcome with e | capture
  · exact .bind (beginCapture_follows _ _) fun _ => .throw _
  · exact beginCapture_follows _ _

/-! ## Steps and runs -/

/-- **Statements are run alike**, in activations with related sessions and the same open blocks. -/
theorem runStatement_follows (index : Nat) (st : Statement) :
    Follows (Matches I) (runStatement run index st) (runStatement run' index st) := by
  have hsimple : Follows (Matches I)
      (do
        let a ← get
        if a.blocks.active then onSession (Session.runSimple run st) else pure .next)
      (do
        let a ← get
        if a.blocks.active then onSession (Session.runSimple run' st) else pure .next) := by
    refine .get_bind fun a b hab => ?_
    rw [hab.blocks]
    exact .ite (onSession_follows (Session.runSimple_follows hI hrun st)) (.pure _)
  cases st with
  | branch condition =>
    exact .bind (openBranch_follows hI hrun condition index) fun _ => .pure _
  | otherwiseIf condition =>
    exact .bind (continueBranch_follows hI hrun condition) fun _ => .pure _
  | otherwise => exact .bind lastBranch_follows fun _ => .pure _
  | loop condition => exact .bind (openLoop_follows hI hrun condition index) fun _ => .pure _
  | count name start stop step =>
    exact .bind (openCount_follows hI hrun name start stop step index) fun _ => .pure _
  | each name src => exact .bind (openEach_follows hI hrun name src index) fun _ => .pure _
  | function name params =>
    exact .bind (openFunction_follows hI hrun name params index) fun _ => .pure _
  | close => exact close_follows
  | _ => exact hsimple

omit hrun in
/-- The end of a source. -/
theorem finish_follows : Follows (Matches I) finish finish := by
  refine .get_bind fun a b hab => ?_
  rw [hab.blocks]
  exact .ite (onSession_follows (Session.raise_follows hI _)) (.pure _)

omit hrun in
/-- A line of the body of a function. -/
theorem gatherLine_follows (line : String) :
    Follows (Matches I) (gatherLine line) (gatherLine line) := by
  refine .get_bind fun a b hab => ?_
  rw [hab.blocks]
  refine .bind (.set ⟨hab.session, rfl, hab.next⟩) fun _ => ?_
  split
  · exact .pure _
  · exact .handle (onSession_follows (Session.defineCaptured_follows hI _)) fun e =>
      onSession_follows (Session.recover_follows hI e)

/-- A line that is run as a statement. -/
theorem runOutside_follows (index : Nat) (line : String) :
    Follows (Matches I) (runOutside run index line) (runOutside run' index line) := by
  refine .bind (.attempt (.bind (.ofExcept _) (runStatement_follows hI hrun _))) fun outcome => ?_
  split
  · exact .pure _
  · exact .bind (.modify fun a b hab => ⟨hab.session, hab.blocks, rfl⟩) fun _ => .pure _
  · exact .pure _
  · exact .bind (onSession_follows (Session.recover_follows hI _)) fun _ => .pure _

end

/-- **One step** from related sessions. -/
theorem step_follows (hI : Session.Matching I) {run run' : SourceRunner}
    (hrun : ∀ code zone, Follows I (run code zone) (run' code zone)) (lines : Array String) :
    Follows (Matches I) (step run lines) (step run' lines) := by
  refine .get_bind fun a b hab => ?_
  rw [hab.next, hab.blocks]
  split
  · exact finish_follows hI.toAlike
  · have hset : Matches I
        ⟨{ a.session with line := b.next + 1 }, b.blocks, b.next + 1⟩
        ⟨{ b.session with line := b.next + 1 }, b.blocks, b.next + 1⟩ :=
      ⟨hI.moveLine hab.session _, rfl, rfl⟩
    refine .bind (.set hset) fun _ => .ite ?_ (.ite (.pure _) ?_)
    · exact .bind (gatherLine_follows hI.toAlike _) fun _ => .pure _
    · exact runOutside_follows hI.toAlike hrun _ _

/-- What it takes for a run to have an answer: its first step gives it, or the steps after that. -/
theorem run_succ_eq_ok {n : Nat} {lines : Array String} {a : Activation}
    {o : Except ScriptError Value} {t : Session} :
    run (n + 1) lines a = .ok (o, t) ↔
      ∃ r b, (step (Session.runner n) lines).runFrom a = .ok (r, b) ∧
        match r with
        | .error e => o = .error e ∧ t = b.session
        | .ok (some v) => o = .ok v ∧ t = b.session
        | .ok none => run n lines b = .ok (o, t) := by
  rw [run]
  rw [← Session.runner]
  rcases (step (Session.runner n) lines).runFrom a with reason | ⟨r, b⟩
  · simp
  · constructor
    · intro h
      refine ⟨r, b, rfl, ?_⟩
      rcases r with e | (_ | v)
      · cases h
        exact ⟨rfl, rfl⟩
      · exact h
      · cases h
        exact ⟨rfl, rfl⟩
    · rintro ⟨r', b', heq, h⟩
      cases heq
      rcases r with e | (_ | v)
      · rw [h.1, h.2]
      · exact h
      · rw [h.1, h.2]

end Activation

/-- A source is run by its lines, from the first one on, with its zone as the place; at its end the
place is put back and an error is settled. -/
theorem Session.runFrom_runSource
    (go : Array String → Activation → Except Stop (Except ScriptError Value × Session))
    (code : String) (zone : Option String) (s : Session) :
    (runSource go code zone).runFrom s =
      match go (Text.lines code).toArray { session := { s with zone := zone } } with
      | .error reason => .error reason
      | .ok (outcome, ended) =>
        .ok (settle ended.settings outcome, { ended with zone := s.zone, line := s.line }) := rfl

/-- A source run in its zone, from related sessions. -/
theorem Session.runSource_follows {I : Session → Session → Prop} (hI : Matching I)
    {go go' : Array String → Activation → Except Stop (Except ScriptError Value × Session)}
    (hgo : ∀ lines a b, Activation.Matches I a b → ∀ o s, go lines a = .ok (o, s) →
      ∃ t, go' lines b = .ok (o, t) ∧ I s t) (code : String) (zone : Option String) :
    Follows I (runSource go code zone) (runSource go' code zone) := by
  intro s t hst o s' h
  rw [runFrom_runSource] at h ⊢
  have hstart : Activation.Matches I { session := { s with zone := zone } }
      { session := { t with zone := zone } } := by
    have ht : { t with zone := zone } = { t with zone := zone, line := s.line } := by
      rw [hI.line hst]
    refine ⟨?_, rfl, rfl⟩
    rw [ht]
    exact hI.move hst zone s.line
  rcases hended : go (Text.lines code).toArray { session := { s with zone := zone } } with
    reason | ⟨outcome, ended⟩
  · rw [hended] at h
    cases h
  · rw [hended] at h
    cases h
    obtain ⟨ended', hended', hI'⟩ := hgo _ _ _ hstart _ _ hended
    rw [hended', hI.zone hst, hI.line hst]
    simp only
    rw [settle_follows hI.toAlike hI']
    exact ⟨_, rfl, hI.move hI' _ _⟩

namespace Activation

/-- **A whole run** from related sessions, by induction on the steps it may take. The sources that a
step runs have fewer steps left, and the induction hypothesis speaks of them as well. -/
theorem run_follows {I : Session → Session → Prop} (hI : Session.Matching I) {n m : Nat}
    (hle : n ≤ m) {lines : Array String} {a b : Activation} (hab : Matches I a b)
    {o : Except ScriptError Value} {s : Session} (h : run n lines a = .ok (o, s)) :
    ∃ t, run m lines b = .ok (o, t) ∧ I s t := by
  induction n generalizing m lines a b o s with
  | zero => cases h
  | succ n ih =>
    obtain ⟨m, rfl⟩ : ∃ m', m = m' + 1 := ⟨m - 1, by omega⟩
    have hsources (code : String) (zone : Option String) :
        Follows I (Session.runner n code zone) (Session.runner m code zone) :=
      Session.runSource_follows hI (fun _ _ _ hab _ _ h => ih (Nat.le_of_succ_le_succ hle) hab h)
        code zone
    obtain ⟨r, a', hstep, h⟩ := run_succ_eq_ok.1 h
    obtain ⟨b', hstep', hab'⟩ := step_follows hI hsources lines a b hab _ _ hstep
    rcases r with e | (_ | v)
    · obtain ⟨rfl, rfl⟩ := h
      exact ⟨b'.session, run_succ_eq_ok.2 ⟨_, b', hstep', rfl, rfl⟩, hab'.session⟩
    · obtain ⟨t, ht, hst⟩ := ih (Nat.le_of_succ_le_succ hle) hab' h
      exact ⟨t, run_succ_eq_ok.2 ⟨_, b', hstep', ht⟩, hst⟩
    · obtain ⟨rfl, rfl⟩ := h
      exact ⟨b'.session, run_succ_eq_ok.2 ⟨_, b', hstep', rfl, rfl⟩, hab'.session⟩

/-- **More steps do not change an answer.** -/
theorem run_mono {n m : Nat} (hle : n ≤ m) {lines : Array String} {a : Activation}
    {r : Except ScriptError Value × Session} (h : run n lines a = .ok r) :
    run m lines a = .ok r := by
  obtain ⟨t, ht, hst⟩ := run_follows Session.matching_eq hle ⟨rfl, rfl, rfl⟩ h
  rw [ht, ← hst]

end Activation

/-- **Sources run from within**, from related sessions. -/
theorem Session.runner_follows {I : Session → Session → Prop} (hI : Matching I) {n m : Nat}
    (hle : n ≤ m) (code : String) (zone : Option String) :
    Follows I (runner n code zone) (runner m code zone) :=
  runSource_follows hI (fun _ _ _ hab _ _ h => Activation.run_follows hI hle hab h) code zone

end LineScript
