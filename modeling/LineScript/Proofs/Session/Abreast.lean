import LineScript.Proofs.Abreast
import LineScript.Proofs.Block.Run
import LineScript.Proofs.Session.Basic

set_option relaxedAutoImplicit false
set_option autoImplicit false

/-!
# Steps of strict and lenient runs

All that a step of a source consists of goes side by side from a strict session and the lenient one,
as far as the sources that it runs do. There is one exception: where a source cannot be loaded, the
strict step fails, while the lenient one goes on after the import, in the same session.

## Main results

* `LineScript.Session.source_abreast` — a source that is run.
* `LineScript.Session.callFunction_abreast`, `LineScript.Session.evaluateWith_abreast` — calls and
  formulas.
* `LineScript.Session.loadSource_abreast` — imports, which lenient sessions are spared the errors
  of.
* `LineScript.Activation.step_abreast` — one step of a source.
-/

namespace LineScript

open LineScript.Action (Abreast AbreastAt Steady)

/-- An outcome with a raised error is that error. -/
theorem eq_of_raisedIn? {α : Type} {o : Except ScriptError α} {m : Message}
    (h : raisedIn? o = some m) :
    o = .error (.raised m) := by
  rcases o with e | a
  · cases e with
    | raised m' =>
      cases h
      rfl
    | _ => cases h
  · cases h

namespace Session

/-! ## Logging and variables -/

/-- A message is logged, whether or not errors are thrown. -/
theorem record_steady (level : Level) (kind : Option ErrorKind) (text : String) :
    Steady (record level kind text) :=
  fun s hs => ⟨_, s.logged (s.message level kind text), rfl, rfl, hs, .logged _ _⟩

/-- A failure is reported, whether or not errors are thrown. -/
theorem report_steady (e : ScriptError) : Steady (report e) :=
  .bind (record_steady _ _ _) fun _ => .pure _

/-- An error is raised, whether or not errors are thrown: that decides only what becomes of it. -/
theorem raise_steady {α : Type} (e : ScriptError) : Steady (raise e : Action Session α) := by
  cases e with
  | raised m => exact .throw _
  | _ => exact .bind (record_steady _ _ _) fun m => .throw _

/-- A failure is dealt with, whether or not errors are thrown. -/
theorem recover_steady (e : ScriptError) : Steady (recover e) := by
  unfold recover
  split
  · exact .throw _
  · exact .ite (report_steady _) (raise_steady _)

/-- Reading a variable, with a report if it is not there. -/
theorem readVariable_steady (path : String) : Steady (readVariable path) := by
  refine .get_bind (fun s => ?_) fun s => rfl
  split
  · exact .pure _
  · exact .ite (.bind (report_steady _) fun _ => .pure _) (.throw _)

/-- A change of the variables, which may fail, depends on the variables alone. -/
theorem updateStore_steady (change : Store → Except ScriptError Store) :
    Steady (updateStore change) := by
  intro s hs
  have hstore : (Lenience.lenient s).store = s.store := rfl
  unfold updateStore
  rw [Action.runFrom_get_bind, Action.runFrom_get_bind, hstore]
  cases change s.store with
  | ok store => exact ⟨.ok (), { s with store := store }, rfl, rfl, hs, .of_eq rfl rfl⟩
  | error e => exact ⟨_, s, rfl, rfl, hs, .refl _⟩

/-- A parameter is bound, or it is reported that it cannot be. -/
theorem bindParameter_steady (b : Binding) : Steady (bindParameter b) := by
  refine .attempt_bind (updateStore_steady _) fun outcome => ?_
  rcases outcome with e | u
  · exact report_steady e
  · exact .pure ()

/-- Printing depends on whether the session is silent, and on nothing else in the settings. -/
theorem echo_steady (text : String) : Steady (echo text) := by
  intro s hs
  have hsilent : (Lenience.lenient s).settings.silent = s.settings.silent := rfl
  unfold echo
  rw [Action.runFrom_get_bind, Action.runFrom_get_bind, hsilent]
  split
  · exact Steady.bind (record_steady _ _ _) (fun _ => .pure ()) s hs
  · exact ⟨.ok (), { s with output := s.output.push text }, rfl, rfl, hs, .printed s text⟩

/-- The old value of a variable, if the assignment asks for it. -/
theorem currentValue_steady (path : String) (mode : AssignMode) :
    Steady (currentValue path mode) := by
  refine .get_bind (fun s => ?_) fun s => rfl
  exact .ite (.pure _) (.ite (readVariable_steady path) (.pure _))

/-- The counter of a loop moves on. -/
theorem advanceCount_steady (range : ForRange) : Steady (advanceCount range) := by
  refine .ite (.pure _) (.get_bind (fun s => ?_) fun s => rfl)
  exact .bind (.ofExcept _) fun v => .ite (.bind (updateStore_steady _) fun _ => .pure _) (.pure _)

/-- A function that was gathered is defined, unless its name is taken. -/
theorem defineCaptured_steady (capture : Capture) : Steady (defineCaptured capture) := by
  refine .ite (fun s hs => ?_) (.pure _)
  have hfunctions : (Lenience.lenient s).functions = s.functions := rfl
  rw [Action.runFrom_get_bind, Action.runFrom_get_bind, hfunctions]
  dsimp only
  cases s.functions.define none _ with
  | ok functions => exact ⟨.ok (), { s with functions := functions }, rfl, rfl, hs, .of_eq rfl rfl⟩
  | error e => exact ⟨_, s, rfl, rfl, hs, .refl _⟩

/-- Another namespace is entered. -/
theorem enter_steady (scope : Option String) :
    Steady (modify fun s : Session => { s with scope := scope }) :=
  .modify (fun _ => rfl) (fun _ h => h) fun _ => .of_eq rfl rfl

/-! ## Calls and imports -/

section

variable {run : SourceRunner} (htame : Tame run)

include htame

/-- **A source that is run** raises no error, or it is the one whose error passes on. -/
theorem source_abreast (code : String) (zone : Option String) :
    Abreast run none fun run => run code zone := by
  intro s hs
  constructor
  · intro o w hrun
    have hanswer : Request.answer ⟨code, zone, s⟩ run = .ok (o, w) := hrun
    cases hraised : raisedIn? o with
    | none =>
      obtain ⟨hstrict, hlenient⟩ := htame.1 ⟨code, zone, s⟩ o w hs hanswer hraised
      refine .inl ⟨o, .inl rfl, hstrict, ?_⟩
      rintro run' (rfl | hcalm)
      · exact ⟨hrun, hlenient⟩
      · exact hcalm ⟨code, zone, s⟩ o w hs hanswer hraised
    | some m =>
      obtain rfl := eq_of_raisedIn? hraised
      refine .inr ⟨⟨code, zone, s⟩, m, w, hs, hanswer, rfl, .refl w, fun _ _ _ hstop => hstop,
        fun _ _ _ hstop => hstop, fun p t hlenient => ⟨p, t, hlenient, ?_⟩⟩
      obtain ⟨t', hstrict, rfl, -⟩ := htame.2 ⟨code, zone, s⟩ p t hs hlenient
      exact ⟨t', hstrict, rfl, .of_eq rfl rfl⟩
  · intro p t hlenient
    exact htame.2 ⟨code, zone, s⟩ p t hs hlenient

/-- The local variables come back with the error that passes. -/
theorem runProtected_abreast (code zone : String) (bound : List Binding) :
    Abreast run none fun run => runProtected run code zone bound := by
  intro s hs
  have hbody : Abreast run none fun run => (do
      bound.forM bindParameter
      let outcome ← Action.attempt (run code (some zone))
      modify fun t : Session => { t with store := t.store.restore s.store.detach.1 }
      Action.ofExcept outcome) := by
    refine .bind (Steady.forM bindParameter_steady bound).abreast fun _ t ht => ?_
    refine (source_abreast htame code (some zone) t ht).attempt_bind (fun _ h => nomatch h)
      (fun outcome => Steady.abreast ?_) ?_
    · exact .bind (.modify (fun _ => rfl) (fun _ h => h) fun _ => .of_eq rfl rfl) fun _ =>
        .ofExcept _
    · intro m t o u h
      cases h
      exact ⟨rfl, rfl, rfl, rfl, rfl, rfl, rfl⟩
  have hs' : IsStrict { s with store := s.store.detach.2 } := hs
  exact (hbody _ hs').of_start (fun _ => rfl) (fun _ => rfl) (.of_eq rfl rfl)

/-- A call: a host function is the same in both sessions, and a function of the script runs its body
as a source. -/
theorem callFunction_abreast (name : String) (args : List Value) :
    Abreast run none fun run => callFunction run name args := by
  intro s hs
  refine .get_bind ?_ rfl
  cases s.functions.get? name with
  | none => exact Abreast.throw _ s hs
  | some f =>
    refine AbreastAt.bind ((Steady.forM report_steady _).abreast s hs) fun _ => ?_
    cases f.body with
    | native native => exact .ofExcept _
    | source code => exact runProtected_abreast htame _ _ _

/-- What a session offers to formulas goes side by side. -/
theorem host_abreast : Host.Abreast run host :=
  ⟨fun path => (readVariable_steady path).abreast, callFunction_abreast htame⟩

/-- A formula that is evaluated in a session. -/
theorem evaluateWith_abreast (src : String) : Abreast run none fun run => evaluateWith run src :=
  Formula.evaluate_abreast (host_abreast htame) src

omit htame in
/-- **A source that cannot be loaded** is an error for both. The strict session passes it on, the
lenient one goes on with `false`. -/
theorem refuseSource_abreast (id reason : String) :
    Abreast run (some (.bool false)) fun _ => refuseSource id reason := by
  intro s hs
  let m :=
    s.message .error (some (ScriptError.load id reason).kind) (ScriptError.load id reason).text
  have hstrict : (refuseSource id reason).runFrom s = .ok (.error (.raised m), s.logged m) := by
    change Except.ok (settle s.settings (.error (.raised m)), s.logged m) = _
    have hthrow : s.settings.throwErrors = true := hs
    rw [settle, if_pos hthrow]
  have hlenient : (refuseSource id reason).runFrom s.lenient =
      .ok (.ok (.bool false), (s.logged m).lenient) := rfl
  constructor
  · intro o t hrun
    rw [hstrict] at hrun
    cases hrun
    exact .inl ⟨.ok (.bool false), .inr ⟨m, .bool false, rfl, rfl, rfl⟩, hs, fun _ _ =>
      ⟨hstrict, hlenient⟩⟩
  · intro p t hrun
    have hrun' := hlenient.symm.trans hrun
    cases hrun'
    exact ⟨s.logged m, hs, rfl, .logged s m⟩

/-- An import. It runs what the loader finds, and if nothing is found, only the strict session
fails. -/
theorem loadSource_abreast (id : String) :
    Abreast run (some (.bool false)) fun run => loadSource run id := by
  intro s hs
  refine .get_bind ?_ rfl
  cases s.loader with
  | none => exact refuseSource_abreast _ _ s hs
  | some load =>
    dsimp only
    cases load id with
    | text code => exact (source_abreast htame code (some id)).spared s hs
    | missing reason => exact refuseSource_abreast _ _ s hs
    | unread path => exact Abreast.stop _ s hs

/-! ## Statements -/

/-- An initial value, or null without a formula. -/
theorem initialValue_abreast (src : Option String) :
    Abreast run none fun run => initialValue run src := by
  cases src with
  | none => exact .pure _
  | some src => exact evaluateWith_abreast htame src

/-- A variable is declared with its initial value, or the failure is dealt with. -/
theorem declareItem_abreast (lifetime : Lifetime) (item : Assignment) :
    Abreast run none fun run => declareItem run lifetime item := by
  refine .bind (initialValue_abreast htame item.init) fun v => Steady.abreast ?_
  refine .attempt_bind (updateStore_steady _) fun outcome => ?_
  rcases outcome with e | u
  · exact recover_steady e
  · exact .pure ()

/-- An assignment: the formula, then the old value, then the write. -/
theorem assign_abreast (path : String) (mode : AssignMode) (src : String) :
    Abreast run none fun run => assign run path mode src := by
  intro s hs
  refine .get_bind (Abreast.ite (.throw _) ?_ s hs) rfl
  refine .bind (evaluateWith_abreast htame src) fun rhs => Steady.abreast ?_
  exact .bind (currentValue_steady path mode) fun current =>
    .bind (.ofExcept _) fun v => updateStore_steady _

/-- The bounds of a counting loop are evaluated one after another, and its counter is bound. -/
theorem openCount_abreast (name start stop : String) (step : Option String) :
    Abreast run none fun run => openCount run name start stop step := by
  refine .bind (evaluateWith_abreast htame start) fun first => ?_
  refine .bind (evaluateWith_abreast htame stop) fun last => ?_
  have hopen (width : Float) : Abreast run none fun _ =>
      (if width == 0.0 || width.isNaN then throw .invalidStep else do
        let low := first.toNumber
        let high := last.toNumber
        let signed := if low < high then width else if high < low then -width else 0.0
        updateStore fun st => st.bind name (.number low) .localScope
        pure ⟨name, high, signed⟩ : Action Session ForRange) :=
    (Steady.ite (.throw _) (.bind (updateStore_steady _) fun _ => .pure _)).abreast
  cases step with
  | none => exact .bind (.pure _) hopen
  | some src => exact .bind (evaluateWith_abreast htame src) fun v => .bind (.pure _) hopen

/-- The defaults of the parameters are evaluated one after another. -/
theorem prepareCapture_abreast (name : String) (params : Option String) :
    Abreast run none fun run => prepareCapture run name params := by
  intro s hs
  refine .get_bind (Abreast.ite (.throw _) ?_ s hs) rfl
  refine .bind (.ofExcept _) fun items => .foldlM (fun capture item => ?_) items _
  unfold addParameter
  cases item.init with
  | none => exact .pure _
  | some src => exact .bind (evaluateWith_abreast htame src) fun v => .pure _

/-- **Simple statements.** Only an import may be spared an error.

**Proof sketch.** By cases over the statements; each is a chain of binds, and the lemmas about
formulas, calls, declarations and sources are its links. What cannot fail or run a source is
`Steady`. -/
theorem runSimple_abreast (st : Statement) :
    Abreast run (some .next) fun run => runSimple run st := by
  cases st with
  | giveBack src => exact .bind (initialValue_abreast htame src) fun v => .pure _
  | echo src =>
    exact .bind (evaluateWith_abreast htame src) fun v =>
      (Steady.bind (echo_steady _) fun _ => .pure _).abreast
  | eval src =>
    refine .bind (evaluateWith_abreast htame src) fun v s hs => .get_bind ?_ rfl
    exact .bind (source_abreast htame _ _ s hs) fun _ => .pure _
  | load src =>
    refine .bind (evaluateWith_abreast htame src) fun v s hs => ?_
    exact (loadSource_abreast htame v.text s hs).map fun _ => Flow.next
  | enterNamespace src =>
    cases src with
    | none => exact (Steady.bind (enter_steady none) fun _ => .pure _).abreast
    | some src =>
      exact .bind (evaluateWith_abreast htame src) fun v =>
        (Steady.bind (enter_steady (some v.text)) fun _ => .pure _).abreast
  | declare lifetime list =>
    exact .bind (.ofExcept _) fun items =>
      .bind (.forM (declareItem_abreast htame lifetime) items) fun _ => .pure _
  | set path mode src => exact .bind (assign_abreast htame path mode src) fun _ => .pure _
  | call name args =>
    cases args with
    | none => exact .bind (callFunction_abreast htame name []) fun _ => .pure _
    | some args =>
      exact .bind (Formula.evaluateList_abreast (host_abreast htame) args) fun vs =>
        .bind (callFunction_abreast htame name vs) fun _ => .pure _
  | _ => exact .pure _

end

end Session

namespace Activation

/-- A source that is run is strict or lenient with its session. -/
instance : Lenience Activation :=
  ⟨Activation.session, fun a => { a with session := a.session.lenient }⟩

/-! ## Sources being run -/

/-- An action on the session that runs no sources. -/
theorem onSession_steady {α : Type} {act : Action Session α} (h : Steady act) :
    Steady (onSession act) := by
  intro a ha
  obtain ⟨o, s, hact, hlenient, hs, hext⟩ := h a.session ha
  exact ⟨o, { a with session := s }, Action.runFrom_zoom_eq_ok.2 ⟨s, hact, rfl⟩,
    Action.runFrom_zoom_eq_ok.2 ⟨s.lenient, hlenient, rfl⟩, hs, hext⟩

/-- An action on the session goes side by side if it does so from that session.

**Proof sketch.** An action on the session leaves the rest of the activation as it is, so that each
clause about activations is the clause about their sessions, with the same stack and cursor around
them. -/
theorem onSession_abreast {α : Type} {run : SourceRunner} {spare : Option α}
    {act : SourceRunner → Action Session α} (h : Abreast run spare act) :
    Abreast run spare fun run => onSession (act run) := by
  intro a ha
  have hstop {act : Action Session α} {b : Activation} {reason : Stop}
      (hact : act.runFrom b.session = .error reason) :
      (onSession act).runFrom b = .error reason := by
    rw [onSession, Action.runFrom_zoom, hact]
  constructor
  · intro o b hrun
    obtain ⟨s, hact, rfl⟩ := Action.runFrom_zoom_eq_ok.1 hrun
    rcases (h a.session ha).ends o s hact with ⟨o', hmatched, htogether⟩ | ⟨q, m, w, hpasses⟩
    · refine .inl ⟨o', hmatched, htogether.isStrict, fun run' hcalm => ?_⟩
      obtain ⟨hstrict, hlenient⟩ := htogether.ends run' hcalm
      exact ⟨Action.runFrom_zoom_eq_ok.2 ⟨s, hstrict, rfl⟩,
        Action.runFrom_zoom_eq_ok.2 ⟨s.lenient, hlenient, rfl⟩⟩
    · refine .inr ⟨q, m, w, hpasses.isStrict, hpasses.raised, hpasses.outcome, hpasses.unwound,
        fun run' reason hcalm hanswer => hstop (hpasses.stops run' reason hcalm hanswer),
        fun run' reason hcalm hanswer => hstop (hpasses.stops_lenient run' reason hcalm hanswer),
        fun p b hlenient => ?_⟩
      obtain ⟨t, ht, rfl⟩ := Action.runFrom_zoom_eq_ok.1 hlenient
      obtain ⟨r, u, hanswer, t', hstrict, rfl, hext⟩ := hpasses.goesOn p t ht
      exact ⟨r, u, hanswer, { a with session := t' }, hstrict, rfl, hext⟩
  · intro p b hlenient
    obtain ⟨t, ht, rfl⟩ := Action.runFrom_zoom_eq_ok.1 hlenient
    obtain ⟨t', hstrict, rfl, hext⟩ := (h a.session ha).grows p t ht
    exact ⟨{ a with session := t' }, hstrict, rfl, hext⟩

/-- The open blocks are changed, whatever the session. -/
theorem modifyBlocks_steady (f : BlockStack → BlockStack) :
    Steady (modify fun a : Activation => { a with blocks := f a.blocks }) :=
  .modify (fun _ => rfl) (fun _ h => h) fun _ => .of_eq rfl rfl

/-- A change of the current frame. -/
theorem modifyFrame_steady (f : Frame → Frame) : Steady (modifyFrame f) :=
  modifyBlocks_steady fun blocks => blocks.modifyCurrent f

/-- A function begins to be gathered. -/
theorem beginCapture_steady (capture : Capture) (header : Nat) :
    Steady (beginCapture capture header) :=
  modifyBlocks_steady fun blocks => blocks.beginCapture capture header

/-- A block is entered. -/
theorem enter_steady (kind : BlockKind) (header : Nat) : Steady (enter kind header) :=
  fun a ha => ⟨_, { a with blocks := (a.blocks.enter kind header).2 }, rfl, rfl, ha, .of_eq rfl rfl⟩

/-- The last branch of a block looks at the open blocks alone. -/
theorem lastBranch_steady : Steady lastBranch := by
  refine .get_bind (fun a => ?_) fun a => rfl
  exact .bind (.ofExcept _) fun _ => modifyFrame_steady _

/-- An end looks at the open blocks alone. -/
theorem close_steady : Steady close := by
  intro a ha
  have hblocks : (Lenience.lenient a).blocks = a.blocks := rfl
  unfold close
  rw [Action.runFrom_get_bind, Action.runFrom_get_bind, hblocks]
  rcases a.blocks.close with e | ⟨jump, blocks⟩
  · exact ⟨.error e, a, rfl, rfl, ha, .refl _⟩
  · cases jump with
    | none => exact ⟨.ok .next, { a with blocks := blocks }, rfl, rfl, ha, .of_eq rfl rfl⟩
    | some line =>
      exact ⟨.ok (.jump line), { a with blocks := blocks }, rfl, rfl, ha, .of_eq rfl rfl⟩

/-- A line is gathered. If it ends the function, the definition may fail, and that failure is dealt
with. -/
theorem gatherLine_steady (line : String) : Steady (gatherLine line) := by
  intro a ha
  have hblocks : (Lenience.lenient a).blocks = a.blocks := rfl
  have ha' : (Lenience.session { a with blocks := (a.blocks.captureLine line).2 }).IsStrict := ha
  unfold gatherLine
  rw [Action.runFrom_get_bind, Action.runFrom_get_bind, hblocks]
  dsimp only
  rw [Action.runFrom_set_bind, Action.runFrom_set_bind]
  cases (a.blocks.captureLine line).1 with
  | none => exact Steady.pure () { a with blocks := (a.blocks.captureLine line).2 } ha'
  | some capture =>
    refine Steady.attempt_bind (onSession_steady (Session.defineCaptured_steady capture))
      (fun outcome => ?_) { a with blocks := (a.blocks.captureLine line).2 } ha'
    rcases outcome with e | u
    · exact onSession_steady (Session.recover_steady e)
    · exact .pure ()

/-- The end of a source is an error if a block is open there. -/
theorem finish_steady : Steady finish := by
  refine .get_bind (fun a => ?_) fun a => rfl
  exact .ite (onSession_steady (Session.raise_steady _)) (.pure _)

section

variable {run : SourceRunner} (htame : Tame run)

include htame

/-! ## Headers of blocks -/

/-- A condition, and what is done with its value. -/
theorem condition_abreast (condition : String) (f : Value → Frame → Frame) :
    Abreast run none fun run => (do
      let v ← onSession (Session.evaluateWith run condition)
      modifyFrame (f v)) :=
  .bind (onSession_abreast (Session.evaluateWith_abreast htame condition)) fun v =>
    (modifyFrame_steady (f v)).abreast

/-- A branching block: its condition is evaluated if the block around it is active. -/
theorem openBranch_abreast (condition : String) (header : Nat) :
    Abreast run none fun run => openBranch run condition header :=
  .bind (enter_steady _ _).abreast fun _ => .ite (condition_abreast htame condition _) (.pure _)

/-- A further branch: its condition is evaluated if no branch was taken. -/
theorem continueBranch_abreast (condition : String) :
    Abreast run none fun run => continueBranch run condition := by
  intro a ha
  refine .get_bind ?_ rfl
  exact AbreastAt.bind ((Steady.ofExcept _).abreast a ha) fun _ =>
    .ite (condition_abreast htame condition _) (modifyFrame_steady _).abreast

/-- A conditional loop: its condition is evaluated in every round. -/
theorem openLoop_abreast (condition : String) (header : Nat) :
    Abreast run none fun run => openLoop run condition header :=
  .bind (enter_steady _ _).abreast fun _ => .ite (condition_abreast htame condition _) (.pure _)

/-- A counting loop: in the first round its bounds are evaluated, in later ones the counter moves
on. -/
theorem openCount_abreast (name start stop : String) (step : Option String) (header : Nat) :
    Abreast run none fun run => openCount run name start stop step header := by
  refine .bind (enter_steady _ _).abreast fun entry => .ite (.ite (Steady.abreast ?_) ?_) (.pure _)
  · refine .get_bind (fun a => ?_) fun a => rfl
    split
    · exact .bind (onSession_steady (Session.advanceCount_steady _)) fun _ => modifyFrame_steady _
    · exact .throw _
  · exact .bind (onSession_abreast (Session.openCount_abreast htame name start stop step)) fun _ =>
      (modifyFrame_steady _).abreast

/-- A loop over a collection: the collection is evaluated in every round, then the next value is
bound. -/
theorem openEach_abreast (name src : String) (header : Nat) :
    Abreast run none fun run => openEach run name src header := by
  refine .bind (enter_steady _ _).abreast fun entry => .ite ?_ (.pure _)
  refine .bind (onSession_abreast (Session.evaluateWith_abreast htame src)) fun v =>
    Steady.abreast ?_
  split
  · refine .get_bind (fun a => .bind (modifyFrame_steady _) fun _ => ?_) fun a => rfl
    split
    · exact .pure _
    · exact .bind (onSession_steady (Session.updateStore_steady _)) fun _ => modifyFrame_steady _
  · exact .throw _

/-- The header of a function. If its parameters fail, its lines are gathered nevertheless, and then
the failure is passed on. -/
theorem openFunction_abreast (name : String) (params : Option String) (header : Nat) :
    Abreast run none fun run => openFunction run name params header := by
  intro a ha
  refine .get_bind (Abreast.ite (fun a ha => ?_) (beginCapture_steady _ _).abreast a ha) rfl
  refine (onSession_abreast (Session.prepareCapture_abreast htame _ params) a ha).attempt_bind
    (fun _ h => nomatch h) (fun outcome => Steady.abreast ?_) ?_
  · rcases outcome with e | capture
    · exact .bind (beginCapture_steady _ _) fun _ => .throw e
    · exact beginCapture_steady _ _
  · intro m t o u h
    cases h
    exact ⟨rfl, .refl _⟩

/-! ## Steps -/

/-- **A statement.** Only an import may be spared an error, and then the run goes on to the next
line. -/
theorem runStatement_abreast (index : Nat) (st : Statement) :
    Abreast run (some .next) fun run => runStatement run index st := by
  have hsimple : Abreast run (some .next) fun run => (do
      let a ← get
      if a.blocks.active then onSession (Session.runSimple run st) else pure .next) := by
    intro a ha
    exact .get_bind (Abreast.ite (onSession_abreast (Session.runSimple_abreast htame st))
      (.pure _) a ha) rfl
  cases st with
  | branch condition => exact .bind (openBranch_abreast htame condition index) fun _ => .pure _
  | otherwiseIf condition => exact .bind (continueBranch_abreast htame condition) fun _ => .pure _
  | otherwise => exact .bind lastBranch_steady.abreast fun _ => .pure _
  | loop condition => exact .bind (openLoop_abreast htame condition index) fun _ => .pure _
  | count name start stop step =>
    exact .bind (openCount_abreast htame name start stop step index) fun _ => .pure _
  | each name src => exact .bind (openEach_abreast htame name src index) fun _ => .pure _
  | function name params =>
      exact .bind (openFunction_abreast htame name params index) fun _ => .pure _
  | close => exact close_steady.abreast
  | _ => exact hsimple

/-- A failure is dealt with on its line. One that was raised is passed on. -/
theorem runOutside_abreast (index : Nat) (line : String) :
    Abreast run (some none) fun run => runOutside run index line := by
  intro a ha
  have hline : AbreastAt run (some .next) a fun run => runLine run index line :=
    AbreastAt.bind ((Steady.ofExcept _).abreast a ha) (runStatement_abreast htame index)
  refine hline.attempt_bind ?_ (fun outcome => Steady.abreast ?_) ?_
  · rintro flow ⟨⟩
    exact ⟨none, rfl, fun run t => ⟨fun m => rfl, rfl⟩⟩
  · rcases outcome with e | (_ | header | v)
    · exact .bind (onSession_steady (Session.recover_steady e)) fun _ => .pure _
    · exact .pure _
    · exact .bind (.modify (fun _ => rfl) (fun _ h => h) fun _ => .of_eq rfl rfl) fun _ => .pure _
    · exact .pure _
  · intro m t o u h
    cases h
    exact ⟨rfl, .refl _⟩

/-- **One step** goes side by side. If a source cannot be loaded, the lenient step goes on to the
next line. -/
theorem step_abreast (lines : Array String) :
    Abreast run (some none) fun run => step run lines := by
  rintro ⟨s, blocks, i⟩ hs
  rcases hline : lines[i]?.map Text.trim with _ | line
  · have hnone : lines[i]? = none := Option.map_eq_none_iff.1 hline
    exact (finish_steady.abreast ⟨s, blocks, i⟩ hs).of_start (fun _ => runFrom_step_of_none hnone)
      (fun _ => runFrom_step_of_none hnone) (.refl _)
  · have hstart : (Lenience.session (Activation.mk (s.atLine (i + 1)) blocks (i + 1))).IsStrict :=
      hs
    refine AbreastAt.of_start ?_ (fun run => runFrom_step hline run s blocks)
      (fun run => runFrom_step hline run s.lenient blocks) (.of_eq rfl rfl)
    refine Abreast.ite ?_ (.ite (.pure _) (runOutside_abreast htame i line)) _ hstart
    exact .bind (gatherLine_steady line).abreast fun _ => .pure _

end

end Activation

end LineScript
