import LineScript.Proofs.Formula.Evaluation
import LineScript.Proofs.Session.Basic
import LineScript.Proofs.Store
import LineScript.Session.Run

set_option relaxedAutoImplicit false
set_option autoImplicit false

/-!
# The local variables of a caller

Evaluating a formula and calling a function leave the local variables as they are, whatever the
bodies of the called functions do and however they end: a body never sees the local variables of its
caller, which are put back over all that the body has left.

## Main definitions

* `LineScript.Session.KeepsLocals` — two sessions with the same local variables.
* `LineScript.Session.enterBody` — what happens in a call before the body runs.

## Main results

* `LineScript.Session.callFunction_keepsLocals`, `LineScript.Session.evaluateWith_keepsLocals` —
  calls and formulas keep the local variables, however sources are run.
* `LineScript.Session.exists_left_of_callFunction` — a call of a function with a source body, cut
  into entering, running and restoring.
* `LineScript.Session.evaluate_and_call_frame` — all of it for the host of a session.
-/

namespace LineScript.Session

open LineScript.Action (Along)

/-- The local variables are the same, with their values. -/
def KeepsLocals (s t : Session) : Prop :=
  ∀ name, t.store.local? name = s.store.local? name

/-- Keeping the local variables is reflexive and transitive. -/
instance : IsPreorder Session KeepsLocals where
  refl _ _ := rfl
  trans _ _ _ hst htu name := (htu name).trans (hst name)

/-- The variables are the same. -/
def SameStore (s t : Session) : Prop :=
  t.store = s.store

/-- Having the same variables is reflexive and transitive. -/
instance : IsPreorder Session SameStore where
  refl _ := rfl
  trans _ _ _ hst htu := Eq.trans htu hst

/-- A session with the same variables has kept the local ones. -/
theorem SameStore.keepsLocals {s t : Session} (h : SameStore s t) : KeepsLocals s t := by
  intro name
  rw [show t.store = s.store from h]

/-! ## Logging and reading -/

/-- A message leaves the variables. -/
theorem record_sameStore (level : Level) (kind : Option ErrorKind) (text : String) :
    Along SameStore (record level kind text) := by
  intro s o t h
  cases h
  rfl

/-- A report leaves the variables. -/
theorem report_sameStore (e : ScriptError) : Along SameStore (report e) :=
  .bind (record_sameStore _ _ _) fun _ => .pure ()

/-- Reading a variable leaves the variables. -/
theorem readVariable_sameStore (path : String) : Along SameStore (readVariable path) := by
  refine .get_bind fun s => ?_
  split
  · exact .pure _
  · split
    · exact .bind (report_sameStore _) fun _ => .pure _
    · exact .throw _

/-! ## Calls -/

/-- What happens in a call before the body runs: parameters without a value are logged, the local
variables are hidden, and the parameters become local variables. -/
def enterBody (f : Function) (args : List Value) : Action Session Unit := do
  (f.bind args).2.forM report
  modify fun s => { s with store := s.store.withoutLocals }
  (f.bind args).1.forM bindParameter

/-- **A call with a source body.** The body runs in the session that entering it gives; afterwards
the local variables of the caller are restored over what the body left.

**Proof sketch.** The call is unfolded step by step: the reports about the arguments leave the store
alone, the local variables are put aside, the parameters are bound, which gives `entry`, and the
body is run. Whether it fails or not, the local variables are then restored. -/
theorem exists_left_of_callFunction {run : SourceRunner} {name code : String} {args : List Value}
    {f : Function} {s t : Session} {o : Except ScriptError Value}
    (hf : s.functions.get? name = some f) (hbody : f.body = .source code)
    (h : (callFunction run name args).runFrom s = .ok (o, t)) :
    ∃ entry left, (enterBody f args).runFrom s = .ok (.ok (), entry) ∧
      (run code (some (ScriptError.braced name))).runFrom entry = .ok (o, left) ∧
      t = { left with store := left.store.restore s.store.locals } := by
  obtain ⟨r, hr, hstore⟩ := exists_runFrom_forM_report (f.bind args).2 s
  obtain ⟨entry, hentry⟩ := exists_runFrom_forM_bindParameter (f.bind args).1
    { r with store := r.store.withoutLocals }
  have henter : (enterBody f args).runFrom s = .ok (.ok (), entry) := by
    unfold enterBody
    rw [Action.runFrom_bind, hr]
    simp only
    rw [Action.runFrom_modify_bind, hentry]
  unfold callFunction at h
  rw [Action.runFrom_get_bind, hf] at h
  simp only [hbody] at h
  rw [Action.runFrom_bind, hr] at h
  unfold runProtected at h
  simp only [Action.runFrom_get_bind, Store.detach] at h
  rw [Action.runFrom_set_bind, Action.runFrom_bind, hentry] at h
  simp only [Action.runFrom_bind, Action.runFrom_attempt] at h
  rcases hrun : (run code (some (ScriptError.braced name))).runFrom entry with reason | ⟨p, left⟩
  · rw [hrun] at h
    cases h
  · rw [hrun] at h
    simp only [Action.runFrom_modify, Action.runFrom_ofExcept] at h
    cases h
    exact ⟨entry, left, henter, hrun, by rw [hstore]⟩

/-- A call keeps the local variables, however sources are run. -/
theorem callFunction_keepsLocals (run : SourceRunner) (name : String) (args : List Value) :
    Along KeepsLocals (callFunction run name args) := by
  intro s o t h
  cases hf : s.functions.get? name with
  | none =>
    unfold callFunction at h
    rw [Action.runFrom_get_bind, hf] at h
    cases h
    exact refl_of KeepsLocals s
  | some f =>
    cases hbody : f.body with
    | source code =>
      obtain ⟨entry, left, -, -, rfl⟩ := exists_left_of_callFunction hf hbody h
      exact Store.local?_restore left.store s.store
    | native native =>
      unfold callFunction at h
      rw [Action.runFrom_get_bind, hf] at h
      simp only [hbody] at h
      obtain ⟨r, hr, hstore⟩ := exists_runFrom_forM_report (f.bind args).2 s
      rw [Action.runFrom_bind, hr] at h
      cases h
      exact SameStore.keepsLocals hstore

/-- A formula keeps the local variables, however sources are run. -/
theorem evaluateWith_keepsLocals (run : SourceRunner) (src : String) :
    Along KeepsLocals (evaluateWith run src) :=
  Formula.evaluate_along
    (fun path s o t h => (readVariable_sameStore path s o t h).keepsLocals)
    (callFunction_keepsLocals run) src

/-! ## The frame of a caller -/

/-- **The frame of a caller.** Whenever a formula or a call comes back, with a value or with a
failure, the local variables are what they were. After the call of a function with a source body,
any other name has exactly what the body left there as a global variable or constant.

**Proof sketch.** The first part holds of calls because the stash is written over the store
(`callFunction_keepsLocals`), and of formulas because they touch the session by reads and calls only
(`evaluateWith_keepsLocals`). The second part is the look-up after restoring, at the end of the body
(`exists_left_of_callFunction`). -/
theorem evaluate_and_call_frame (steps : Nat) (s : Session) :
    (∀ src o t, (evaluate steps src).runFrom s = .ok (o, t) → KeepsLocals s t) ∧
    ∀ name args o t, (call steps name args).runFrom s = .ok (o, t) →
      KeepsLocals s t ∧
      ∀ f code, s.functions.get? name = some f → f.body = .source code →
        ∃ entry left, (enterBody f args).runFrom s = .ok (.ok (), entry) ∧
          (runner steps code (some (ScriptError.braced name))).runFrom entry = .ok (o, left) ∧
          ∀ other, s.store.local? other = none → ∀ found,
            t.store.find? other = some found ↔
              left.store.find? other = some found ∧ found.lifetime ≠ .localScope := by
  refine ⟨fun src => evaluateWith_keepsLocals (runner steps) src s, fun name args o t h => ?_⟩
  refine ⟨callFunction_keepsLocals (runner steps) name args s o t h, fun f code hf hbody => ?_⟩
  obtain ⟨entry, left, hentry, hleft, rfl⟩ := exists_left_of_callFunction hf hbody h
  refine ⟨entry, left, hentry, hleft, fun other hother found => ?_⟩
  rw [Store.find?_restore_of_local?_eq_none hother, Option.filter_eq_some_iff]
  simp

/-- A function that declares a global variable `x` and a constant `c`. -/
def hidingFunction : Function :=
  { name := "f", params := [], body := .source "global $x\nconst $c" }

/-- A session with the function `f` and a local variable `x`. -/
def hidingSession : Session :=
  { store := Store.empty.write "x" ⟨.bool true, .localScope⟩
    functions := ⟨[("f", hidingFunction)]⟩ }

/-- The call of `f` comes back with the local variable `x` of its caller, and with the constant that
its body left. -/
theorem evaluate_and_call_frame_hidingSession :
    ∃ o t, (call 5 "f" []).runFrom hidingSession = .ok (o, t) ∧ KeepsLocals hidingSession t ∧
      (t.store.lifetime? "x" = some .localScope ∧ t.store.lifetime? "c" = some .constant) ∧
      ∃ entry left, (runner 5 "global $x\nconst $c" (some "\x7bf\x7d")).runFrom entry =
          .ok (o, left) ∧
        ∀ found, t.store.find? "c" = some found ↔
          left.store.find? "c" = some found ∧ found.lifetime ≠ .localScope := by
  have hlifetimes : ((call 5 "f" []).runFrom hidingSession).toOption.map
      (fun r => (r.2.store.lifetime? "x", r.2.store.lifetime? "c")) =
        some (some .localScope, some .constant) := by decide +kernel
  rcases hrun : (call 5 "f" []).runFrom hidingSession with reason | ⟨o, t⟩
  · rw [hrun] at hlifetimes
    cases hlifetimes
  · rw [hrun] at hlifetimes
    obtain ⟨hx, hc⟩ := Prod.mk.inj (Option.some.inj hlifetimes)
    obtain ⟨hkeep, hbody⟩ := (evaluate_and_call_frame 5 hidingSession).2 "f" [] o t hrun
    obtain ⟨entry, left, -, hleft, hnames⟩ := hbody hidingFunction _ rfl rfl
    exact ⟨o, t, rfl, hkeep, ⟨hx, hc⟩, entry, left, hleft, hnames "c" rfl⟩

end LineScript.Session
