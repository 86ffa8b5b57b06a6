import LineScript.ScriptError

set_option relaxedAutoImplicit false
set_option autoImplicit false

/-!
# Actions

Evaluating a formula or running a statement changes a state and may fail. A failure keeps the
changes made before it. Apart from failing, an action may *stop* without an answer: because the
bound on its steps is used up, or because it needs the text of a file that has not been supplied.

## Main definitions

* `LineScript.Stop` — why there is no answer.
* `LineScript.Action` — computations over a state.
* `LineScript.Action.ofExcept`, `LineScript.Action.stop`, `LineScript.Action.attempt` — an outcome
  known beforehand, stopping, and an action whose failure is handed on as a value.
* `LineScript.Action.zoom` — an action on a part of the state.

## Main results

* `LineScript.Action.runFrom_bind`, `LineScript.Action.runFrom_attempt`,
  `LineScript.Action.runFrom_zoom` — what a composed action does from a state.
-/

namespace LineScript

/-- Why an action has no answer. -/
inductive Stop where
  | outOfSteps
  | awaiting (path : String)
  deriving Repr, DecidableEq

/-- A computation over a state `σ` that gives an `α`, fails, or stops. -/
abbrev Action (σ α : Type) : Type :=
  ExceptT ScriptError (StateT σ (Except Stop)) α

namespace Action

variable {σ τ α β : Type}

/-- The action that starts in state `s`. -/
def runFrom (act : Action σ α) (s : σ) : Except Stop (Except ScriptError α × σ) :=
  (ExceptT.run act).run s

/-- The outcome, with the state as it is. -/
def ofExcept (outcome : Except ScriptError α) : Action σ α :=
  ExceptT.mk (pure outcome)

/-- No answer. -/
def stop (reason : Stop) : Action σ α :=
  ExceptT.mk fun _ => .error reason

/-- The outcome of an action as a value. -/
def attempt (act : Action σ α) : Action σ (Except ScriptError α) :=
  ExceptT.mk do
    let outcome ← ExceptT.run act
    pure (.ok outcome)

/-- An action on the part `get s` of the state, which `put` writes back. -/
def zoom (get : τ → σ) (put : σ → τ → τ) (act : Action σ α) : Action τ α :=
  ExceptT.mk fun t =>
    match act.runFrom (get t) with
    | .error reason => .error reason
    | .ok (outcome, s) => .ok (outcome, put s t)

/-- An answer alone leaves the state as it is. -/
@[simp]
theorem runFrom_pure (a : α) (s : σ) : (pure a : Action σ α).runFrom s = .ok (.ok a, s) := rfl

/-- A raised error leaves the state as it is. -/
@[simp]
theorem runFrom_throw (e : ScriptError) (s : σ) :
    (throw e : Action σ α).runFrom s = .ok (.error e, s) := rfl

/-- Looking at the state answers with it and changes nothing. -/
@[simp]
theorem runFrom_get (s : σ) : (get : Action σ σ).runFrom s = .ok (.ok s, s) := rfl

/-- A new state takes the place of the old one. -/
@[simp]
theorem runFrom_set (t s : σ) : (set t : Action σ Unit).runFrom s = .ok (.ok (), t) := rfl

/-- A change of the state is made once, and has no answer of interest. -/
@[simp]
theorem runFrom_modify (f : σ → σ) (s : σ) :
    (modify f : Action σ Unit).runFrom s = .ok (.ok (), f s) := rfl

/-- An outcome that is already known is passed on, and the state is left as it is. -/
@[simp]
theorem runFrom_ofExcept (outcome : Except ScriptError α) (s : σ) :
    (ofExcept outcome : Action σ α).runFrom s = .ok (outcome, s) := rfl

/-- An action that is stopped has neither an outcome nor a state. -/
@[simp]
theorem runFrom_stop (reason : Stop) (s : σ) :
    (stop reason : Action σ α).runFrom s = .error reason := rfl

/-- One action after another: the second starts in the state that the first left, unless the first
failed or stopped. -/
theorem runFrom_bind (act : Action σ α) (next : α → Action σ β) (s : σ) :
    (act >>= next).runFrom s =
      match act.runFrom s with
      | .error reason => .error reason
      | .ok (.error e, t) => .ok (.error e, t)
      | .ok (.ok a, t) => (next a).runFrom t := by
  change ((ExceptT.run act).run s >>= _) = _
  unfold runFrom
  cases (ExceptT.run act).run s with
  | error reason => rfl
  | ok result =>
    obtain ⟨outcome, t⟩ := result
    cases outcome <;> rfl

/-- An attempt leaves the state that the action left, and does not fail. -/
theorem runFrom_attempt (act : Action σ α) (s : σ) :
    (attempt act).runFrom s =
      match act.runFrom s with
      | .error reason => .error reason
      | .ok (outcome, t) => .ok (.ok outcome, t) := by
  change ((ExceptT.run act).run s >>= _) = _
  unfold runFrom
  cases (ExceptT.run act).run s <;> rfl

/-- An action on a part of the state changes that part only. -/
theorem runFrom_zoom (get : τ → σ) (put : σ → τ → τ) (act : Action σ α) (t : τ) :
    (zoom get put act).runFrom t =
      match act.runFrom (get t) with
      | .error reason => .error reason
      | .ok (outcome, s) => .ok (outcome, put s t) := rfl

end Action

end LineScript
