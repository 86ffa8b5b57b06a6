import LineScript.Formula.Evaluation
import LineScript.Proofs.Action
import LineScript.Proofs.Causes

set_option relaxedAutoImplicit false
set_option autoImplicit false

/-!
# Conditions upheld while errors pass

An error that was raised passes outwards through everything that is under way, until it is dealt
with or reaches the end of the run. What is said of a state in the meantime depends on the error
that is on its way there. An action *upholds* such a condition if, begun with an error on its way or
with none, it leaves a state for which the condition holds with the error that the action itself
passes on.

## Main definitions

* `LineScript.Action.Upholds` — an action that upholds a condition.
* `LineScript.Host.Upholds` — a host whose reading and calling do.

## Main results

* `LineScript.Action.Upholds.bind`, `LineScript.Action.Upholds.attempt_bind`, … — upholding passes
  from parts to wholes.
* `LineScript.Formula.evaluate_upholds` — evaluation upholds what reading variables and calling
  functions uphold.
-/

namespace LineScript

variable {σ : Type} {I : Option Message → σ → Prop} {pending : Option Message}

/-! ## Actions -/

namespace Action

variable {α β : Type}

/-- From every state for which `I` holds with the error `pending` on its way, the action leaves a
state for which `I` holds with the error that it passes on. -/
def Upholds (I : Option Message → σ → Prop) (pending : Option Message) (act : Action σ α) : Prop :=
  ∀ s, I pending s → ∀ o t, act.runFrom s = .ok (o, t) → I (raisedIn? o) t

namespace Upholds

/-- The error on its way is passed on as it is. -/
theorem ofExcept {outcome : Except ScriptError α} (h : raisedIn? outcome = pending) :
    Upholds I pending (ofExcept outcome) := by
  intro s hs o t hrun
  cases hrun
  rw [h]
  exact hs

/-- An answer alone. -/
theorem pure (a : α) : Upholds I none (pure a) := by
  have hok : raisedIn? (.ok a) = none := rfl
  exact ofExcept hok

/-- An error that is on its way, or a failure that was not raised. -/
theorem throw {e : ScriptError} (h : e.raised? = pending) :
    Upholds I pending (throw e : Action σ α) := by
  have herror : raisedIn? (.error e : Except ScriptError α) = pending := h
  exact ofExcept herror

/-- Nothing is left where the action stops. -/
theorem stop (reason : Stop) : Upholds I pending (stop reason : Action σ α) := by
  intro s hs o t hrun
  cases hrun

/-- One action after another: the second begins with no error on its way. -/
theorem bind {act : Action σ α} {next : α → Action σ β} (h : Upholds I pending act)
    (hnext : ∀ a, Upholds I none (next a)) : Upholds I pending (act >>= next) := by
  intro s hs o u hrun
  rcases runFrom_bind_eq_ok.1 hrun with ⟨e, he, rfl⟩ | ⟨a, t, ha, hu⟩
  · exact h s hs _ u he
  · exact hnext a t (h s hs _ t ha) o u hu

/-- After an attempt, the error that it failed with is still on its way. -/
theorem attempt_bind {act : Action σ α} {next : Except ScriptError α → Action σ β}
    (h : Upholds I pending act) (hnext : ∀ o, Upholds I (raisedIn? o) (next o)) :
    Upholds I pending (attempt act >>= next) := by
  intro s hs o u hrun
  rcases runFrom_bind_eq_ok.1 hrun with ⟨e, he, -⟩ | ⟨p, t, hp, hu⟩
  · obtain ⟨p, -, hp⟩ := runFrom_attempt_eq_ok.1 he
    cases hp
  · obtain ⟨p', hact, hp⟩ := runFrom_attempt_eq_ok.1 hp
    cases hp
    exact hnext p t (h s hs p t hact) o u hu

/-- An action whose course depends on the state it starts in. -/
theorem get_bind {next : σ → Action σ β} (h : ∀ s, I pending s → Upholds I pending (next s)) :
    Upholds I pending ((get : Action σ σ) >>= next) := by
  intro s hs o t hrun
  rw [runFrom_get_bind] at hrun
  exact h s hs s hs o t hrun

/-- The state is replaced, with the error still on its way. -/
theorem set_bind {t : σ} {next : Unit → Action σ β} (h : I pending t)
    (hnext : Upholds I pending (next ())) :
    Upholds I pending ((set t : Action σ Unit) >>= next) := by
  intro s hs o u hrun
  rw [runFrom_set_bind] at hrun
  exact hnext t h o u hrun

/-- A new state for which the condition holds. -/
theorem set {t : σ} (h : I none t) : Upholds I none (set t : Action σ Unit) := by
  intro s hs o u hrun
  cases hrun
  exact h

/-- The state is changed, with the error still on its way. -/
theorem modify_bind {f : σ → σ} {next : Unit → Action σ β} (h : ∀ s, I pending s → I pending (f s))
    (hnext : Upholds I pending (next ())) :
    Upholds I pending ((modify f : Action σ Unit) >>= next) := by
  intro s hs o u hrun
  rw [runFrom_modify_bind] at hrun
  exact hnext (f s) (h s hs) o u hrun

/-- A change of the state that keeps the condition. -/
theorem modify {f : σ → σ} (h : ∀ s, I none s → I none (f s)) :
    Upholds I none (modify f : Action σ Unit) := by
  intro s hs o u hrun
  cases hrun
  exact h s hs

/-- A choice between two actions. -/
theorem ite {c : Prop} [Decidable c] {yes no : Action σ α} (hyes : Upholds I pending yes)
    (hno : Upholds I pending no) : Upholds I pending (if c then yes else no) := by
  split
  · exact hyes
  · exact hno

/-- An attempt whose failure is dealt with while the error is on its way. -/
theorem handle {act : Action σ Unit} (h : Upholds I none act)
    {onError : ScriptError → Action σ Unit} (hError : ∀ e, Upholds I e.raised? (onError e)) :
    Upholds I none
      (do
        let outcome ← Action.attempt act
        match outcome with
        | .ok () => Pure.pure ()
        | .error e => onError e) := by
  refine attempt_bind h fun outcome => ?_
  rcases outcome with e | u
  · exact hError e
  · exact pure ()

/-- The items of a list taken in one after another. -/
theorem foldlM {f : β → α → Action σ β} (h : ∀ b a, Upholds I none (f b a))
    (items : List α) (b : β) :
    Upholds I none (items.foldlM f b) := by
  induction items generalizing b with
  | nil => exact pure b
  | cons a items ih =>
    rw [List.foldlM_cons]
    exact bind (h b a) ih

/-- An action for every item of a list. -/
theorem forM {f : α → Action σ Unit} {items : List α} (h : ∀ a ∈ items, Upholds I none (f a)) :
    Upholds I none (items.forM f) := by
  induction items with
  | nil => exact pure ()
  | cons a items ih =>
    change Upholds I none (f a >>= fun _ => items.forM f)
    exact bind (h a List.mem_cons_self) fun _ => ih fun b hb => h b (List.mem_cons_of_mem a hb)

/-- The answers of an action for every item of a list. -/
theorem mapM {f : α → Action σ β} (h : ∀ a, Upholds I none (f a)) (items : List α) :
    Upholds I none (items.mapM f) := by
  induction items with
  | nil => exact pure []
  | cons a items ih =>
    rw [List.mapM_cons]
    exact bind (h a) fun b => bind ih fun bs => pure (b :: bs)

end Upholds

end Action

/-! ## Formulas -/

open LineScript.Action (Upholds)

/-- Reading variables and calling functions uphold `I`. -/
structure Host.Upholds (I : Option Message → σ → Prop) (host : Host σ) : Prop where
  readVariable : ∀ path, Action.Upholds I none (host.readVariable path)
  callFunction : ∀ name args, Action.Upholds I none (host.callFunction name args)

namespace Formula

variable {host : Host σ} (hhost : host.Upholds I) {inner : String → Action σ Value}
  (hinner : ∀ src, Upholds I none (inner src))

include hhost in
/-- A text with references in it. -/
theorem interpolate_upholds (s : String) : Upholds I none (interpolate host s) := by
  unfold interpolate
  refine .bind (.mapM (fun segment => ?_) _) fun texts => .pure _
  cases segment with
  | char c => exact .pure _
  | reference path => exact .bind (hhost.readVariable path) fun v => .pure _

include hinner in
/-- The items of a list. -/
theorem evaluateItems_upholds (src : String) : Upholds I none (evaluateItems inner src) :=
  .bind (.ofExcept (raisedIn?_splitList src)) fun items => .mapM hinner items

include hinner in
/-- The collection of a literal. -/
theorem evaluateCollection_upholds (src : String) :
    Upholds I none (evaluateCollection inner src) := by
  refine .bind (.ofExcept (raisedIn?_splitList src)) fun items => .foldlM (fun c item => ?_) items _
  unfold addItem
  split
  · exact .bind (hinner _) fun v => .pure _
  · exact .bind (hinner _) fun v => .pure _

include hhost hinner in
/-- A call: its arguments, then the function. -/
theorem evaluateCall_upholds (src : String) : Upholds I none (evaluateCall host inner src) := by
  unfold evaluateCall
  split
  · exact .throw rfl
  · exact hhost.callFunction _ _
  · exact .bind (evaluateItems_upholds hinner _) fun vs => hhost.callFunction _ vs

include hhost hinner in
/-- One token taken in. Operators fail with nothing raised. -/
theorem stepToken_upholds (stack : List Value) (token : Token) :
    Upholds I none (stepToken host inner stack token) := by
  cases token with
  | operator op =>
    match stack with
    | [] => exact .throw rfl
    | [_] => exact .throw rfl
    | rhs :: lhs :: rest => exact .bind (.ofExcept (op.raisedIn?_apply lhs rhs)) fun v => .pure _
  | negation =>
    match stack with
    | [] => exact .throw rfl
    | v :: rest => exact .pure _
  | word s => exact .throw rfl
  | doubleQuoted s => exact .bind (interpolate_upholds hhost s) fun text => .pure _
  | collection src => exact .bind (evaluateCollection_upholds hinner src) fun c => .pure _
  | call src => exact .bind (evaluateCall_upholds hhost hinner src) fun v => .pure _
  | reference path => exact .bind (hhost.readVariable path) fun v => .pure _
  | _ => exact .pure _

include hhost in
/-- Literals hold formulas of their own, so this goes by induction on how deep they may nest. -/
theorem evaluateWithin_upholds (depth : Nat) (src : String) :
    Upholds I none (evaluateWithin host depth src) := by
  induction depth generalizing src with
  | zero => exact .stop _
  | succ depth ih =>
    refine .bind (.ofExcept (raisedIn?_tokens src)) fun tokens => ?_
    refine .bind (.foldlM (stepToken_upholds hhost ih) tokens []) fun stack => ?_
    split
    · exact .pure _
    · exact .throw rfl

include hhost in
/-- **Evaluation upholds** what reading variables and calling functions uphold. -/
theorem evaluate_upholds (src : String) : Upholds I none (evaluate host src) :=
  evaluateWithin_upholds hhost _ src

include hhost in
/-- A list of formulas. -/
theorem evaluateList_upholds (src : String) : Upholds I none (evaluateList host src) :=
  evaluateItems_upholds (evaluate_upholds hhost) src

end Formula

end LineScript
