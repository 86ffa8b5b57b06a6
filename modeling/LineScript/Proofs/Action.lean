import Mathlib.Order.Defs.Unbundled
import LineScript.Action

set_option relaxedAutoImplicit false
set_option autoImplicit false

/-!
# Actions along a relation, and actions that follow each other

Two kinds of statements about actions are used throughout. An action moves *along* a relation
between states if every state it ends in is related to the one it started in; for a preorder this
passes from parts to wholes. One action *follows* another, relative to a relation between their
states, if it can match every answer of the other and keeps the states related.

## Main definitions

* `LineScript.Action.Along` — the states an action reaches.
* `LineScript.Action.Gives` — the answers an action gives.
* `LineScript.Action.Follows` — an action that gives the answers of another one.

## Main results

* `LineScript.Action.runFrom_bind_eq_ok`, `LineScript.Action.runFrom_attempt_eq_ok`,
  `LineScript.Action.runFrom_zoom_eq_ok` — what it takes for a composed action to have an answer.
* `LineScript.Action.Along.bind`, `LineScript.Action.Gives.bind` — actions along a preorder compose,
  and the last action gives the answer.
* `LineScript.Action.Follows.bind`, `LineScript.Action.Follows.foldlM`, … — matching answers
  compose.
* `LineScript.Action.along_of_follows` — the first notion is a case of the second.
-/

namespace LineScript.Action

variable {σ τ α β : Type}

/-! ## Answers of composed actions -/

/-- One action after another has an answer if the first fails, or else if the second has one. -/
theorem runFrom_bind_eq_ok {act : Action σ α} {next : α → Action σ β} {s u : σ}
    {o : Except ScriptError β} :
    (act >>= next).runFrom s = .ok (o, u) ↔
      (∃ e, act.runFrom s = .ok (.error e, u) ∧ o = .error e) ∨
        ∃ a t, act.runFrom s = .ok (.ok a, t) ∧ (next a).runFrom t = .ok (o, u) := by
  rw [runFrom_bind]
  rcases act.runFrom s with reason | ⟨e | a, t⟩
  · simp
  · simp only [Except.ok.injEq, Prod.mk.injEq, Except.error.injEq, reduceCtorEq, false_and,
      exists_false, or_false]
    constructor
    · rintro ⟨rfl, rfl⟩
      exact ⟨e, ⟨rfl, rfl⟩, rfl⟩
    · rintro ⟨e', ⟨rfl, rfl⟩, rfl⟩
      exact ⟨rfl, rfl⟩
  · simp only [Except.ok.injEq, Prod.mk.injEq, reduceCtorEq, false_and, exists_false, false_or]
    constructor
    · intro h
      exact ⟨a, t, ⟨rfl, rfl⟩, h⟩
    · rintro ⟨a', t', ⟨rfl, rfl⟩, h⟩
      exact h

/-- An attempt has an answer if the action has one, which it then hands on. -/
theorem runFrom_attempt_eq_ok {act : Action σ α} {s t : σ}
    {o : Except ScriptError (Except ScriptError α)} :
    (attempt act).runFrom s = .ok (o, t) ↔ ∃ p, act.runFrom s = .ok (p, t) ∧ o = .ok p := by
  rw [runFrom_attempt]
  rcases act.runFrom s with reason | ⟨p, u⟩
  · simp
  · simp only [Except.ok.injEq, Prod.mk.injEq]
    constructor
    · rintro ⟨rfl, rfl⟩
      exact ⟨p, ⟨rfl, rfl⟩, rfl⟩
    · rintro ⟨p', ⟨rfl, rfl⟩, rfl⟩
      exact ⟨rfl, rfl⟩

/-- What is done about the outcome of an attempt starts in the state that the attempt left. -/
theorem runFrom_attempt_bind (act : Action σ α) (next : Except ScriptError α → Action σ β) (s : σ) :
    (attempt act >>= next).runFrom s =
      match act.runFrom s with
      | .error reason => .error reason
      | .ok (p, t) => (next p).runFrom t := by
  rw [runFrom_bind, runFrom_attempt]
  rcases act.runFrom s with reason | ⟨p, t⟩
  · rfl
  · rfl

/-- What is done about an attempt has an answer if the attempt ends, well or not, and what is done
about that end has one. -/
theorem runFrom_attempt_bind_eq_ok {act : Action σ α} {next : Except ScriptError α → Action σ β}
    {s u : σ} {o : Except ScriptError β} :
    (attempt act >>= next).runFrom s = .ok (o, u) ↔
      ∃ p t, act.runFrom s = .ok (p, t) ∧ (next p).runFrom t = .ok (o, u) := by
  rw [runFrom_attempt_bind]
  rcases act.runFrom s with reason | ⟨p, t⟩
  · simp
  · constructor
    · intro h
      exact ⟨p, t, rfl, h⟩
    · rintro ⟨p', t', heq, h⟩
      cases heq
      exact h

/-- One action after another is an attempt whose failure is thrown again. -/
theorem bind_eq_attempt_bind (act : Action σ α) (next : α → Action σ β) :
    act >>= next = attempt act >>= fun p => match p with
      | .ok a => next a
      | .error e => throw e := by
  refine funext fun s => ?_
  change (act >>= next).runFrom s = (attempt act >>= _).runFrom s
  rw [runFrom_bind, runFrom_attempt_bind]
  rcases act.runFrom s with reason | ⟨e | a, t⟩
  · rfl
  · rfl
  · rfl

/-- An action on a part of the state has an answer if the action on that part has it. -/
theorem runFrom_zoom_eq_ok {get : τ → σ} {put : σ → τ → τ} {act : Action σ α} {t u : τ}
    {o : Except ScriptError α} :
    (zoom get put act).runFrom t = .ok (o, u) ↔
      ∃ s, act.runFrom (get t) = .ok (o, s) ∧ u = put s t := by
  rw [runFrom_zoom]
  rcases act.runFrom (get t) with reason | ⟨p, s⟩
  · simp
  · simp only [Except.ok.injEq, Prod.mk.injEq]
    constructor
    · rintro ⟨rfl, rfl⟩
      exact ⟨s, ⟨rfl, rfl⟩, rfl⟩
    · rintro ⟨s', ⟨rfl, rfl⟩, rfl⟩
      exact ⟨rfl, rfl⟩

/-- Looking at the state first. -/
@[simp]
theorem runFrom_get_bind (next : σ → Action σ β) (s : σ) :
    ((get : Action σ σ) >>= next).runFrom s = (next s).runFrom s := by
  rw [runFrom_bind, runFrom_get]

/-- Going on from a new state. -/
@[simp]
theorem runFrom_set_bind (t : σ) (next : Unit → Action σ β) (s : σ) :
    ((set t : Action σ Unit) >>= next).runFrom s = (next ()).runFrom t := by
  rw [runFrom_bind, runFrom_set]

/-- Going on from a changed state. -/
@[simp]
theorem runFrom_modify_bind (f : σ → σ) (next : Unit → Action σ β) (s : σ) :
    ((modify f : Action σ Unit) >>= next).runFrom s = (next ()).runFrom (f s) := by
  rw [runFrom_bind, runFrom_modify]

/-- What is done with an answer that is given, by actions that agree on it. -/
theorem ofExcept_bind_congr {outcome : Except ScriptError α} {f g : α → Action σ β}
    (h : ∀ a, outcome = .ok a → f a = g a) :
    (ofExcept outcome >>= f : Action σ β) = ofExcept outcome >>= g := by
  cases outcome with
  | error e => rfl
  | ok a => exact h a rfl

/-- Items taken in by actions that agree on them. -/
theorem foldlM_congr {f g : β → α → Action σ β} {items : List α}
    (h : ∀ a ∈ items, ∀ b, f b a = g b a) (b : β) : items.foldlM f b = items.foldlM g b := by
  induction items generalizing b with
  | nil => rfl
  | cons a items ih =>
    have hrest : items.foldlM f = items.foldlM g :=
      funext (ih fun a' ha' => h a' (List.mem_cons_of_mem a ha'))
    rw [List.foldlM_cons, List.foldlM_cons, h a List.mem_cons_self, hrest]

/-- Answers for the items of a list from actions that agree on them. -/
theorem mapM_congr {f g : α → Action σ β} {items : List α} (h : ∀ a ∈ items, f a = g a) :
    items.mapM f = items.mapM g := by
  induction items with
  | nil => rfl
  | cons a items ih =>
    rw [List.mapM_cons, List.mapM_cons, h a List.mem_cons_self,
      ih fun a' ha' => h a' (List.mem_cons_of_mem a ha')]

/-! ## Actions along a relation -/

/-- Wherever the action has an answer, the state it leaves is related to the one it started in. -/
def Along (R : σ → σ → Prop) (act : Action σ α) : Prop :=
  ∀ s o t, act.runFrom s = .ok (o, t) → R s t

namespace Along

variable {R : σ → σ → Prop}

/-- An action whose course depends on the state it starts in. -/
theorem get_bind {next : σ → Action σ β} (h : ∀ r, Along R (next r)) :
    Along R ((get : Action σ σ) >>= next) := by
  intro s o t hrun
  rw [runFrom_get_bind] at hrun
  exact h s s o t hrun

/-- An attempt leaves the state that the action leaves. -/
theorem attempt {act : Action σ α} (h : Along R act) : Along R (attempt act) := by
  intro s o t hrun
  obtain ⟨p, hp, -⟩ := runFrom_attempt_eq_ok.1 hrun
  exact h s p t hp

variable [IsPreorder σ R]

/-- An outcome known beforehand leaves the state as it is. -/
theorem ofExcept (outcome : Except ScriptError α) : Along R (ofExcept outcome : Action σ α) := by
  intro s o t h
  cases h
  exact refl_of R s

/-- An answer alone leaves the state, which is related to itself. -/
theorem pure (a : α) : Along R (pure a : Action σ α) :=
  ofExcept (.ok a)

/-- A raised error leaves the state, which is related to itself. -/
theorem throw (e : ScriptError) : Along R (throw e : Action σ α) :=
  ofExcept (.error e)

/-- One action after another. -/
theorem bind {act : Action σ α} {next : α → Action σ β} (h : Along R act)
    (hnext : ∀ a, Along R (next a)) : Along R (act >>= next) := by
  intro s o u hrun
  rcases runFrom_bind_eq_ok.1 hrun with ⟨e, he, -⟩ | ⟨a, t, ha, hu⟩
  · exact h s _ u he
  · exact trans_of R (h s _ t ha) (hnext a t o u hu)

/-- An attempt whose failure is dealt with. -/
theorem handle {act : Action σ Unit} (h : Along R act) {onError : ScriptError → Action σ Unit}
    (hError : ∀ e, Along R (onError e)) :
    Along R
      (do
        let outcome ← Action.attempt act
        match outcome with
        | .ok () => Pure.pure ()
        | .error e => onError e) := by
  refine bind (attempt h) fun outcome => ?_
  rcases outcome with e | u
  · exact hError e
  · exact pure ()

end Along

/-! ## Answers of actions -/

/-- All answers of the action, from any state, are as `P` says. -/
def Gives (P : α → Prop) (act : Action σ α) : Prop :=
  ∀ s a t, act.runFrom s = .ok (.ok a, t) → P a

namespace Gives

variable {P : α → Prop} {Q : β → Prop}

/-- An answer that is as `P` says. -/
theorem pure {a : α} (h : P a) : Gives P (pure a : Action σ α) := by
  intro s b t hrun
  cases hrun
  exact h

/-- A raised error is no answer, so there is nothing to show. -/
theorem throw (e : ScriptError) : Gives P (throw e : Action σ α) := by
  intro s a t hrun
  cases hrun

/-- One action after another: what the first gives is known to the second. -/
theorem bind {act : Action σ α} {next : α → Action σ β} (h : Gives P act)
    (hnext : ∀ a, P a → Gives Q (next a)) : Gives Q (act >>= next) := by
  intro s b u hrun
  rcases runFrom_bind_eq_ok.1 hrun with ⟨e, -, he⟩ | ⟨a, t, ha, hb⟩
  · cases he
  · exact hnext a (h s a t ha) t b u hb

/-- Only the last action gives the answer. -/
theorem of_next {act : Action σ α} {next : α → Action σ β} (hnext : ∀ a, Gives Q (next a)) :
    Gives Q (act >>= next) :=
  bind (P := fun _ => True) (fun _ _ _ _ => trivial) fun a _ => hnext a

/-- An answer after another action needs that action to have one. -/
theorem of_first {act : Action σ α} {next : α → Action σ β} {R : Prop}
    (h : Gives (fun _ => R) act) :
    Gives (fun _ => R) (act >>= next) :=
  bind h fun _ hr _ _ _ _ => hr

/-- A known outcome, if its answer is as `P` says. -/
theorem ofExcept {outcome : Except ScriptError α} (h : ∀ a, outcome = .ok a → P a) :
    Gives P (ofExcept outcome : Action σ α) := by
  intro s a t hrun
  cases hrun
  exact h a rfl

/-- The items of a list taken in one after another. -/
theorem foldlM {f : α → β → Action σ α} (h : ∀ a b, P a → Gives P (f a b)) (items : List β) {a : α}
    (ha : P a) : Gives P (items.foldlM f a) := by
  induction items generalizing a with
  | nil => exact pure ha
  | cons b items ih =>
    rw [List.foldlM_cons]
    exact bind (h a b ha) fun a' ha' => ih ha'

/-- Items that are all taken in have been taken in one by one. -/
theorem foldlM_each {f : α → β → Action σ α} (h : ∀ a b, Gives (fun _ => Q b) (f a b))
    (items : List β) (a : α) : Gives (fun _ => ∀ b ∈ items, Q b) (items.foldlM f a) := by
  induction items generalizing a with
  | nil => exact pure (by simp)
  | cons b items ih =>
    rw [List.foldlM_cons]
    refine bind (h a b) fun a' hb s _ t hrun => ?_
    simpa using ⟨hb, ih a' s _ t hrun⟩

/-- Answers for all items of a list are answers for each of them. -/
theorem mapM_each {f : β → Action σ α} (h : ∀ b, Gives (fun _ => Q b) (f b)) (items : List β) :
    Gives (fun _ => ∀ b ∈ items, Q b) (items.mapM f) := by
  induction items with
  | nil => exact pure (by simp)
  | cons b items ih =>
    rw [List.mapM_cons]
    refine bind (h b) fun _ hb => bind ih fun _ hitems => pure ?_
    simpa using ⟨hb, hitems⟩

end Gives

/-! ## Actions that follow each other -/

/-- From related states, `act'` has every answer that `act` has, and the states stay related. -/
def Follows (I : σ → τ → Prop) (act : Action σ α) (act' : Action τ α) : Prop :=
  ∀ s t, I s t → ∀ o s', act.runFrom s = .ok (o, s') → ∃ t', act'.runFrom t = .ok (o, t') ∧ I s' t'

namespace Follows

variable {I : σ → τ → Prop}

/-- A known outcome is the same in related states. -/
theorem ofExcept (outcome : Except ScriptError α) :
    Follows I (ofExcept outcome : Action σ α) (ofExcept outcome : Action τ α) := by
  intro s t hI o s' h
  cases h
  exact ⟨t, rfl, hI⟩

/-- An answer alone is the same in related states. -/
theorem pure (a : α) : Follows I (pure a : Action σ α) (pure a : Action τ α) :=
  ofExcept (.ok a)

/-- A raised error is the same in related states. -/
theorem throw (e : ScriptError) : Follows I (throw e : Action σ α) (throw e : Action τ α) :=
  ofExcept (.error e)

/-- Every action matches itself from the same state. -/
theorem refl (act : Action σ α) : Follows Eq act act := by
  rintro s t rfl o s' h
  exact ⟨s', h, rfl⟩

/-- From one and the same state, an answer that is matched is the same. -/
theorem runFrom_eq_ok {act act' : Action σ α} (h : Follows Eq act act') {s t : σ}
    {o : Except ScriptError α} (hact : act.runFrom s = .ok (o, t)) :
    act'.runFrom s = .ok (o, t) := by
  obtain ⟨t', ht', rfl⟩ := h s s rfl o t hact
  exact ht'

/-- Nothing needs to be matched where the first action stops. -/
theorem stop (reason : Stop) (act : Action τ α) : Follows I (stop reason : Action σ α) act := by
  intro s t hI o s' h
  cases h

/-- Where the first action always has an answer, the second has no others. -/
theorem flip {act : Action σ α} {act' : Action τ α} (h : Follows I act act')
    (htotal : ∀ s, ∃ o s', act.runFrom s = .ok (o, s')) :
    Follows (fun t s => I s t) act' act := by
  intro t s hI o t' hrun
  obtain ⟨p, s', hs'⟩ := htotal s
  obtain ⟨u, hu, hI'⟩ := h s t hI p s' hs'
  rw [hrun] at hu
  cases hu
  exact ⟨s', hs', hI'⟩

/-- One action after another. -/
theorem bind {act : Action σ α} {act' : Action τ α} {next : α → Action σ β} {next' : α → Action τ β}
    (h : Follows I act act') (hnext : ∀ a, Follows I (next a) (next' a)) :
    Follows I (act >>= next) (act' >>= next') := by
  intro s t hI o u hrun
  rcases runFrom_bind_eq_ok.1 hrun with ⟨e, he, rfl⟩ | ⟨a, s', ha, hu⟩
  · obtain ⟨t', ht', hI'⟩ := h s t hI _ u he
    exact ⟨t', runFrom_bind_eq_ok.2 (.inl ⟨e, ht', rfl⟩), hI'⟩
  · obtain ⟨t', ht', hI'⟩ := h s t hI _ s' ha
    obtain ⟨u', hu', hI''⟩ := hnext a s' t' hI' o u hu
    exact ⟨u', runFrom_bind_eq_ok.2 (.inr ⟨a, t', ht', hu'⟩), hI''⟩

/-- Actions whose course depends on the states they start in. -/
theorem get_bind {next : σ → Action σ β} {next' : τ → Action τ β}
    (h : ∀ s t, I s t → Follows I (next s) (next' t)) :
    Follows I ((get : Action σ σ) >>= next) ((get : Action τ τ) >>= next') := by
  intro s t hI o s' hrun
  rw [runFrom_get_bind] at hrun
  obtain ⟨t', ht', hI'⟩ := h s t hI s t hI o s' hrun
  exact ⟨t', by rw [runFrom_get_bind, ht'], hI'⟩

/-- States replaced by related ones. -/
theorem set {s : σ} {t : τ} (h : I s t) :
    Follows I (set s : Action σ Unit) (set t : Action τ Unit) := by
  intro _ _ _ o s' hrun
  cases hrun
  exact ⟨t, rfl, h⟩

/-- States changed alike. -/
theorem modify {f : σ → σ} {g : τ → τ} (h : ∀ s t, I s t → I (f s) (g t)) :
    Follows I (modify f : Action σ Unit) (modify g : Action τ Unit) := by
  intro s t hI o s' hrun
  cases hrun
  exact ⟨g t, rfl, h s t hI⟩

/-- An attempt of actions that follow each other. -/
theorem attempt {act : Action σ α} {act' : Action τ α} (h : Follows I act act') :
    Follows I (attempt act) (attempt act') := by
  intro s t hI o s' hrun
  obtain ⟨p, hp, rfl⟩ := runFrom_attempt_eq_ok.1 hrun
  obtain ⟨t', ht', hI'⟩ := h s t hI p s' hp
  exact ⟨t', runFrom_attempt_eq_ok.2 ⟨p, ht', rfl⟩, hI'⟩

/-- Actions that take the same side. -/
theorem ite {c : Prop} [Decidable c] {yes no : Action σ α} {yes' no' : Action τ α}
    (hyes : Follows I yes yes') (hno : Follows I no no') :
    Follows I (if c then yes else no) (if c then yes' else no') := by
  split
  · exact hyes
  · exact hno

/-- An attempt whose failure is dealt with alike. -/
theorem handle {act : Action σ Unit} {act' : Action τ Unit} (h : Follows I act act')
    {onError : ScriptError → Action σ Unit} {onError' : ScriptError → Action τ Unit}
    (hError : ∀ e, Follows I (onError e) (onError' e)) :
    Follows I
      (do
        let outcome ← Action.attempt act
        match outcome with
        | .ok () => Pure.pure ()
        | .error e => onError e)
      (do
        let outcome ← Action.attempt act'
        match outcome with
        | .ok () => Pure.pure ()
        | .error e => onError' e) := by
  refine bind (attempt h) fun outcome => ?_
  rcases outcome with e | u
  · exact hError e
  · exact pure ()

/-- The items of a list taken in one after another. -/
theorem foldlM {f : β → α → Action σ β} {f' : β → α → Action τ β}
    (h : ∀ b a, Follows I (f b a) (f' b a)) (items : List α) (b : β) :
    Follows I (items.foldlM f b) (items.foldlM f' b) := by
  induction items generalizing b with
  | nil => exact pure b
  | cons a items ih =>
    rw [List.foldlM_cons, List.foldlM_cons]
    exact bind (h b a) ih

/-- An action for every item of a list. -/
theorem forM {f : α → Action σ Unit} {f' : α → Action τ Unit}
    (h : ∀ a, Follows I (f a) (f' a)) (items : List α) :
    Follows I (items.forM f) (items.forM f') := by
  induction items with
  | nil => exact pure ()
  | cons a items ih =>
    change Follows I (f a >>= fun _ => items.forM f) (f' a >>= fun _ => items.forM f')
    exact bind (h a) fun _ => ih

/-- The answers of an action for every item of a list. -/
theorem mapM {f : α → Action σ β} {f' : α → Action τ β}
    (h : ∀ a, Follows I (f a) (f' a)) (items : List α) :
    Follows I (items.mapM f) (items.mapM f') := by
  induction items with
  | nil => exact pure []
  | cons a items ih =>
    rw [List.mapM_cons, List.mapM_cons]
    exact bind (h a) fun b => bind ih fun bs => pure (b :: bs)

end Follows

/-- An action moves along a preorder if, step by step, it follows itself while its state stays
related to a fixed one. -/
theorem along_of_follows {R : σ → σ → Prop} [IsPreorder σ R] {act : Action σ α}
    (h : ∀ r, Follows (fun s t => s = t ∧ R r s) act act) : Along R act := by
  intro s o t hrun
  obtain ⟨t', -, -, hR⟩ := h s s s ⟨rfl, refl_of R s⟩ o t hrun
  exact hR

/-- An action along a preorder follows itself while its state stays related to a fixed one. -/
theorem Along.follows {R : σ → σ → Prop} [IsPreorder σ R] {act : Action σ α} (h : Along R act)
    (r : σ) : Follows (fun s t => s = t ∧ R r s) act act := by
  rintro s t ⟨rfl, hR⟩ o s' hrun
  exact ⟨s', hrun, rfl, trans_of R hR (h s o s' hrun)⟩

end LineScript.Action
