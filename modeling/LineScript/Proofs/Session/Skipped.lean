import LineScript.Proofs.Formula.CallFree
import LineScript.Proofs.Lists
import LineScript.Proofs.Path
import LineScript.Proofs.Session.Basic
import LineScript.Proofs.Session.Matching

set_option relaxedAutoImplicit false
set_option autoImplicit false

/-!
# Statements that are skipped

A statement that fails below the level of an error is skipped, and the run goes on. If it prints,
enters a namespace or assigns, and calls no function, then all it leaves behind are messages:
whatever it changes, it changes last. A declaration is different. Its items are evaluated and
declared one by one, so that the variables before the item that fails have been declared by then,
and they stay.

## Main definitions

* `LineScript.Action.FailsAlong` — the states that an action leaves where it fails.
* `LineScript.Session.OnlyLogs` — messages have been logged, and nothing else has changed.
* `LineScript.Session.Declared` — messages have been logged, and some names declared.
* `LineScript.Statement.CallFree` — the statements in question.

## Main results

* `LineScript.Action.exists_of_forM_fails` — the item at which a list of actions fails.
* `LineScript.Session.runSimple_failsAlong` — only messages, for statements that are no
  declarations.
* `LineScript.Session.declared_of_forM` — what the items of a declaration have done.
* `LineScript.Activation.skipped_statement` — what a skipped statement leaves behind.
-/

namespace LineScript

/-! ## Actions that fail -/

namespace Action

variable {σ α β : Type}

/-- Wherever the action fails, the state it leaves is related to the one it started in. -/
def FailsAlong (R : σ → σ → Prop) (act : Action σ α) : Prop :=
  ∀ s e t, act.runFrom s = .ok (.error e, t) → R s t

namespace FailsAlong

variable {R : σ → σ → Prop}

/-- An action that always moves along the relation does so when it fails. -/
theorem of_along {act : Action σ α} (h : Along R act) : FailsAlong R act :=
  fun s e t hrun => h s (.error e) t hrun

/-- An action that never fails. -/
theorem of_total {act : Action σ α} (h : ∀ s, ∃ a t, act.runFrom s = .ok (.ok a, t)) :
    FailsAlong R act := by
  intro s e t hrun
  obtain ⟨a, u, hu⟩ := h s
  rw [hu] at hrun
  cases hrun

/-- Looking at the state first. -/
theorem get_bind {next : σ → Action σ β} (h : ∀ r, FailsAlong R (next r)) :
    FailsAlong R ((get : Action σ σ) >>= next) := by
  intro s e t hrun
  rw [runFrom_get_bind] at hrun
  exact h s s e t hrun

/-- What is done with the answer does not fail. -/
theorem bind_pure {act : Action σ α} (h : FailsAlong R act) (b : β) :
    FailsAlong R (act >>= fun _ => pure b) := by
  intro s e t hrun
  rcases runFrom_bind_eq_ok.1 hrun with ⟨e', he', -⟩ | ⟨a, u, -, hu⟩
  · exact h s e' t he'
  · cases hu

variable [IsPreorder σ R]

/-- One action after another. -/
theorem bind {act : Action σ α} {next : α → Action σ β} (h : Along R act)
    (hnext : ∀ a, FailsAlong R (next a)) : FailsAlong R (act >>= next) := by
  intro s e u hrun
  rcases runFrom_bind_eq_ok.1 hrun with ⟨e', he', -⟩ | ⟨a, t, ha, hu⟩
  · exact h s _ u he'
  · exact trans_of R (h s _ t ha) (hnext a t e u hu)

end FailsAlong

/-- **Where a list of actions fails**: at an item whose predecessors have all gone through. -/
theorem exists_of_forM_fails {f : α → Action σ Unit} {items : List α} {s t : σ} {e : ScriptError}
    (h : (items.forM f).runFrom s = .ok (.error e, t)) :
    ∃ done item rest u, items = done ++ item :: rest ∧
      (done.forM f).runFrom s = .ok (.ok (), u) ∧ (f item).runFrom u = .ok (.error e, t) := by
  induction items generalizing s with
  | nil => cases h
  | cons item items ih =>
    change (f item >>= fun _ => items.forM f).runFrom s = _ at h
    rcases runFrom_bind_eq_ok.1 h with ⟨e', hitem, he⟩ | ⟨⟨⟩, r, hitem, hrest⟩
    · cases he
      exact ⟨[], item, items, s, rfl, rfl, hitem⟩
    · obtain ⟨done, failed, rest, u, rfl, hdone, hfailed⟩ := ih hrest
      refine ⟨item :: done, failed, rest, u, rfl, ?_, hfailed⟩
      change (f item >>= fun _ => done.forM f).runFrom s = _
      rw [runFrom_bind, hitem]
      exact hdone

end Action

open LineScript.Action (Along FailsAlong)

namespace Session

/-! ## Only messages -/

/-- Messages have been logged, and nothing else has changed. -/
def OnlyLogs (s t : Session) : Prop :=
  ∃ messages : Array Message, t = { s with log := s.log ++ messages }

/-- Having only logged messages is reflexive and transitive. -/
instance : IsPreorder Session OnlyLogs where
  refl s := ⟨#[], by simp⟩
  trans := by
    rintro s _ _ ⟨ms, rfl⟩ ⟨ms', rfl⟩
    exact ⟨ms ++ ms', by simp⟩

/-- A message that is logged. -/
theorem onlyLogs_logged (s : Session) (m : Message) : s.OnlyLogs (s.logged m) :=
  ⟨#[m], by simp [logged]⟩

/-- Reading a variable may log that a key is missing. -/
theorem readVariable_along (path : String) : Along OnlyLogs (readVariable path) := by
  refine .get_bind fun r => ?_
  split
  · exact .pure _
  · split
    · refine .bind (fun s o t hrun => ?_) fun _ => .pure _
      cases hrun
      exact onlyLogs_logged s _
    · exact .throw _

variable {run : SourceRunner} {src : String} {s t u : Session} {e : ScriptError}

/-- A formula without calls only logs messages. -/
theorem evaluateWith_along (h : Formula.CallFree src) : Along OnlyLogs (evaluateWith run src) :=
  h.evaluate_along readVariable_along

/-- An initial value without calls only logs messages. -/
theorem initialValue_along {init : Option String} (h : ∀ src ∈ init, Formula.CallFree src) :
    Along OnlyLogs (initialValue run init) := by
  cases init with
  | none => exact .pure _
  | some src => exact evaluateWith_along (h src rfl)

/-- Looking up the old value of a variable only logs messages. -/
theorem currentValue_along (path : String) (mode : AssignMode) :
    Along OnlyLogs (currentValue path mode) := by
  refine .get_bind fun r => ?_
  split
  · exact .pure _
  · split
    · exact readVariable_along path
    · exact .pure _

/-- A change of the variables that fails changes nothing. -/
theorem updateStore_failsAlong (change : Store → Except ScriptError Store) :
    FailsAlong OnlyLogs (updateStore change) := by
  intro s e t hrun
  rw [runFrom_updateStore] at hrun
  split at hrun
  · cases hrun
  · cases hrun
    exact refl_of OnlyLogs s

/-- **An assignment that fails** writes nothing. -/
theorem assign_failsAlong (path : String) (mode : AssignMode) (h : Formula.CallFree src) :
    FailsAlong OnlyLogs (assign run path mode src) := by
  refine .get_bind fun r => ?_
  split
  · exact .of_along (.throw _)
  · exact .bind (evaluateWith_along h) fun rhs =>
        .bind (currentValue_along path mode) fun current =>
      .bind (.ofExcept _) fun v => updateStore_failsAlong _

/-! ## Declarations -/

/-- Messages have been logged, and each of the names has been declared, if it was free and not
dotted. -/
structure Declared (lifetime : Lifetime) (names : List String) (s t : Session) : Prop where
  rest : ∃ store, ∃ messages : Array Message,
    t = { s with store := store, log := s.log ++ messages }
  kept : ∀ name v, s.store.find? name = some v → t.store.find? name = some v
  new : ∀ name v, t.store.find? name = some v → s.store.find? name = some v ∨
    (name ∈ names ∧ Store.isDotted name = false ∧ v.lifetime = lifetime)
  found : ∀ name ∈ names, Store.isDotted name = false → t.store.contains name = true

/-- Nothing has been declared where messages were logged alone. -/
theorem OnlyLogs.declared (h : s.OnlyLogs t) (lifetime : Lifetime) : Declared lifetime [] s t := by
  obtain ⟨messages, rfl⟩ := h
  exact ⟨⟨s.store, messages, rfl⟩, fun _ _ h => h, fun _ _ h => .inl h, by simp⟩

/-- Declarations one after another. -/
theorem Declared.trans {lifetime : Lifetime} {names names' : List String}
    (h : Declared lifetime names s t) (h' : Declared lifetime names' t u) :
    Declared lifetime (names ++ names') s u := by
  refine ⟨?_, fun name v hv => h'.kept name v (h.kept name v hv), fun name v hv => ?_, ?_⟩
  · obtain ⟨store, messages, rfl⟩ := h.rest
    obtain ⟨store', messages', rfl⟩ := h'.rest
    exact ⟨store', messages ++ messages', by simp⟩
  · rcases h'.new name v hv with hv | ⟨hmem, hnew⟩
    · rcases h.new name v hv with hv | ⟨hmem, hnew⟩
      · exact .inl hv
      · exact .inr ⟨List.mem_append_left _ hmem, hnew⟩
    · exact .inr ⟨List.mem_append_right _ hmem, hnew⟩
  · intro name hmem hdotted
    rcases List.mem_append.1 hmem with hmem | hmem
    · obtain ⟨v, hv⟩ := Option.isSome_iff_exists.1 (h.found name hmem hdotted)
      exact Option.isSome_iff_exists.2 ⟨v, h'.kept name v hv⟩
    · exact h'.found name hmem hdotted

/-- A name that is not taken is declared by writing to it. -/
theorem declared_write {lifetime : Lifetime} {name : String} {v : Value}
    (hfree : s.store.find? name = none) (hdotted : Store.isDotted name = false) :
    Declared lifetime [name] s { s with store := s.store.write name ⟨v, lifetime⟩ } := by
  refine ⟨⟨s.store.write name ⟨v, lifetime⟩, #[], by simp⟩, fun other w hw => ?_,
    fun other w hw => ?_, ?_⟩
  · have hne : name ≠ other := by
      rintro rfl
      rw [hfree] at hw
      cases hw
    exact (Store.find?_write_of_ne s.store hne _).trans hw
  · by_cases hname : name = other
    · subst hname
      cases (Store.find?_write_self s.store name _).symm.trans hw
      exact .inr ⟨List.mem_singleton.2 rfl, hdotted, rfl⟩
    · exact .inl ((Store.find?_write_of_ne s.store hname _).symm.trans hw)
  · intro other hother _
    obtain rfl := List.mem_singleton.1 hother
    exact Option.isSome_iff_exists.2 ⟨_, Store.find?_write_self s.store other _⟩

/-- A name that cannot be declared is logged. -/
theorem declared_logged {lifetime : Lifetime} {name : String} (m : Message)
    (htaken : Store.isDotted name = false → s.store.contains name = true) :
    Declared lifetime [name] s (s.logged m) := by
  refine ⟨⟨s.store, #[m], by simp [logged]⟩, fun _ _ hw => hw, fun _ _ hw => .inl hw, ?_⟩
  intro other hother hdotted
  obtain rfl := List.mem_singleton.1 hother
  exact htaken hdotted

/-- What the run goes on after is reported. -/
theorem recover_of_recoverable (h : e.recoverable = true) : recover e = report e := by
  unfold recover
  split
  · cases h
  · rw [if_pos h]

/-- **An item of a declaration** fails only if its initial value does, and otherwise declares its
name. -/
theorem declareItem_cases {lifetime : Lifetime} {item : Assignment} {o : Except ScriptError Unit}
    (hinit : ∀ src ∈ item.init, Formula.CallFree src)
    (hrun : (declareItem run lifetime item).runFrom s = .ok (o, t)) :
    (∃ e, o = .error e ∧ (initialValue run item.init).runFrom s = .ok (.error e, t)) ∨
      (o = .ok () ∧ Declared lifetime [item.name] s t) := by
  rcases Action.runFrom_bind_eq_ok.1 hrun with ⟨e, he, rfl⟩ | ⟨v, r, hv, hdeclare⟩
  · exact .inl ⟨e, rfl, he⟩
  · have hvalue := (initialValue_along hinit s _ r hv).declared lifetime
    refine .inr ?_
    rw [Action.runFrom_attempt_bind, runFrom_updateStore] at hdeclare
    rcases Store.declare_cases r.store item.name v lifetime with
      ⟨hok, hfree, hdotted⟩ | ⟨e, herror, hrecoverable, htaken⟩
    · rw [hok] at hdeclare
      cases hdeclare
      exact ⟨rfl, hvalue.trans (declared_write hfree hdotted)⟩
    · rw [herror] at hdeclare
      change (recover e).runFrom r = _ at hdeclare
      rw [recover_of_recoverable hrecoverable] at hdeclare
      cases hdeclare
      exact ⟨rfl, hvalue.trans (declared_logged _ htaken)⟩

/-- **Items that have gone through** have declared their names. -/
theorem declared_of_forM {lifetime : Lifetime} {items : List Assignment}
    (hinit : ∀ item ∈ items, ∀ src ∈ item.init, Formula.CallFree src)
    (hrun : (items.forM (declareItem run lifetime)).runFrom s = .ok (.ok (), t)) :
    Declared lifetime (items.map Assignment.name) s t := by
  induction items generalizing s with
  | nil =>
    cases hrun
    exact OnlyLogs.declared (refl_of OnlyLogs _) lifetime
  | cons item items ih =>
    obtain ⟨hitem, hitems⟩ := List.forall_mem_cons.1 hinit
    change (declareItem run lifetime item >>= fun _ => items.forM _).runFrom s = _ at hrun
    rcases Action.runFrom_bind_eq_ok.1 hrun with ⟨e, -, he⟩ | ⟨⟨⟩, r, hr, hrest⟩
    · cases he
    · rcases declareItem_cases hitem hr with ⟨e, he, -⟩ | ⟨-, hdeclared⟩
      · cases he
      · exact hdeclared.trans (ih hitems hrest)

end Session

/-! ## Statements -/

/-- The statements that print, enter or leave a namespace, assign or declare, and whose formulas
call no functions. -/
inductive Statement.CallFree : Statement → Prop
  | echo {src : String} : Formula.CallFree src → CallFree (.echo src)
  | enterNamespace {src : Option String} :
      (∀ formula ∈ src, Formula.CallFree formula) → CallFree (.enterNamespace src)
  | set {path src : String} {mode : AssignMode} :
      Formula.CallFree src → CallFree (.set path mode src)
  | declare {lifetime : Lifetime} {list : String} :
      (∀ items, Assignment.parseList list = .ok items →
        ∀ item ∈ items, ∀ src ∈ item.init, Formula.CallFree src) → CallFree (.declare lifetime list)

/-- Whether a statement declares variables. -/
def Statement.isDeclaration : Statement → Bool
  | .declare _ _ => true
  | _ => false

/-- A text that is no list is an error, not a warning. -/
theorem not_recoverable_of_splitList {list : String} {e : ScriptError}
    (h : splitList list = .error e) : e.recoverable = false := by
  rw [splitList_eq_error_iff, Nesting.pieces_eq_error_iff, Nesting.scan_eq_error_iff] at h
  rcases h with ⟨_, _, _, _, _, _, _, _, rfl⟩ | ⟨_, _, _, _, rfl⟩
  · rfl
  · rfl

/-- A declaration that cannot be read skips the statement. -/
theorem Assignment.not_recoverable_of_mapM {items : List String} {e : ScriptError}
    (h : items.mapM parse = .error e) : e.recoverable = false := by
  induction items with
  | nil => cases h
  | cons item items ih =>
    rw [List.mapM_cons] at h
    cases hitem : parse item with
    | error e' =>
      rw [hitem] at h
      cases h
      unfold parse at hitem
      split at hitem
      · cases hitem
      · cases hitem
        rfl
    | ok first =>
      rw [hitem] at h
      cases hitems : items.mapM parse with
      | error e' =>
        rw [hitems] at h
        cases h
        exact ih hitems
      | ok rest =>
        rw [hitems] at h
        cases h

/-- A list of declarations that cannot be read is an error, not a warning. -/
theorem Assignment.not_recoverable_of_parseList {list : String} {e : ScriptError}
    (h : parseList list = .error e) : e.recoverable = false := by
  rw [parseList] at h
  cases hsplit : splitList list with
  | error e' =>
    obtain rfl : e' = e := by simpa [hsplit] using h
    exact not_recoverable_of_splitList hsplit
  | ok texts => exact not_recoverable_of_mapM (by simpa only [hsplit] using h)

namespace Session

variable {run : SourceRunner} {s t : Session} {e : ScriptError}

/-- **Only messages** are left of a statement that fails and is no declaration: what it does after
its formula is evaluated does not fail, or changes nothing if it does. -/
theorem runSimple_failsAlong {st : Statement} (hst : st.CallFree)
    (hkind : st.isDeclaration = false) :
    FailsAlong OnlyLogs (runSimple run st) := by
  cases hst with
  | echo hsrc =>
    refine .bind (evaluateWith_along hsrc) fun v => .bind_pure (.of_total fun s => ?_) _
    exact ⟨(), _, runFrom_echo v.text s⟩
  | @enterNamespace src hsrc =>
    cases src with
    | none => exact .of_total fun s => ⟨_, _, rfl⟩
    | some src =>
      exact .bind (evaluateWith_along (hsrc src rfl)) fun v => .of_total fun s => ⟨_, _, rfl⟩
  | set hsrc => exact .bind_pure (assign_failsAlong _ _ hsrc) _
  | declare _ => cases hkind

/-- **A declaration that fails** has declared the items before the one whose initial value fails.

**Proof sketch.** The list has been read, since a failure to read it is not recoverable. So an item
of it has failed, after those before it have been declared (`exists_of_forM_fails`), and it can only
fail in its initial value (`declareItem_cases`). -/
theorem exists_of_declare_fails {lifetime : Lifetime} {list : String}
    (hlist : ∀ items, Assignment.parseList list = .ok items →
      ∀ item ∈ items, ∀ src ∈ item.init, Formula.CallFree src)
    (hrun : (runSimple run (.declare lifetime list)).runFrom s = .ok (.error e, t))
    (he : e.recoverable = true) :
    ∃ done item rest u, Assignment.parseList list = .ok (done ++ item :: rest) ∧
      (done.forM (declareItem run lifetime)).runFrom s = .ok (.ok (), u) ∧
      Declared lifetime (done.map Assignment.name) s u ∧
      (initialValue run item.init).runFrom u = .ok (.error e, t) ∧ u.OnlyLogs t := by
  rcases Action.runFrom_bind_eq_ok.1 hrun with ⟨e', hparse, heq⟩ | ⟨items, r, hparse, hitems⟩
  · -- a list that cannot be read is no warning
    cases heq
    rw [Action.runFrom_ofExcept, Except.ok.injEq, Prod.mk.injEq] at hparse
    rw [Assignment.not_recoverable_of_parseList hparse.1] at he
    cases he
  · rw [Action.runFrom_ofExcept, Except.ok.injEq, Prod.mk.injEq] at hparse
    obtain ⟨hparse, rfl⟩ := hparse
    rcases Action.runFrom_bind_eq_ok.1 hitems with ⟨e', hforM, heq⟩ | ⟨_, _, _, hnext⟩
    · cases heq
      obtain ⟨done, item, rest, u, rfl, hdone, hitem⟩ := Action.exists_of_forM_fails hforM
      have hfree := hlist _ hparse
      have hinit := hfree item (by simp)
      rcases declareItem_cases hinit hitem with ⟨e', heq, hfails⟩ | ⟨heq, -⟩
      · cases heq
        refine ⟨done, item, rest, u, hparse, hdone, declared_of_forM ?_ hdone, hfails,
          initialValue_along hinit u _ t hfails⟩
        exact fun other hother => hfree other (List.mem_append_left _ hother)
      · cases heq
    · cases hnext

end Session

namespace Activation

/-- Such a statement has to do with the session only. -/
theorem exists_of_runLine_fails {run : SourceRunner} {index : Nat} {line : String} {st : Statement}
    {a b : Activation} {e : ScriptError} (hparse : Statement.parse line = .ok st)
    (hst : st.CallFree) (hrun : (runLine run index line).runFrom a = .ok (.error e, b)) :
    ∃ t, (Session.runSimple run st).runFrom a.session = .ok (.error e, t) ∧
      b = { a with session := t } := by
  have hsimple : runStatement run index st =
      (get >>= fun a =>
        if a.blocks.active then onSession (Session.runSimple run st) else pure .next) := by
    cases hst <;> rfl
  unfold runLine at hrun
  rw [hparse, Action.runFrom_bind, Action.runFrom_ofExcept] at hrun
  dsimp only at hrun
  rw [hsimple, Action.runFrom_get_bind] at hrun
  split at hrun
  · exact Action.runFrom_zoom_eq_ok.1 hrun
  · cases hrun

/-- **What a skipped statement leaves behind.** Suppose a statement that prints, enters a namespace,
assigns or declares, without calling functions, fails below the level of an error. Then the open
blocks and the cursor are as before. Unless it is a declaration, nothing has changed but the log,
which has grown. If it is a declaration, then one of its initial values has failed. The items before
it have gone through: their names have been declared, and variables that were there are as before;
from then on nothing has changed but the log.

**Proof sketch.** Formulas without calls only read variables, which may log a missing key
(`Session.evaluateWith_along`). Printing and entering a namespace do not fail, and a write that
fails changes nothing (`Session.runSimple_failsAlong`). A list of declarations is worked through
item by item, and what is wrong with a name is only logged, so that it is an initial value that
fails (`Session.exists_of_declare_fails`). -/
theorem skipped_statement {run : SourceRunner} {index : Nat} {line : String} {st : Statement}
    {a b : Activation} {e : ScriptError} (hparse : Statement.parse line = .ok st)
    (hst : st.CallFree)
    (hrun : (runLine run index line).runFrom a = .ok (.error e, b)) (he : e.recoverable = true) :
    b.blocks = a.blocks ∧ b.next = a.next ∧
      (st.isDeclaration = false → a.session.OnlyLogs b.session) ∧
      ∀ lifetime list, st = .declare lifetime list →
        ∃ done item rest u, Assignment.parseList list = .ok (done ++ item :: rest) ∧
          (done.forM (Session.declareItem run lifetime)).runFrom a.session = .ok (.ok (), u) ∧
          Session.Declared lifetime (done.map Assignment.name) a.session u ∧
          (Session.initialValue run item.init).runFrom u = .ok (.error e, b.session) ∧
          u.OnlyLogs b.session := by
  obtain ⟨t, hsimple, rfl⟩ := exists_of_runLine_fails hparse hst hrun
  refine ⟨rfl, rfl, fun hkind => ?_, ?_⟩
  · exact Session.runSimple_failsAlong hst hkind a.session e t hsimple
  · rintro lifetime list rfl
    cases hst with
    | declare hlist => exact Session.exists_of_declare_fails hlist hsimple he

/-- The list of a declaration whose second item fails. -/
def brokenList : String :=
  "$a = 1, $b = 1 / 0"

/-- The formulas of the declaration call nothing. -/
theorem callFree_brokenList : (Statement.declare .localScope brokenList).CallFree := by
  have hparse : Assignment.parseList brokenList = .ok [⟨"a", some "1"⟩, ⟨"b", some "1 / 0"⟩] := by
    decide +kernel
  refine .declare fun items hitems => ?_
  rw [hparse] at hitems
  cases hitems
  have hone : Formula.CallFree "1" := Formula.callFree_of_inner? (by decide +kernel)
  have hquotient : Formula.CallFree "1 / 0" := Formula.callFree_of_inner? (by decide +kernel)
  simpa using ⟨hone, hquotient⟩

/-- From an empty session, the declaration fails below the level of an error. -/
theorem exists_runLine_brokenList :
    ∃ b, (runLine (Session.runner 0) 0 ("var " ++ brokenList)).runFrom { session := {} } =
        .ok (.error .divisionByZero, b) ∧ b.session.store.contains "a" = true := by
  have hobserved : ((runLine (Session.runner 0) 0 ("var " ++ brokenList)).runFrom
      { session := {} }).toOption.map
        (fun r => (match r.1 with
          | .error e => some e
          | .ok _ => none, r.2.session.store.contains "a")) =
              some (some .divisionByZero, true) := by
    decide +kernel
  rcases hrun : (runLine (Session.runner 0) 0 ("var " ++ brokenList)).runFrom { session := {} } with
    reason | ⟨e | flow, b⟩
  · rw [hrun] at hobserved
    cases hobserved
  · rw [hrun] at hobserved
    obtain ⟨he, hfound⟩ := Prod.mk.inj (Option.some.inj hobserved)
    cases he
    exact ⟨b, rfl, hfound⟩
  · rw [hrun] at hobserved
    cases hobserved

/-- The first of the two items has been declared, when the second one fails. -/
theorem skipped_statement_brokenList :
    ∃ b, (runLine (Session.runner 0) 0 ("var " ++ brokenList)).runFrom { session := {} } =
        .ok (.error .divisionByZero, b) ∧ b.blocks = BlockStack.start ∧ b.next = 0 ∧
      ∃ u, Session.Declared .localScope ["a"] {} u ∧ u.OnlyLogs b.session := by
  obtain ⟨b, hrun, hfound⟩ := exists_runLine_brokenList
  have hparse : Statement.parse ("var " ++ brokenList) = .ok (.declare .localScope brokenList) := by
    decide +kernel
  have hlist : Assignment.parseList brokenList = .ok [⟨"a", some "1"⟩, ⟨"b", some "1 / 0"⟩] := by
    decide +kernel
  obtain ⟨hblocks, hnext, -, hdeclare⟩ :=
    skipped_statement hparse callFree_brokenList hrun (by decide)
  obtain ⟨done, item, rest, u, hitems, hdone, hdeclared, hfails, hlogs⟩ := hdeclare _ _ rfl
  rw [hlist, Except.ok.injEq] at hitems
  refine ⟨b, hrun, hblocks, hnext, u, ?_, hlogs⟩
  match done with
  | [] =>
    -- if the first item had failed, `a` would not be there
    cases hdone
    obtain ⟨messages, hsession⟩ := hlogs
    rw [hsession] at hfound
    cases hfound
  | [first] =>
    obtain ⟨rfl, -⟩ := List.cons.inj hitems
    exact hdeclared
  | first :: second :: more =>
    have hlength := congrArg List.length hitems
    simp at hlength

/-- **A skipped declaration may declare variables**: the statement fails below the level of an error
and calls no function, and yet there is a variable afterwards that was not there before. -/
theorem skipped_declaration_declares :
    Statement.parse ("var " ++ brokenList) = .ok (.declare .localScope brokenList) ∧
      (Statement.declare .localScope brokenList).CallFree ∧
      ScriptError.divisionByZero.recoverable = true ∧
      ∃ b, (runLine (Session.runner 0) 0 ("var " ++ brokenList)).runFrom { session := {} } =
          .ok (.error .divisionByZero, b) ∧
        Store.empty.contains "a" = false ∧ b.session.store.contains "a" = true := by
  obtain ⟨b, hrun, hfound⟩ := exists_runLine_brokenList
  exact ⟨by decide +kernel, callFree_brokenList, rfl, b, hrun, rfl, hfound⟩

end Activation

end LineScript
