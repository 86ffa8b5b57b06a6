import LineScript.Proofs.Formula.CallFree
import LineScript.Proofs.Session.Basic

set_option relaxedAutoImplicit false
set_option autoImplicit false

/-!
# What formulas without calls report

A formula that calls no function reads variables, and logs those that are missing. All it does is
told by the variables: from any session with these, it has one and the same outcome, and reports one
and the same failures. In particular it always has an outcome, as the formulas inside its literals
are shorter than it is.

## Main definitions

* `LineScript.Session.reporting` — a session after failures have been logged.
* `LineScript.Session.Reports` — actions whose outcome and reports depend on the variables only.

## Main results

* `LineScript.Session.Reports.bind`, `LineScript.Session.Reports.foldlM`,
  `LineScript.Session.Reports.mapM` — such actions one after another.
* `LineScript.Session.readVariable_reports` — reading a variable.
* `LineScript.Session.evaluateWith_reports` — evaluating a formula without calls.
-/

namespace LineScript.Session

/-- The session after the failures have been logged. -/
def reporting (s : Session) (es : List ScriptError) : Session :=
  { s with log := s.log ++ (es.map fun e => s.message e.level (some e.kind) e.text).toArray }

/-- Reporting nothing changes nothing. -/
theorem reporting_nil (s : Session) : s.reporting [] = s := by
  simp [reporting]

/-- Failures reported after others are reported with them, in that order. -/
theorem reporting_reporting (s : Session) (es es' : List ScriptError) :
    (s.reporting es).reporting es' = s.reporting (es ++ es') := by
  simp [reporting, message]

/-- One message that is logged is one failure that is reported. -/
theorem logged_message (s : Session) (e : ScriptError) :
    s.logged (s.message e.level (some e.kind) e.text) = s.reporting [e] := by
  simp [logged, reporting]

/-- From every session with these variables, the action has the same outcome, reports the same
failures and does nothing else. -/
def Reports {α : Type} (store : Store) (act : Action Session α) : Prop :=
  ∃ (o : Except ScriptError α) (es : List ScriptError),
    ∀ s : Session, s.store = store → act.runFrom s = .ok (o, s.reporting es)

namespace Reports

variable {α β : Type} {store : Store}

/-- A known outcome reports nothing. -/
theorem ofExcept (outcome : Except ScriptError α) : Reports store (Action.ofExcept outcome) :=
  ⟨outcome, [], fun s _ => by rw [Action.runFrom_ofExcept, reporting_nil]⟩

/-- An answer alone reports nothing. -/
theorem pure (a : α) : Reports store (Pure.pure a : Action Session α) :=
  ofExcept (.ok a)

/-- A failure that is not dealt with reports nothing. -/
theorem throw (e : ScriptError) : Reports store (MonadExcept.throw e : Action Session α) :=
  ofExcept (.error e)

/-- One action after another: the reports of the second come after those of the first. -/
theorem bind {act : Action Session α} {next : α → Action Session β} (h : Reports store act)
    (hnext : ∀ a, Reports store (next a)) : Reports store (act >>= next) := by
  obtain ⟨o, es, hact⟩ := h
  cases o with
  | error e =>
    refine ⟨.error e, es, fun s hs => ?_⟩
    rw [Action.runFrom_bind, hact s hs]
  | ok a =>
    obtain ⟨o, es', hnext⟩ := hnext a
    refine ⟨o, es ++ es', fun s hs => ?_⟩
    rw [Action.runFrom_bind, hact s hs, ← reporting_reporting]
    exact hnext (s.reporting es) hs

/-- The items of a list taken in one after another. -/
theorem foldlM {f : β → α → Action Session β} {items : List α}
    (h : ∀ a ∈ items, ∀ b, Reports store (f b a)) (b : β) : Reports store (items.foldlM f b) := by
  induction items generalizing b with
  | nil => exact pure b
  | cons a items ih =>
    rw [List.foldlM_cons]
    exact (h a List.mem_cons_self b).bind (ih fun a' ha' => h a' (List.mem_cons_of_mem a ha'))

/-- The answers of an action for every item of a list. -/
theorem mapM {f : α → Action Session β} {items : List α} (h : ∀ a ∈ items, Reports store (f a)) :
    Reports store (items.mapM f) := by
  induction items with
  | nil => exact pure []
  | cons a items ih =>
    rw [List.mapM_cons]
    exact (h a List.mem_cons_self).bind fun b =>
      (ih fun a' ha' => h a' (List.mem_cons_of_mem a ha')).bind fun bs => pure (b :: bs)

end Reports

/-! ## Variables -/

variable {store : Store}

/-- Reading a variable gives its value, or null with a report, or it fails with what cannot be
recovered from. -/
theorem runFrom_readVariable (path : String) (s : Session) :
    (readVariable path).runFrom s =
      match s.store.get path with
      | .ok v => .ok (.ok v, s)
      | .error e =>
        if e.recoverable then .ok (.ok .null, s.reporting [e]) else .ok (.error e, s) := by
  rw [readVariable, Action.runFrom_get_bind]
  cases s.store.get path with
  | ok v => rfl
  | error e =>
    dsimp only
    rw [← logged_message]
    split
    · rfl
    · rfl

/-- **Reading a variable** reports a missing key. -/
theorem readVariable_reports (path : String) : Reports store (readVariable path) := by
  cases hget : store.get path with
  | ok v =>
    refine ⟨.ok v, [], fun s hs => ?_⟩
    rw [runFrom_readVariable, hs, hget, reporting_nil]
  | error e =>
    cases he : e.recoverable with
    | true =>
      refine ⟨.ok .null, [e], fun s hs => ?_⟩
      rw [runFrom_readVariable, hs, hget]
      exact if_pos he
    | false =>
      refine ⟨.error e, [], fun s hs => ?_⟩
      rw [runFrom_readVariable, hs, hget, reporting_nil]
      exact if_neg (by simp [he])

/-! ## Formulas -/

variable {run : SourceRunner} {inner : String → Action Session Value}

/-- A text with references in it reports those that cannot be read. -/
theorem interpolate_reports (text : String) :
    Reports store (Formula.interpolate (host run) text) := by
  refine .bind (.mapM fun segment _ => ?_) fun texts => .pure _
  cases segment with
  | char c => exact .pure _
  | reference path => exact (readVariable_reports path).bind fun v => .pure _

/-- An item reports what its formula does. -/
theorem addItem_reports {item : String} (h : Reports store (inner (Formula.itemFormula item)))
    (c : Collection Value) : Reports store (Formula.addItem inner c item) := by
  revert h
  unfold Formula.itemFormula Formula.addItem
  cases Pattern.keyed? item.toList with
  | none => exact fun h => h.bind fun v => .pure _
  | some found => exact fun h => h.bind fun v => .pure _

/-- A collection literal reports what its items do, one after another. -/
theorem evaluateCollection_reports {src : String} (h : ∀ items, splitList src = .ok items →
      ∀ item ∈ items, Reports store (inner (Formula.itemFormula item))) :
    Reports store (Formula.evaluateCollection inner src) := by
  unfold Formula.evaluateCollection
  cases hsplit : splitList src with
  | error e => exact .throw e
  | ok items => exact .foldlM (fun item hitem c => addItem_reports (h items hsplit item hitem) c) _

/-- A token other than a call, if the formulas inside its literal report. -/
theorem stepToken_reports {token : Token} (hcall : ∀ text, token ≠ .call text)
    (hitems : ∀ text items, token = .collection text → splitList text = .ok items →
      ∀ item ∈ items, Reports store (inner (Formula.itemFormula item))) (stack : List Value) :
    Reports store (Formula.stepToken (host run) inner stack token) := by
  cases token with
  | operator op =>
    match stack with
    | [] => exact .throw _
    | [_] => exact .throw _
    | rhs :: lhs :: rest => exact .bind (.ofExcept _) fun v => .pure _
  | negation =>
    match stack with
    | [] => exact .throw _
    | v :: rest => exact .pure _
  | word s => exact .throw _
  | doubleQuoted text => exact (interpolate_reports text).bind fun _ => .pure _
  | collection text =>
    exact (evaluateCollection_reports fun items => hitems text items rfl).bind fun _ => .pure _
  | call text => exact absurd rfl (hcall text)
  | reference path => exact (readVariable_reports path).bind fun _ => .pure _
  | _ => exact .pure _

/-- The formulas inside collection literals are free of calls and shorter, so this goes by induction
on them, for every bound above the length of the formula. -/
theorem evaluateWithin_reports {src : String} (h : Formula.CallFree src) {depth : Nat}
    (hdepth : src.length < depth) :
    Reports store (Formula.evaluateWithin (host run) depth src) := by
  induction h generalizing depth with
  | @intro src hcalls _ ih =>
    obtain ⟨depth, rfl⟩ : ∃ n, depth = n + 1 := ⟨depth - 1, by omega⟩
    unfold Formula.evaluateWithin
    cases htokens : Formula.tokens src with
    | error e => exact .throw e
    | ok ts =>
      have hfold : Reports store (ts.foldlM
          (Formula.stepToken (host run) (Formula.evaluateWithin (host run) depth)) []) := by
        refine .foldlM (fun token hmem => stepToken_reports ?_ ?_) _
        · rintro text rfl
          exact hcalls ts htokens text hmem
        · rintro text items rfl hsplit item hitem
          refine ih ts text items htokens hmem hsplit item hitem ?_
          have htext := Formula.length_lt_of_mem_tokens htokens hmem rfl
          have hitem := length_le_of_mem_splitList hsplit hitem
          have hformula := Formula.length_itemFormula_le item
          omega
      refine hfold.bind fun stack => ?_
      split
      · exact .pure _
      · exact .throw _

/-- **A formula without calls** has one outcome and reports the same failures, in every session with
the same variables. -/
theorem evaluateWith_reports {src : String} (h : Formula.CallFree src) :
    Reports store (evaluateWith run src) :=
  evaluateWithin_reports h (Nat.lt_succ_self _)

end LineScript.Session
