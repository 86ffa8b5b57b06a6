import LineScript.Proofs.InPlace
import LineScript.Proofs.Session.Places
import LineScript.Proofs.Session.Reporting
import LineScript.Proofs.Statement.Setting
import LineScript.Proofs.Structured.Performing

set_option relaxedAutoImplicit false
set_option autoImplicit false

/-!
# Compound assignments

The assignment `set $p + E` does what `set $p = $p + (E)` does. The two go different ways: the first
evaluates the formula, reads the variable and combines them itself, while the second is one formula,
in which the variable is read first. So what the two log comes in a different order; and if the
formula fails, only the second has read the variable.

## Main definitions

* `LineScript.Action.AnswersAlike` — two actions that have the same answer.
* `LineScript.Session.SameButOrder` — sessions that differ in the order of their messages.

## Main results

* `LineScript.Session.assign_alike` — the two assignments.
* `LineScript.Activation.runFrom_runOutside_set`, `LineScript.Session.runFrom_runner_of_line` — an
  assignment as a line, and a line as a source.
* `LineScript.Session.compound_assignment` — the two lines, in any block and as a source of their
  own.
-/

namespace LineScript

open LineScript.Action (Follows)

/-! ## Actions with the same answer -/

namespace Action

variable {σ α β : Type} {I : σ → σ → Prop} {act act' : Action σ α} {s s' : σ}

/-- The one action from `s` and the other from `s'` have the same answer, and leave related states.
-/
def AnswersAlike (I : σ → σ → Prop) (act act' : Action σ α) (s s' : σ) : Prop :=
  ∃ o t t', act.runFrom s = .ok (o, t) ∧ act'.runFrom s' = .ok (o, t') ∧ I t t'

/-- Actions that follow each other have the same answer, where there is one. -/
theorem AnswersAlike.of_follows (h : Follows I act act') (hs : I s s')
    (htotal : ∃ o t, act.runFrom s = .ok (o, t)) : AnswersAlike I act act' s s' := by
  obtain ⟨o, t, ht⟩ := htotal
  obtain ⟨t', ht', hI⟩ := h s s' hs o t ht
  exact ⟨o, t, t', ht, ht', hI⟩

/-- Whatever is done about the outcomes of two such actions. -/
theorem AnswersAlike.attempt_bind (h : AnswersAlike I act act' s s')
    {next next' : Except ScriptError α → Action σ β}
    (hnext : ∀ p t t', I t t' → AnswersAlike I (next p) (next' p) t t') :
    AnswersAlike I (attempt act >>= next) (attempt act' >>= next') s s' := by
  obtain ⟨p, t, t', ht, ht', hI⟩ := h
  unfold AnswersAlike
  rw [runFrom_attempt_bind, runFrom_attempt_bind, ht, ht']
  exact hnext p t t' hI

/-- Another answer in place of that of both actions. -/
theorem AnswersAlike.bind_pure (h : AnswersAlike I act act' s s') (b : β) :
    AnswersAlike I (act >>= fun _ => pure b) (act' >>= fun _ => pure b) s s' := by
  obtain ⟨o, t, t', ht, ht', hI⟩ := h
  refine ⟨o.map fun _ => b, t, t', ?_, ?_, hI⟩
  · rw [runFrom_bind, ht]
    cases o <;> rfl
  · rw [runFrom_bind, ht']
    cases o <;> rfl

end Action

open LineScript.Action (AnswersAlike)

namespace Session

/-! ## Sessions that differ in the order of their messages -/

/-- Sessions that differ at most in their logs; and if `counts` holds, these have the same messages.
-/
def SameButOrder (counts : Prop) (s u : Session) : Prop :=
  ∃ log, u = { s with log := log } ∧ (counts → s.log.toList.Perm log.toList)

section

variable {counts : Prop} {s u : Session}

/-- Sessions with the same messages in another order differ at most in their logs. -/
theorem SameButOrder.sameButLog (h : SameButOrder counts s u) : SameButLog s u := by
  obtain ⟨log, rfl, -⟩ := h
  exact ⟨log, rfl⟩

/-- The same message is logged in both. -/
theorem SameButOrder.logged (h : SameButOrder counts s u) (m : Message) :
    SameButOrder counts (s.logged m) (u.logged m) := by
  obtain ⟨log, rfl, hperm⟩ := h
  refine ⟨log.push m, rfl, fun hcounts => ?_⟩
  rw [Session.logged, Array.toList_push, Array.toList_push]
  exact (hperm hcounts).append_right [m]

/-- Such sessions go on alike, as nothing reads the log. -/
theorem matching_sameButOrder (counts : Prop) : Matching (SameButOrder counts) where
  store h := matching_sameButLog.store h.sameButLog
  functions h := matching_sameButLog.functions h.sameButLog
  scope h := matching_sameButLog.scope h.sameButLog
  zone h := matching_sameButLog.zone h.sameButLog
  line h := matching_sameButLog.line h.sameButLog
  loader h := matching_sameButLog.loader h.sameButLog
  throwErrors h := matching_sameButLog.throwErrors h.sameButLog
  write := by rintro s _ ⟨log, rfl, hperm⟩ store; exact ⟨log, rfl, hperm⟩
  define := by rintro s _ ⟨log, rfl, hperm⟩ f functions -; exact ⟨log, rfl, hperm⟩
  enter := by rintro s _ ⟨log, rfl, hperm⟩ scope; exact ⟨log, rfl, hperm⟩
  move := by rintro s _ ⟨log, rfl, hperm⟩ zone line; exact ⟨log, rfl, hperm⟩
  record level kind text := by
    rintro s _ ⟨log, rfl, hperm⟩ o s' hrun
    cases hrun
    exact ⟨_, rfl, SameButOrder.logged ⟨log, rfl, hperm⟩ _⟩
  echo text := by
    rintro s _ ⟨log, rfl, hperm⟩ o s' hrun
    rw [runFrom_echo] at hrun ⊢
    cases hrun
    refine ⟨_, rfl, ?_⟩
    dsimp only
    split
    · exact SameButOrder.logged ⟨log, rfl, hperm⟩ _
    · exact ⟨log, rfl, hperm⟩

/-- Two groups of failures may be logged in either order. -/
theorem sameButOrder_reporting (counts : Prop) (s : Session) (es es' : List ScriptError) :
    SameButOrder counts ((s.reporting es).reporting es') ((s.reporting es').reporting es) := by
  rw [reporting_reporting, reporting_reporting]
  refine ⟨_, rfl, fun _ => ?_⟩
  simp only [reporting, Array.toList_append]
  exact (List.perm_append_comm.map _).append_left _

/-- If they do not count, more failures may be logged. -/
theorem sameButOrder_of_not {counts : Prop} (h : ¬counts) (s : Session)
    (es es' : List ScriptError) :
    SameButOrder counts (s.reporting es) (s.reporting es') :=
  ⟨_, rfl, fun hcounts => absurd hcounts h⟩

end

/-- A failed statement is always dealt with. -/
theorem exists_runFrom_recover (e : ScriptError) (s : Session) :
    ∃ o t, (recover e).runFrom s = .ok (o, t) := by
  unfold recover
  split
  · exact ⟨_, _, rfl⟩
  · split
    · exact ⟨_, _, rfl⟩
    · unfold raise
      split
      · exact ⟨_, _, rfl⟩
      · exact ⟨_, _, rfl⟩

/-- Actions with the same answer have it also when their failure is logged. -/
theorem guarded_alike {α : Type} {I : Session → Session → Prop} (hI : Alike I)
    {act act' : Action Session α}
    {s s' : Session} (h : AnswersAlike I act act' s s') (fallback : α) :
    AnswersAlike I (guarded fallback act) (guarded fallback act') s s' := by
  refine h.attempt_bind fun p t t' ht => ?_
  cases p with
  | ok a => exact ⟨_, t, t', rfl, rfl, ht⟩
  | error e =>
    refine .of_follows (.bind (recover_follows hI e) fun _ => .pure _) ht ?_
    obtain ⟨o, u, hu⟩ := exists_runFrom_recover e t
    rw [Action.runFrom_bind, hu]
    cases o with
    | ok _ => exact ⟨_, _, rfl⟩
    | error _ => exact ⟨_, _, rfl⟩

end Session

/-- Where the variable exists, a path below it that leads nowhere is no error. -/
theorem Store.recoverable_of_get {st : Store} {path : String} {e : ScriptError}
    (hbase : st.contains (Path.baseName path) = true) (h : st.get path = .error e) :
    e.recoverable = true := by
  unfold get at h
  cases hparse : Path.parse path with
  | error e' =>
    rw [hparse] at h
    cases h
    obtain ⟨segment, -, rfl⟩ := Path.invalidKey_of_parse hparse
    rfl
  | ok p =>
    obtain ⟨found, hfound⟩ := Option.isSome_iff_exists.1 hbase
    rw [hparse] at h
    dsimp only at h
    rw [Path.base_of_parse hparse, hfound] at h
    dsimp only at h
    split at h
    · cases h
      rfl
    · cases h

namespace Session

/-! ## The two assignments -/

variable {path src : String} {store : Store} {run : SourceRunner}

/-- A variable that exists can be read, whatever the path below it. -/
theorem exists_runFrom_readVariable (hbase : store.contains (Path.baseName path) = true) :
    ∃ v es, ∀ s : Session, s.store = store →
      (readVariable path).runFrom s = .ok (.ok v, s.reporting es) := by
  cases hget : store.get path with
  | ok v =>
    refine ⟨v, [], fun s hs => ?_⟩
    rw [runFrom_readVariable, hs, hget, reporting_nil]
  | error e =>
    refine ⟨.null, [e], fun s hs => ?_⟩
    rw [runFrom_readVariable, hs, hget]
    exact if_pos (Store.recoverable_of_get hbase hget)

/-- The last part of an assignment: the values are combined and written. -/
def writeResult (path : String) (op : Operator) (current rhs : Value) : Action Session Unit := do
  let v ← Action.ofExcept (op.apply current rhs)
  updateStore fun st => st.set path v

/-- Combining and writing the values goes alike in related sessions, and always has an answer. -/
theorem writeResult_alike {I : Session → Session → Prop} (hI : Alike I) (op : Operator)
    (v w : Value) {s s' : Session} (hs : I s s') :
    AnswersAlike I (writeResult path op v w) (writeResult path op v w) s s' := by
  refine .of_follows (.bind (.ofExcept _) fun x => updateStore_follows hI _) hs ?_
  unfold writeResult
  rw [Action.runFrom_bind, Action.runFrom_ofExcept]
  cases op.apply v w with
  | error e => exact ⟨_, _, rfl⟩
  | ok x =>
    dsimp only
    rw [runFrom_updateStore]
    cases s.store.set path x with
    | error e => exact ⟨_, _, rfl⟩
    | ok st => exact ⟨_, _, rfl⟩

section

variable {mode : AssignMode} {op : Operator} {s : Session}

/-- A compound assignment evaluates the formula, reads the variable and writes the result. -/
theorem runFrom_assign_compound (hop : mode.operator? = some op) (hsrc : Formula.CallFree src)
    (hbase : s.store.contains (Path.baseName path) = true)
    (hwritable : s.store.lifetime? (Path.baseName path) ≠ some .constant) :
    (assign run path mode src).runFrom s =
      (evaluateWith run src >>= fun w => readVariable path >>= fun v =>
        writeResult path op v w).runFrom s := by
  obtain ⟨o, es, heval⟩ : Reports s.store (evaluateWith run src) := evaluateWith_reports hsrc
  have hmode : mode ≠ .replace := by
    rintro rfl
    cases hop
  rw [assign, Action.runFrom_get_bind, if_neg hwritable, Action.runFrom_bind, Action.runFrom_bind,
    heval s rfl]
  cases o with
  | error e => rfl
  | ok w =>
    have hbase' : (s.reporting es).store.contains (Path.baseName path) = true := hbase
    dsimp only
    rw [Action.runFrom_bind, currentValue, Action.runFrom_get_bind, if_neg hmode, if_pos hbase',
      Action.runFrom_bind]
    simp only [AssignMode.combine_of_operator? hop]
    rfl

/-- The spelled-out assignment reads the variable first. -/
theorem runFrom_assign_operation (hpath : Path.IsPlain path) {ts : List Token}
    (htokens : Formula.tokens src = .ok ts)
    (hwritable : s.store.lifetime? (Path.baseName path) ≠ some .constant) :
    (assign run path .replace (Formula.operation path op src)).runFrom s =
      (readVariable path >>= fun v => evaluateWith run src >>= fun w =>
        writeResult path op v w).runFrom s := by
  obtain ⟨first, rest, hchars, hstart, hrest⟩ := hpath
  have hvalue : evaluateWith run (Formula.operation path op src) =
      readVariable path >>= fun v =>
        evaluateWith run src >>= fun w => Action.ofExcept (op.apply v w) :=
    Formula.evaluate_operation (host run) hchars hstart hrest op htokens
  have hreplace : ∀ x : Value, (currentValue path .replace >>= fun current =>
      Action.ofExcept (AssignMode.replace.combine current x) >>= fun v =>
        updateStore fun st => st.set path v) = updateStore fun st => st.set path x := fun x => rfl
  rw [assign, Action.runFrom_get_bind, if_neg hwritable]
  simp only [hvalue, bind_assoc, hreplace]
  rfl

/-- **The two assignments** have the same answer. -/
theorem assign_alike (hpath : Path.IsPlain path) (hop : mode.operator? = some op) {ts : List Token}
    (htokens : Formula.tokens src = .ok ts) (hsrc : Formula.CallFree src)
    (hbase : s.store.contains (Path.baseName path) = true) :
    AnswersAlike (SameButOrder (∃ w t, (evaluateWith run src).runFrom s = .ok (.ok w, t)))
      (assign run path mode src)
      (assign run path .replace (Formula.operation path op src)) s s := by
  by_cases hconstant : s.store.lifetime? (Path.baseName path) = some .constant
  · have hrefused : ∀ mode src, (assign run path mode src).runFrom s =
        .ok (.error (.assignConst (Path.baseName path)), s) := by
      intro mode src
      rw [assign, Action.runFrom_get_bind, if_pos hconstant]
      rfl
    exact ⟨_, s, s, hrefused _ _, hrefused _ _, s.log, rfl, fun _ => .refl _⟩
  · obtain ⟨o, es, heval⟩ : Reports s.store (evaluateWith run src) := evaluateWith_reports hsrc
    obtain ⟨v, es', hread⟩ := exists_runFrom_readVariable hbase
    unfold AnswersAlike
    generalize hcounts : (∃ w t, (evaluateWith run src).runFrom s = .ok (.ok w, t)) = counts
    rw [runFrom_assign_compound hop hsrc hbase hconstant,
      runFrom_assign_operation hpath htokens hconstant, Action.runFrom_bind, Action.runFrom_bind,
      hread s rfl, heval s rfl]
    dsimp only
    rw [Action.runFrom_bind, heval (s.reporting es') rfl]
    cases o with
    | error e =>
      -- only the second has read the variable
      have hfails : ¬counts := by
        rw [← hcounts]
        rintro ⟨w, t, hok⟩
        rw [heval s rfl] at hok
        cases hok
      refine ⟨_, _, _, rfl, rfl, ?_⟩
      rw [reporting_reporting]
      exact sameButOrder_of_not hfails s es (es' ++ es)
    | ok w =>
      dsimp only
      rw [Action.runFrom_bind, hread (s.reporting es) rfl]
      exact writeResult_alike (matching_sameButOrder _).toAlike op v w
        (sameButOrder_reporting _ s es es')

end

/-- Blanks around the formula of an assignment make no difference. -/
theorem assign_trim (run : SourceRunner) (path : String) (mode : AssignMode) (src : String) :
    assign run path mode (Text.trim src) = assign run path mode src := by
  have hvalue : evaluateWith run (Text.trim src) = evaluateWith run src :=
    Formula.evaluate_eq_of_tokens (host run) (Formula.tokens_trim src)
  rw [assign, assign, hvalue]

end Session

/-! ## Lines -/

namespace Activation

open Session (guarded)

variable {path src : String} {mode : AssignMode} {line : String}

/-- **The line of an assignment**: a failure is logged, and the run goes on unless it is an error.

**Proof sketch.** An inactive block passes the line. In an active one both sides run the assignment
and then do the same about its outcome: `recover` an error, and go on. -/
theorem runFrom_runOutside_set (hparse : Statement.parse line = .ok (.set path mode src))
    (run : SourceRunner) (index : Nat) (a : Activation) :
    (runOutside run index line).runFrom a =
      if a.blocks.active then
        (onSession
          (guarded none (Session.assign run path mode src >>= fun _ => pure none))).runFrom a
      else .ok (.ok none, a) := by
  unfold runOutside runLine
  rw [hparse, Action.runFrom_attempt_bind, Action.runFrom_bind, Action.runFrom_ofExcept]
  dsimp only [runStatement]
  rw [Action.runFrom_get_bind]
  by_cases hactive : a.blocks.active = true
  · rw [if_pos hactive, if_pos hactive, onSession, onSession, Action.runFrom_zoom,
      Action.runFrom_zoom, Session.runFrom_guarded, Session.runSimple, Action.runFrom_bind,
      Action.runFrom_bind]
    rcases (Session.assign run path mode src).runFrom a.session with reason | ⟨e | ⟨⟩, t⟩
    · rfl
    · dsimp only
      rw [Action.runFrom_bind, onSession, Action.runFrom_zoom]
      dsimp only
      rcases (Session.recover e).runFrom t with reason | ⟨e' | ⟨⟩, u⟩
      · rfl
      · rfl
      · rfl
    · rfl
  · rw [if_neg hactive, if_neg hactive]
    rfl

/-- Two assignments with the same answer, each on its line. Where statements are skipped, both are.
-/
theorem runOutside_set_alike {I : Session → Session → Prop} (hI : Session.Alike I)
    {run : SourceRunner} {line' path' src' : String} {mode' : AssignMode} {a : Activation}
    (hparse : Statement.parse line = .ok (.set path mode src))
    (hparse' : Statement.parse line' = .ok (.set path' mode' src'))
    (hsession : I a.session a.session)
    (h : AnswersAlike I (Session.assign run path mode src)
      (Session.assign run path' mode' src') a.session
      a.session) (index : Nat) :
    ∃ o t t', (runOutside run index line).runFrom a = .ok (o, { a with session := t }) ∧
      (runOutside run index line').runFrom a = .ok (o, { a with session := t' }) ∧ I t t' := by
  rw [runFrom_runOutside_set hparse, runFrom_runOutside_set hparse']
  by_cases hactive : a.blocks.active = true
  · obtain ⟨o, t, t', ht, ht', htt'⟩ := Session.guarded_alike hI (h.bind_pure none) none
    refine ⟨o, t, t', ?_, ?_, htt'⟩
    · rw [if_pos hactive, onSession, Action.runFrom_zoom, ht]
    · rw [if_pos hactive, onSession, Action.runFrom_zoom, ht']
  · rw [if_neg hactive, if_neg hactive]
    exact ⟨.ok none, a.session, a.session, rfl, rfl, hsession⟩

end Activation

/-! ## Sources -/

namespace Session

open Activation (runOutside isIdle)

/-- **A source of one line** that holds a statement: this line is run, and then the source ends.

**Proof sketch.** The source has one line. Its step is the given one (`hfirst`), and if it goes on,
the next step finds no line and ends the source (`hlast`); the zone and the line are put back around
the two. -/
theorem runFrom_runner_of_line {code : String} (hline : '\n' ∉ code.toList)
    (hidle : isIdle (Text.trim code) = false) {steps : Nat} {zone : Option String} {s t : Session}
    {o : Except ScriptError (Option Value)}
    (hrun : (runOutside (runner (steps + 1)) 0 (Text.trim code)).runFrom
      { session := { s with zone := zone, line := 1 }, next := 1 } =
        .ok (o, { session := t, next := 1 })) :
    (runner (steps + 2) code zone).runFrom s =
      .ok (settle t.settings (o.map fun v => v.getD (.bool true)),
        { t with zone := s.zone, line := s.line }) := by
  have hne : code.toList ≠ [] := by
    intro hnil
    rw [String.toList_eq_nil_iff.1 hnil] at hidle
    cases hidle
  have hfirst : (Activation.step (runner (steps + 1)) #[code]).runFrom
      { session := { s with zone := zone } } = .ok (o, { session := t, next := 1 }) := by
    have hcode : #[code][0]?.map Text.trim = some (Text.trim code) := rfl
    rw [Activation.runFrom_step hcode, if_neg (by decide), hidle, if_neg (by decide)]
    exact hrun
  have hlast : (Activation.step (runner steps) #[code]).runFrom { session := t, next := 1 } =
      .ok (.ok (some (.bool true)), { session := t, next := 1 }) := by
    rw [Activation.runFrom_step_of_none rfl]
    rfl
  -- a value that is given back ends the source at once, and so does an error
  have hends : Activation.run (steps + 2) #[code] { session := { s with zone := zone } } =
      .ok (o.map fun v => v.getD (.bool true), t) := by
    rw [Activation.run_succ_eq_ok]
    refine ⟨o, _, hfirst, ?_⟩
    rcases o with e | (_ | v)
    · exact ⟨rfl, rfl⟩
    · exact Activation.run_succ_eq_ok.2 ⟨_, _, hlast, rfl, rfl⟩
    · exact ⟨rfl, rfl⟩
  rw [runner, runFrom_runSource, Text.lines_of_notMem hline hne, hends]

variable {path src line line' : String} {mode : AssignMode} {op : Operator}

/-- How many steps are left makes no difference to a formula without calls. -/
theorem runFrom_evaluate_eq (hsrc : Formula.CallFree src) (n m : Nat) (s : Session) :
    (evaluate n src).runFrom s = (evaluate m src).runFrom s := by
  wlog hle : n ≤ m generalizing n m
  · exact (this m n (by omega)).symm
  obtain ⟨o, es, heval⟩ : Reports s.store (evaluateWith (runner n) src) := evaluateWith_reports hsrc
  have hmore : Follows Eq (evaluateWith (runner n) src) (evaluateWith (runner m) src) :=
    evaluateWith_follows matching_eq.toAlike (fun code zone =>
      runner_follows matching_eq hle code zone) src
  exact (heval s rfl).trans (hmore.runFrom_eq_ok (heval s rfl)).symm

/-- A formula without calls that has a value has one at every place. -/
theorem exists_runFrom_evaluateWith (hsrc : Formula.CallFree src) {run : SourceRunner}
    {s s' t : Session}
    (hstore : s.store = s'.store) {w : Value}
    (h : (evaluateWith run src).runFrom s = .ok (.ok w, t)) :
    ∃ w t, (evaluateWith run src).runFrom s' = .ok (.ok w, t) := by
  obtain ⟨o, es, heval⟩ : Reports s'.store (evaluateWith run src) := evaluateWith_reports hsrc
  rw [heval s hstore] at h
  cases h
  exact ⟨w, _, heval s' rfl⟩

/-- A compound assignment and the spelled-out one, each on its line. -/
theorem runOutside_compound {ts : List Token} (hpath : Path.IsPlain path)
    (hop : mode.operator? = some op)
    (hparse : Statement.parse line = .ok (.set path mode (Text.trim src)))
    (hparse' : Statement.parse line' =
      .ok (.set path .replace (Text.trim (Formula.operation path op src))))
    (htokens : Formula.tokens src = .ok ts) (hsrc : Formula.CallFree src) (run : SourceRunner)
    (index : Nat) (a : Activation) (hbase : a.session.store.contains (Path.baseName path) = true) :
    ∃ o t t', (runOutside run index line).runFrom a = .ok (o, { a with session := t }) ∧
      (runOutside run index line').runFrom a = .ok (o, { a with session := t' }) ∧
      SameButOrder (∃ w u, (evaluateWith run src).runFrom a.session = .ok (.ok w, u)) t t' := by
  refine Activation.runOutside_set_alike (matching_sameButOrder _).toAlike hparse hparse'
    ⟨a.session.log, rfl, fun _ => .refl _⟩ ?_ index
  rw [assign_trim, assign_trim]
  exact assign_alike hpath hop htokens hsrc hbase

/-- **A compound assignment does what the spelled-out one does.** Take a path whose variable exists,
one of the four operators, and a formula without line feeds and without calls. Then `set $path op
formula` and `set $path = $path op (formula)` have the same outcome, from any point of any source,
and also each as a source of its own. They leave the same session, up to its log; and if the formula
has a value, the logs differ in the order of their messages only.

**Proof sketch.** Both lines are read as put together (`Statement.parse_setLine`), and the formula
on the right of the second reads the variable, evaluates the formula in parentheses and applies the
operator (`Formula.evaluate_operation`). What the variable and the formula report depends on the
variables only (`evaluateWith_reports`), so that the order in which they are evaluated shows in the
log alone (`assign_alike`). From there on the two go the same way (`matching_sameButOrder`). -/
theorem compound_assignment {ts : List Token} (hpath : Path.IsPlain path)
    (hop : op ∈ [Operator.add, .sub, .mul, .div]) (hline : '\n' ∉ src.toList)
    (htokens : Formula.tokens src = .ok ts) (hsrc : Formula.CallFree src) :
    (∀ (run : SourceRunner) (index : Nat) (a : Activation),
      a.session.store.contains (Path.baseName path) = true →
      ∃ o t t',
        (runOutside run index (Text.trim (Statement.setLine path op.symbol src))).runFrom a =
          .ok (o, { a with session := t }) ∧
        (runOutside run index
            (Text.trim (Statement.setLine path "=" (Formula.operation path op src)))).runFrom a =
          .ok (o, { a with session := t' }) ∧
        SameButOrder (∃ w u, (evaluateWith run src).runFrom a.session = .ok (.ok w, u)) t t') ∧
    ∀ (steps : Nat) (zone : Option String) (s : Session),
      s.store.contains (Path.baseName path) = true →
      ∃ o t t' messages messages',
        (runner (steps + 2) (Statement.setLine path op.symbol src) zone).runFrom s = .ok (o, t) ∧
        (runner (steps + 2) (Statement.setLine path "=" (Formula.operation path op src))
          zone).runFrom s =
          .ok (o, t') ∧
        t' = { t with log := t'.log } ∧
        t.log.toList = s.log.toList ++ messages ∧ t'.log.toList = s.log.toList ++ messages' ∧
        ∀ n w u, (evaluate n src).runFrom s = .ok (.ok w, u) → messages.Perm messages' := by
  obtain ⟨mode, hmode⟩ : ∃ mode : AssignMode, mode.operator? = some op := by
    simp only [List.mem_cons, List.not_mem_nil, or_false] at hop
    rcases hop with rfl | rfl | rfl | rfl
    exacts [⟨.add, rfl⟩, ⟨.sub, rfl⟩, ⟨.mul, rfl⟩, ⟨.div, rfl⟩]
  have hoperation : '\n' ∉ (Formula.operation path op src).toList :=
    hpath.notMem_operation op hline
  obtain ⟨ts', htokens'⟩ := hpath.exists_tokens_operation op htokens
  have hparse := Statement.parse_setLine hpath mode hline
    (Formula.trimChars_ne_nil_of_tokens htokens)
  have hparse' := Statement.parse_setLine hpath .replace hoperation
    (Formula.trimChars_ne_nil_of_tokens htokens')
  have hfeed := Statement.notMem_setLine hpath mode hline
  have hfeed' := Statement.notMem_setLine hpath .replace hoperation
  have hequals : String.singleton AssignMode.replace.sign = "=" := rfl
  rw [← AssignMode.symbol_of_operator? hmode] at hparse hfeed
  rw [hequals] at hparse' hfeed'
  have hlines := runOutside_compound hpath hmode hparse hparse' htokens hsrc
  refine ⟨hlines, fun steps zone s hbase => ?_⟩
  -- the line is run at its place in the source, where the formula has the same value
  have hplace : s.store = { s with zone := zone, line := 1 : Session }.store := rfl
  obtain ⟨o, t, t', ht, ht', log, rfl, hperm⟩ :=
    hlines (runner (steps + 1)) 0 { session := { s with zone := zone, line := 1 }, next := 1 } hbase
  have hrun := runFrom_runner_of_line hfeed (Activation.isIdle_of_parse hparse) ht
  have hrun' := runFrom_runner_of_line hfeed' (Activation.isIdle_of_parse hparse') ht'
  obtain ⟨messages, hmessages⟩ := (runner_grows hrun).log
  obtain ⟨messages', hmessages'⟩ := (runner_grows hrun').log
  refine ⟨_, _, _, messages, messages', hrun, hrun', rfl, hmessages.symm, hmessages'.symm, ?_⟩
  intro n w u hvalue
  rw [runFrom_evaluate_eq hsrc n (steps + 1)] at hvalue
  have hlogs := hperm (exists_runFrom_evaluateWith hsrc hplace hvalue)
  dsimp only at hmessages hmessages'
  rw [← hmessages, ← hmessages', List.perm_append_left_iff] at hlogs
  exact hlogs

/-- A session with one variable, that holds nothing. -/
def bare : Session :=
  { store := Store.empty.write "a" ⟨.null, .localScope⟩ }

/-- Two keys that are missing, and a division by zero. -/
theorem compound_assignment_bare :
    ∃ o t t' messages messages',
      (runner 2 "set $a.k / $a.z" none).runFrom bare = .ok (o, t) ∧
      (runner 2 "set $a.k = $a.k / ($a.z)" none).runFrom bare = .ok (o, t') ∧
      t' = { t with log := t'.log } ∧
      t.log.toList = bare.log.toList ++ messages ∧ t'.log.toList = bare.log.toList ++ messages' ∧
      messages.Perm messages' := by
  have hpath : Path.IsPlain "a.k" := ⟨'a', ['.', 'k'], rfl, rfl, List.all_eq_true.1 rfl⟩
  have htokens : Formula.tokens "$a.z" = .ok [.reference "a.z"] :=
    Formula.tokens_of_operand (.reference 'a' ['.', 'z'] rfl (List.all_eq_true.1 rfl))
  have hsrc : Formula.CallFree "$a.z" := Formula.callFree_of_inner? (by decide +kernel)
  have hvalue : ∃ w u, (evaluate 0 "$a.z").runFrom bare = .ok (.ok w, u) := by
    have hobserved : ((evaluate 0 "$a.z").runFrom bare).toOption.any (fun r => r.1.isOk) =
        true := by
      decide +kernel
    rcases hrun : (evaluate 0 "$a.z").runFrom bare with reason | ⟨e | w, u⟩
    · rw [hrun] at hobserved
      cases hobserved
    · rw [hrun] at hobserved
      cases hobserved
    · exact ⟨w, u, rfl⟩
  obtain ⟨w, u, hvalue⟩ := hvalue
  obtain ⟨o, t, t', messages, messages', ht, ht', hsame, hmessages, hmessages', hperm⟩ :=
    (compound_assignment hpath (show Operator.div ∈ _ by decide) (by decide) htokens hsrc).2
      0 none bare (by decide +kernel)
  exact ⟨o, t, t', messages, messages', ht, ht', hsame, hmessages, hmessages', hperm 0 w u hvalue⟩

end Session

end LineScript
