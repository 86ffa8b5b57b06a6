import LineScript.Proofs.Session.Abreast
import LineScript.Proofs.Session.Errors

set_option relaxedAutoImplicit false
set_option autoImplicit false

/-!
# Where strict and lenient runs part

A run whose errors are thrown and one whose errors are not, from sessions that differ in nothing
else, go side by side up to the first error: step by step they come to the same sessions, in the
source that is run and in all sources that are run from within it. Where the error is raised the two
part. The strict run ends with it, and what is left to be done is to put back variables and places.
The lenient run goes on, and its output and log continue those at the parting.

## Main definitions

* `LineScript.Action.Reaches` — an action comes to run a source.
* `LineScript.Activation.AbreastUntil` — two runs go side by side until an error is raised.
* `LineScript.Activation.RunsAbreast` — what is known of the runs with a number of steps.

## Main results

* `LineScript.Activation.runsAbreast` — runs go side by side, for every number of steps.
* `LineScript.Session.runs_part_at_error` — whether errors are thrown matters only from the first
  error on.
-/

namespace LineScript

open LineScript.Action (Abreast AbreastAt Continues Passes)

/-! ## Sources that are reached -/

open Classical in
/-- Sources are run as by `run`, except that the request stops. -/
noncomputable def Request.stopping (q : Request) (run : SourceRunner) (reason : Stop) :
    SourceRunner :=
  fun code zone => ExceptT.mk fun s =>
    if q = ⟨code, zone, s⟩ then .error reason else (run code zone).runFrom s

/-- The action comes to run the source of the request: if only that request stops, the action stops,
and for the same reason. -/
def Action.Reaches {σ α : Type} (run : SourceRunner) (act : SourceRunner → Action σ α) (s : σ)
    (q : Request) : Prop :=
  ∀ reason, (act (q.stopping run reason)).runFrom s = .error reason

namespace Request

variable {p q : Request} {run : SourceRunner} {reason : Stop}

/-- The request at which runs are stopped has no answer. -/
theorem answer_stopping_self : q.answer (q.stopping run reason) = .error reason :=
  if_pos rfl

/-- All other requests have the answers that they had. -/
theorem answer_stopping_of_ne (h : q ≠ p) : p.answer (q.stopping run reason) = p.answer run :=
  if_neg h

/-- A lenient request is none from a strict session. -/
theorem lenient_ne (hp : p.session.IsStrict) : q.lenient ≠ p := by
  rintro rfl
  cases hp

/-- Requests from strict sessions are told apart by their lenient ones. -/
theorem lenient_injective (hp : p.session.IsStrict) (hq : q.session.IsStrict)
    (h : q.lenient = p.lenient) : q = p := by
  obtain ⟨code, zone, s⟩ := p
  obtain ⟨code', zone', t⟩ := q
  simp only [lenient, mk.injEq] at h
  obtain ⟨rfl, rfl, h⟩ := h
  have hs : s.IsStrict := hp
  have ht : t.IsStrict := hq
  have hsession : t = s := by rw [← Session.strict_lenient ht, h, Session.strict_lenient hs]
  rw [hsession]

/-- Where a source raises an error, it may as well be stopped, from the strict session or from the
lenient one. -/
theorem calm_stopping (htame : Tame run) (hq : q.session.IsStrict) {m : Message} {w : Session}
    (hraised : q.answer run = .ok (.error (.raised m), w)) :
    Calm run (q.stopping run reason) ∧ Calm run (q.lenient.stopping run reason) := by
  have hne {p : Request} {o : Except ScriptError Value} {w' : Session}
      (hanswer : p.answer run = .ok (o, w')) (ho : raisedIn? o = none) : q ≠ p := by
    rintro rfl
    rw [hraised] at hanswer
    cases hanswer
    cases ho
  constructor
  · refine .inr fun p o w' hp hanswer ho => ⟨?_, ?_⟩
    · rw [answer_stopping_of_ne (hne hanswer ho), hanswer]
    · rw [answer_stopping_of_ne (lenient_ne hq).symm]
      exact (htame.1 p o w' hp hanswer ho).2
  · refine .inr fun p o w' hp hanswer ho => ⟨?_, ?_⟩
    · rw [answer_stopping_of_ne (lenient_ne hp), hanswer]
    · rw [answer_stopping_of_ne fun h => hne hanswer ho (lenient_injective hp hq h)]
      exact (htame.1 p o w' hp hanswer ho).2

end Request

/-- A source whose error passes through an action is reached by it, in both sessions. -/
theorem Action.Passes.reaches {σ α : Type} [Lenience σ] {run : SourceRunner} (htame : Tame run)
    {act : SourceRunner → Action σ α} {s s' : σ} {q : Request} {m : Message} {w : Session}
    {o : Except ScriptError α} (h : Passes run act s q m w o s') :
    Reaches run act s q ∧ Reaches run act (Lenience.lenient s) q.lenient := by
  constructor
  · intro reason
    exact h.stops _ reason (Request.calm_stopping htame h.isStrict h.raised).1
      Request.answer_stopping_self
  · intro reason
    exact h.stops_lenient _ reason (Request.calm_stopping htame h.isStrict h.raised).2
      Request.answer_stopping_self

/-! ## Runs side by side -/

namespace Activation

open Lenience (lenient)

/-- The activation that a request starts. -/
def ofRequest (q : Request) : Activation :=
  { session := { q.session with zone := q.zone } }

/-- With `n` steps left, a source is run side by side from `a` and from the lenient activation,
until the error `m` is raised and logged in the session `c`. In each step, both are at the same
line, with the same blocks, and in the same session but for the setting. The error may be raised in
the step, and a lenient step that could not load a source is spared it; in a later step; or in a
source that the step comes to run. -/
inductive AbreastUntil : Nat → Array String → Activation → Message → Session → Prop
  | raised {n : Nat} {lines : Array String} {a b : Activation} {m : Message}
      {r : Except ScriptError (Option Value)} :
      (step (Session.runner n) lines).runFrom a = .ok (.error (.raised m), b) →
      (step (Session.runner n) lines).runFrom (lenient a) = .ok (r, lenient b) →
      r = .error (.raised m) ∨ r = .ok none → AbreastUntil (n + 1) lines a m b.session
  | later {n : Nat} {lines : Array String} {a b : Activation} {m : Message} {c : Session} :
      (step (Session.runner n) lines).runFrom a = .ok (.ok none, b) →
      (step (Session.runner n) lines).runFrom (lenient a) = .ok (.ok none, lenient b) →
      AbreastUntil n lines b m c → AbreastUntil (n + 1) lines a m c
  | inside {n : Nat} {lines : Array String} {a : Activation} {q : Request} {m : Message}
      {c : Session} :
      Action.Reaches (Session.runner n) (fun run => step run lines) a q →
      Action.Reaches (Session.runner n) (fun run => step run lines) (lenient a) q.lenient →
      AbreastUntil n (Text.lines q.code).toArray (ofRequest q) m c →
        AbreastUntil (n + 1) lines a m c

/-- Runs with at most `n` steps go side by side: to the same end, if no error is raised, or until
the error. -/
structure RunsAbreast (n : Nat) : Prop where
  ends : ∀ lines a o t, a.session.IsStrict → run n lines a = .ok (o, t) → raisedIn? o = none →
    t.IsStrict ∧ run n lines (lenient a) = .ok (o, t.lenient)
  parts : ∀ lines a m t, a.session.IsStrict → run n lines a = .ok (.error (.raised m), t) →
    t.IsStrict ∧ ∃ c, AbreastUntil n lines a m c ∧ c.Unwound t ∧
      ∀ o' t', run n lines (lenient a) = .ok (o', t') → Continues c t'
  grows : ∀ lines a o t, a.session.IsStrict → run n lines (lenient a) = .ok (o, t) →
    Continues a.session t

end Activation

namespace Session

/-- Settling leaves an outcome that was not raised as it is. -/
theorem settle_of_unraised (settings : Settings) {outcome : Except ScriptError Value}
    (h : raisedIn? outcome = none) : settle settings outcome = outcome := by
  unfold settle
  split
  · cases h
  · rfl

/-- The answer to a request is the settled outcome of a run. -/
theorem answer_runner_eq_ok {n : Nat} {q : Request} {o : Except ScriptError Value} {w : Session} :
    q.answer (runner n) = .ok (o, w) ↔
      ∃ outcome ended,
        Activation.run n (Text.lines q.code).toArray (.ofRequest q) = .ok (outcome, ended) ∧
        o = settle ended.settings outcome ∧
        w = { ended with zone := q.session.zone, line := q.session.line } := by
  have hstart : Activation.ofRequest q = { session := { q.session with zone := q.zone } } := rfl
  unfold Request.answer runner
  rw [runFrom_runSource, ← hstart]
  rcases Activation.run n (Text.lines q.code).toArray (.ofRequest q) with reason | ⟨outcome, ended⟩
  · simp
  · constructor
    · intro h
      cases h
      exact ⟨outcome, ended, rfl, rfl, rfl⟩
    · rintro ⟨outcome', ended', heq, rfl, rfl⟩
      cases heq
      rfl

/-- Where errors are thrown, settling leaves every outcome as it is. -/
theorem settle_of_isStrict {s : Session} (hs : s.IsStrict) (outcome : Except ScriptError Value) :
    settle s.settings outcome = outcome := by
  have hthrow : s.settings.throwErrors = true := hs
  unfold settle
  split
  · rw [if_pos hthrow]
  · rfl

end Session

namespace Activation

open Lenience (lenient)

variable {n : Nat}

/-- What a source answers from a strict session is the outcome of its run. -/
theorem RunsAbreast.run_of_answer (hn : RunsAbreast n) {q : Request} (hq : q.session.IsStrict)
    {o : Except ScriptError Value} {w : Session} (h : q.answer (Session.runner n) = .ok (o, w)) :
    ∃ ended, run n (Text.lines q.code).toArray (ofRequest q) = .ok (o, ended) ∧
      w = { ended with zone := q.session.zone, line := q.session.line } := by
  obtain ⟨outcome, ended, hrun, rfl, rfl⟩ := Session.answer_runner_eq_ok.1 h
  refine ⟨ended, ?_, rfl⟩
  have hended : ended.IsStrict := by
    cases hraised : raisedIn? outcome with
    | none => exact (hn.ends _ _ _ _ hq hrun hraised).1
    | some m =>
      obtain rfl := eq_of_raisedIn? hraised
      exact (hn.parts _ _ _ _ hq hrun).1
  rw [hrun, Session.settle_of_isStrict hended]

/-- **Sources are tame** if their runs go side by side. -/
theorem RunsAbreast.tame (hn : RunsAbreast n) : Tame (Session.runner n) := by
  constructor
  · intro q o w hq h ho
    obtain ⟨ended, hrun, rfl⟩ := hn.run_of_answer hq h
    obtain ⟨hended, hlenient⟩ := hn.ends _ _ _ _ hq hrun ho
    refine ⟨hended, Session.answer_runner_eq_ok.2 ⟨o, ended.lenient, hlenient, ?_, rfl⟩⟩
    rw [Session.settle_of_unraised _ ho]
  · intro q o w hq h
    obtain ⟨outcome, ended, hrun, -, rfl⟩ := Session.answer_runner_eq_ok.1 h
    obtain ⟨t, ht, rfl, hext⟩ := hn.grows _ (ofRequest q) _ _ hq hrun
    exact ⟨{ t with zone := q.session.zone, line := q.session.line }, ht, rfl, hext.log,
      hext.output⟩

/-- A source that raises an error goes side by side until then, and the lenient answer continues
what there is at the parting. -/
theorem RunsAbreast.parts_of_answer (hn : RunsAbreast n) {q : Request} (hq : q.session.IsStrict)
    {m : Message} {w : Session} (h : q.answer (Session.runner n) = .ok (.error (.raised m), w)) :
    w.IsStrict ∧ ∃ c, AbreastUntil n (Text.lines q.code).toArray (ofRequest q) m c ∧ c.Unwound w ∧
      ∀ o' w', q.lenient.answer (Session.runner n) = .ok (o', w') → c.Extends w' := by
  obtain ⟨ended, hrun, rfl⟩ := hn.run_of_answer hq h
  obtain ⟨hended, c, huntil, hunwound, hcontinues⟩ := hn.parts _ _ _ _ hq hrun
  have hplace : ended.Unwound { ended with zone := q.session.zone, line := q.session.line } :=
    ⟨rfl, rfl, rfl, rfl, rfl, rfl⟩
  refine ⟨hended, c, huntil, hunwound.trans hplace, fun o' w' hlenient => ?_⟩
  obtain ⟨outcome, ended', hrun', -, rfl⟩ := Session.answer_runner_eq_ok.1 hlenient
  obtain ⟨u, -, rfl, hext⟩ := hcontinues outcome ended' hrun'
  exact ⟨hext.log, hext.output⟩

/-- What comes after a lenient step continues what the step came to. -/
theorem RunsAbreast.continues (hn : RunsAbreast n) {lines : Array String} {a b : Activation}
    (hb : b.session.IsStrict) {r : Except ScriptError (Option Value)}
    (hstep : (step (Session.runner n) lines).runFrom (lenient a) = .ok (r, lenient b))
    {o : Except ScriptError Value} {t : Session} (h : run (n + 1) lines (lenient a) = .ok (o, t)) :
    Continues b.session t := by
  obtain ⟨r', b', hstep', h⟩ := run_succ_eq_ok.1 h
  rw [hstep] at hstep'
  cases hstep'
  rcases r with e | (_ | v)
  · obtain ⟨-, rfl⟩ := h
    exact ⟨b.session, hb, rfl, .refl _⟩
  · exact hn.grows lines b o t hb h
  · obtain ⟨-, rfl⟩ := h
    exact ⟨b.session, hb, rfl, .refl _⟩

/-- One more step: a run that raises no error. -/
theorem RunsAbreast.ends_succ (hn : RunsAbreast n) {lines : Array String} {a : Activation}
    {o : Except ScriptError Value} {t : Session} (ha : a.session.IsStrict)
    (h : run (n + 1) lines a = .ok (o, t)) (ho : raisedIn? o = none) :
    t.IsStrict ∧ run (n + 1) lines (lenient a) = .ok (o, t.lenient) := by
  obtain ⟨r, b, hstep, h⟩ := run_succ_eq_ok.1 h
  have hraised {m : Message} : r ≠ .error (.raised m) := by
    rintro rfl
    obtain ⟨rfl, -⟩ := h
    cases ho
  rcases (step_abreast hn.tame lines a ha).ends r b hstep with
    ⟨r', rfl | ⟨m, v, hr, -, -⟩, htogether⟩ | ⟨q, m, w, hpasses⟩
  · have hlenient := (htogether.ends _ (.inl rfl)).2
    rcases r' with e | (_ | v)
    · obtain ⟨rfl, rfl⟩ := h
      exact ⟨htogether.isStrict, run_succ_eq_ok.2 ⟨_, _, hlenient, rfl, rfl⟩⟩
    · obtain ⟨ht, hrest⟩ := hn.ends lines b o t htogether.isStrict h ho
      exact ⟨ht, run_succ_eq_ok.2 ⟨_, _, hlenient, hrest⟩⟩
    · obtain ⟨rfl, rfl⟩ := h
      exact ⟨htogether.isStrict, run_succ_eq_ok.2 ⟨_, _, hlenient, rfl, rfl⟩⟩
  · exact absurd hr hraised
  · exact absurd hpasses.outcome hraised

/-- One more step: a run that raises an error, in the step, in a source that it runs, or later. -/
theorem RunsAbreast.parts_succ (hn : RunsAbreast n) {lines : Array String} {a : Activation}
    {m : Message}
    {t : Session} (ha : a.session.IsStrict)
    (h : run (n + 1) lines a = .ok (.error (.raised m), t)) :
    t.IsStrict ∧ ∃ c, AbreastUntil (n + 1) lines a m c ∧ c.Unwound t ∧
      ∀ o' t', run (n + 1) lines (lenient a) = .ok (o', t') → Continues c t' := by
  obtain ⟨r, b, hstep, h⟩ := run_succ_eq_ok.1 h
  -- a step that fails does so with the error that the run ends with
  have hfailed {m' : Message} (hr : r = .error (.raised m')) : m' = m ∧ t = b.session := by
    subst hr
    obtain ⟨he, rfl⟩ := h
    cases he
    exact ⟨rfl, rfl⟩
  rcases (step_abreast hn.tame lines a ha).ends r b hstep with
    ⟨r', rfl | ⟨m', v, hr, hv, rfl⟩, htogether⟩ | ⟨q, m', w, hpasses⟩
  · have hlenient := (htogether.ends _ (.inl rfl)).2
    have hb := htogether.isStrict
    rcases r' with e | (_ | v)
    · obtain ⟨he, rfl⟩ := h
      cases he
      exact ⟨hb, b.session, .raised hstep hlenient (.inl rfl), .refl _, fun _ _ =>
        hn.continues hb hlenient⟩
    · obtain ⟨ht, c, huntil, hunwound, hcontinues⟩ := hn.parts lines b m t hb h
      refine ⟨ht, c, .later hstep hlenient huntil, hunwound, fun o' t' hrun => ?_⟩
      obtain ⟨r', b', hstep', hrest⟩ := run_succ_eq_ok.1 hrun
      rw [hlenient] at hstep'
      cases hstep'
      exact hcontinues o' t' hrest
    · cases h.1
  · -- a source could not be loaded
    obtain ⟨rfl, rfl⟩ := hfailed hr
    subst hr
    cases hv
    have hlenient := (htogether.ends _ (.inl rfl)).2
    have hb := htogether.isStrict
    exact ⟨hb, b.session, .raised hstep hlenient (.inr rfl), .refl _, fun _ _ =>
      hn.continues hb hlenient⟩
  · obtain ⟨rfl, rfl⟩ := hfailed hpasses.outcome
    obtain ⟨hw, c, huntil, hunwound, hcontinued⟩ :=
      hn.parts_of_answer hpasses.isStrict hpasses.raised
    obtain ⟨hreaches, hreaches'⟩ := hpasses.reaches hn.tame
    refine ⟨hpasses.unwound.isStrict hw, c, .inside hreaches hreaches' huntil,
      hunwound.trans hpasses.unwound, fun o' t' hlenient => ?_⟩
    obtain ⟨r', b', hstep', -⟩ := run_succ_eq_ok.1 hlenient
    obtain ⟨p, u, hanswer, b'', hb'', rfl, hext⟩ := hpasses.goesOn r' b' hstep'
    exact .trans ((hcontinued p u hanswer).trans hext) (hn.continues hb'' hstep' hlenient)

/-- **Runs go side by side**, by induction on the steps they may take. The sources that a step runs
have fewer steps left, and the induction hypothesis speaks of them as well. -/
theorem runsAbreast (n : Nat) : RunsAbreast n := by
  induction n with
  | zero => exact ⟨fun _ _ _ _ _ h => (nomatch h), fun _ _ _ _ _ h => (nomatch h),
      fun _ _ _ _ _ h => (nomatch h)⟩
  | succ n ih =>
    refine ⟨fun _ _ _ _ => ih.ends_succ, fun _ _ _ _ => ih.parts_succ, fun lines a o t ha h => ?_⟩
    obtain ⟨r, b, hstep, -⟩ := run_succ_eq_ok.1 h
    obtain ⟨b', hb', rfl, hext⟩ := (step_abreast ih.tame lines a ha).grows r b hstep
    exact .trans hext (ih.continues hb' hstep h)

end Activation

namespace Session

/-- **Whether errors are thrown matters only from the first error on.** A source is run from two
sessions that differ in nothing but that setting. If the strict run has a result, the lenient run
has the same one, and leaves the same session but for the setting. If the strict run fails, it is
with an error that was raised; both runs go side by side until that error is raised and logged, and
in all that is left of the strict run only variables and places are put back, while the output and
the log of the lenient run continue those of that moment. The error is the first one that either run
logs, if host functions pass on nothing raised.

**Proof sketch.** One step goes side by side if the sources that it runs do
(`Activation.step_abreast`): either both end together, or both come to run a source that raises an
error. These sources have fewer steps left, so by induction on the steps whole runs go side by side
(`Activation.runsAbreast`). That the error is the first one is the account that every run keeps of
its errors (`kept_since`). -/
theorem runs_part_at_error (steps : Nat) (code : String) (s t : Session)
    (o : Except ScriptError Value) (h : (execute steps code).runFrom s.strict = .ok (o, t)) :
    (∀ v, o = .ok v → (execute steps code).runFrom s.lenient = .ok (.ok v, t.lenient)) ∧
    ∀ e, o = .error e → ∃ m c, e = .raised m ∧
      Activation.AbreastUntil steps (Text.lines code).toArray
        (.ofRequest ⟨code, none, s.strict⟩) m c ∧
      c.Unwound t ∧
      (∀ o' t', (execute steps code).runFrom s.lenient = .ok (o', t') → c.Extends t') ∧
      (s.functions.Plain → ∃ logged, c.log.toList = s.log.toList ++ logged ∧
        Accounts (some m) logged) := by
  have habreast := Activation.runsAbreast steps
  constructor
  · rintro v rfl
    exact (habreast.tame.1 ⟨code, none, s.strict⟩ (.ok v) t rfl h rfl).2
  · rintro e rfl
    obtain ⟨⟨m, rfl⟩, -⟩ := thrown_of_runner h
    obtain ⟨-, c, huntil, hunwound, hcontinued⟩ :=
      Activation.RunsAbreast.parts_of_answer habreast (q := ⟨code, none, s.strict⟩) rfl h
    refine ⟨m, c, rfl, huntil, hunwound, hcontinued, fun hplain => ?_⟩
    have hstart : Since s.strict none s.strict := since_start hplain
    obtain ⟨logged, hlog, haccounts⟩ :=
      (runner_upholds (kept_since s.strict) steps code none s.strict hstart _ t h).log
    rw [hunwound.log] at hlog
    exact ⟨logged, hlog, haccounts rfl⟩

/-- A source that calls a function, which prints and then fails, and prints again. -/
def failingSource : String :=
  "function f $x\n  echo $x\n  unknown\n  echo 'not reached'\nend\nf 'one'\necho 'two'"

/-- Both runs have printed one line when the error is raised within the function. There the strict
run ends, while the lenient run prints a second line. -/
theorem runs_part_at_error_failingSource :
    ∃ m c t o' t', (execute 60 failingSource).runFrom (strict {}) = .ok (.error (.raised m), t) ∧
      (execute 60 failingSource).runFrom (lenient {}) = .ok (o', t') ∧
      Activation.AbreastUntil 60 (Text.lines failingSource).toArray
        (.ofRequest ⟨failingSource, none, strict {}⟩) m c ∧
      c.output.toList = ["one"] ∧ errors c.log.toList = [m] ∧
      t.output.toList = ["one"] ∧ t'.output.toList = ["one", "two"] ∧ c.Extends t' := by
  have hstrict : ((execute 60 failingSource).runFrom (strict {})).toOption.map
      (fun r => (r.1.isOk, r.2.output.toList)) = some (false, ["one"]) := by
    decide +kernel
  have hlenient : ((execute 60 failingSource).runFrom (lenient {})).toOption.map
      (fun r => r.2.output.toList) = some ["one", "two"] := by
    decide +kernel
  rcases hrun : (execute 60 failingSource).runFrom (strict {}) with reason | ⟨e | v, t⟩
  · rw [hrun] at hstrict
    cases hstrict
  · rcases hrun' : (execute 60 failingSource).runFrom (lenient {}) with reason | ⟨o', t'⟩
    · rw [hrun'] at hlenient
      cases hlenient
    · rw [hrun] at hstrict
      rw [hrun'] at hlenient
      obtain ⟨-, hout⟩ := Prod.mk.inj (Option.some.inj hstrict)
      obtain ⟨m, c, rfl, huntil, hunwound, hcontinued, hfirst⟩ :=
        (runs_part_at_error 60 failingSource {} t (.error e) hrun).2 e rfl
      obtain ⟨logged, hlog, haccounts⟩ := hfirst FunctionTable.plain_empty
      obtain rfl : c.log.toList = logged := hlog
      refine ⟨m, c, t, o', t', rfl, rfl, huntil, ?_, haccounts.errors_eq, hout,
        Option.some.inj hlenient, hcontinued o' t' hrun'⟩
      rw [← hunwound.output]
      exact hout
  · rw [hrun] at hstrict
    cases hstrict

end Session

end LineScript
