import LineScript.Proofs.Action
import LineScript.Proofs.Causes
import LineScript.Session.Call

set_option relaxedAutoImplicit false
set_option autoImplicit false

/-!
# Runs that differ in whether errors are thrown

Whether errors are thrown is looked at only where a source ends. So an action does the same in a
*strict* session, whose errors are thrown, and in the *lenient* one that differs in nothing else, as
long as no source that it runs ends with an error. If one does, both have come to run that source in
the same way, and in the strict session its error passes outwards through all that is left of the
action.

Sources are run by a parameter of the action, which makes it possible to say that an action comes to
run a source: if only that source is stopped, the action stops.

## Main definitions

* `LineScript.Session.strict`, `LineScript.Session.lenient` — the session with errors thrown or not.
* `LineScript.Session.Extends`, `LineScript.Session.Unwound` — how sessions change as a run goes on,
  and as an error passes outwards.
* `LineScript.Request` — a source to be run; `LineScript.Calm` — another way to run sources, with
  the same answers where no error is raised.
* `LineScript.Action.Abreast` — an action that goes side by side with itself in lenient sessions.
* `LineScript.Action.Steady` — an action that runs no sources and is always the same in both.

## Main results

* `LineScript.Action.AbreastAt.attempt_bind`, `LineScript.Action.AbreastAt.bind`, … — going side by
  side passes from parts to wholes.
* `LineScript.Formula.evaluate_abreast` — evaluation goes side by side, if reading variables and
  calling functions do.
-/

namespace LineScript

/-! ## Strict and lenient sessions -/

namespace Session

/-- The session with errors thrown. -/
def strict (s : Session) : Session :=
  { s with settings := { s.settings with throwErrors := true } }

/-- The session with errors not thrown. -/
def lenient (s : Session) : Session :=
  { s with settings := { s.settings with throwErrors := false } }

/-- Errors are thrown. -/
def IsStrict (s : Session) : Prop :=
  s.settings.throwErrors = true

/-- A strict session is got back from its lenient one. -/
theorem strict_lenient {s : Session} (h : s.IsStrict) : s.lenient.strict = s := by
  obtain ⟨store, functions, output, ⟨silent, throwErrors, libs, importDir⟩, scope, zone, line, log,
    loader⟩ := s
  obtain rfl : throwErrors = true := h
  rfl

/-- The output and the log of `s` are continued in `t`. -/
structure Extends (s t : Session) : Prop where
  log : s.log.toList <+: t.log.toList
  output : s.output.toList <+: t.output.toList

namespace Extends

variable {s t u : Session}

/-- A session with the same log and output has continued both by nothing. -/
theorem of_eq (hlog : t.log = s.log) (houtput : t.output = s.output) : Extends s t :=
  ⟨hlog ▸ List.prefix_rfl, houtput ▸ List.prefix_rfl⟩

/-- A session continues itself. -/
theorem refl (s : Session) : Extends s s :=
  of_eq rfl rfl

/-- What continues a continuation continues the first session. -/
theorem trans (h : Extends s t) (h' : Extends t u) : Extends s u :=
  ⟨h.log.trans h'.log, h.output.trans h'.output⟩

/-- Logging a message continues the log. -/
theorem logged (s : Session) (m : Message) : Extends s (s.logged m) :=
  ⟨by simp [Session.logged], List.prefix_rfl⟩

/-- Printing a text continues the output. -/
theorem printed (s : Session) (text : String) : Extends s { s with output := s.output.push text } :=
  ⟨List.prefix_rfl, by simp⟩

end Extends

/-- An error has passed outwards from `s` to `t`: variables may have been put back, and the place.
-/
structure Unwound (s t : Session) : Prop where
  functions : t.functions = s.functions
  output : t.output = s.output
  settings : t.settings = s.settings
  scope : t.scope = s.scope
  log : t.log = s.log
  loader : t.loader = s.loader

namespace Unwound

/-- An error that passes nothing has changed nothing. -/
theorem refl (s : Session) : Unwound s s :=
  ⟨rfl, rfl, rfl, rfl, rfl, rfl⟩

/-- An error passes outwards step by step. -/
theorem trans {s t u : Session} (h : Unwound s t) (h' : Unwound t u) : Unwound s u where
  functions := h'.functions.trans h.functions
  output := h'.output.trans h.output
  settings := h'.settings.trans h.settings
  scope := h'.scope.trans h.scope
  log := h'.log.trans h.log
  loader := h'.loader.trans h.loader

/-- Errors stay thrown while one passes outwards. -/
theorem isStrict {s t : Session} (h : Unwound s t) (hs : s.IsStrict) : t.IsStrict := by
  unfold IsStrict
  rw [h.settings]
  exact hs

end Unwound

end Session

/-- States with a session in them, and the same state with that session made lenient. -/
class Lenience (σ : Type) where
  session : σ → Session
  lenient : σ → σ

/-- A session is strict or lenient by its own settings. -/
instance : Lenience Session :=
  ⟨fun s => s, Session.lenient⟩

/-! ## Requests -/

/-- A source that is to be run, from a session. -/
structure Request where
  code : String
  zone : Option String
  session : Session

namespace Request

/-- The answer to a request. -/
def answer (q : Request) (run : SourceRunner) : Except Stop (Except ScriptError Value × Session) :=
  (run q.code q.zone).runFrom q.session

/-- The same source from the lenient session. -/
def lenient (q : Request) : Request :=
  { q with session := q.session.lenient }

end Request

/-- `run'` is `run`, or it answers as `run` does, from strict and lenient sessions, where `run`
raises no error from the strict one. -/
def Calm (run run' : SourceRunner) : Prop :=
  run' = run ∨ ∀ (q : Request) o w, q.session.IsStrict → q.answer run = .ok (o, w) →
    raisedIn? o = none → q.answer run' = .ok (o, w) ∧ q.lenient.answer run' = .ok (o, w.lenient)

/-- Sources that raise no error from a strict session are run alike from the lenient one. -/
def Tame (run : SourceRunner) : Prop :=
  (∀ (q : Request) o w, q.session.IsStrict → q.answer run = .ok (o, w) → raisedIn? o = none →
    w.IsStrict ∧ q.lenient.answer run = .ok (o, w.lenient)) ∧
  ∀ (q : Request) o w, q.session.IsStrict → q.lenient.answer run = .ok (o, w) →
    ∃ w', w'.IsStrict ∧ w = w'.lenient ∧ q.session.Extends w'

namespace Action

open Lenience (session lenient)

variable {σ α β : Type} [Lenience σ] {run : SourceRunner}

/-! ## Actions side by side -/

/-- The lenient action has the outcome `o'` of the strict one, or answers what is spared an error.
-/
def Matched (spare : Option α) (o o' : Except ScriptError α) : Prop :=
  o' = o ∨ ∃ m a, o = .error (.raised m) ∧ spare = some a ∧ o' = .ok a

/-- From `s`, strict and lenient, the action comes to the same state, however sources that raise
errors are run. -/
structure Together (run : SourceRunner) (act : SourceRunner → Action σ α) (s : σ)
    (o o' : Except ScriptError α) (s' : σ) : Prop where
  isStrict : (session s').IsStrict
  ends : ∀ run', Calm run run' → (act run').runFrom s = .ok (o, s') ∧
    (act run').runFrom (lenient s) = .ok (o', lenient s')

/-- A lenient state in which the output and the log of `s` are continued. -/
def Continues (s : Session) (t : σ) : Prop :=
  ∃ t', (session t').IsStrict ∧ t = lenient t' ∧ s.Extends (session t')

/-- From `s`, strict and lenient, the action comes to run the source of the request `q`, which
raises the error `m` and leaves `w`. The strict action fails with that error. -/
structure Passes (run : SourceRunner) (act : SourceRunner → Action σ α) (s : σ) (q : Request)
    (m : Message) (w : Session) (o : Except ScriptError α) (s' : σ) : Prop where
  isStrict : q.session.IsStrict
  raised : q.answer run = .ok (.error (.raised m), w)
  outcome : o = .error (.raised m)
  unwound : w.Unwound (session s')
  stops : ∀ run' reason, Calm run run' → q.answer run' = .error reason →
    (act run').runFrom s = .error reason
  stops_lenient : ∀ run' reason, Calm run run' → q.lenient.answer run' = .error reason →
    (act run').runFrom (lenient s) = .error reason
  goesOn : ∀ p t, (act run).runFrom (lenient s) = .ok (p, t) →
    ∃ r u, q.lenient.answer run = .ok (r, u) ∧ Continues u t

/-- The action goes side by side with itself from `s` and from the lenient state: both end together,
or both come to run a source that raises an error. -/
structure AbreastAt (run : SourceRunner) (spare : Option α) (s : σ)
    (act : SourceRunner → Action σ α) : Prop where
  ends : ∀ o s', (act run).runFrom s = .ok (o, s') →
    (∃ o', Matched spare o o' ∧ Together run act s o o' s') ∨ ∃ q m w, Passes run act s q m w o s'
  grows : ∀ p t, (act run).runFrom (lenient s) = .ok (p, t) → Continues (session s) t

/-- The same from every strict state. -/
def Abreast (run : SourceRunner) (spare : Option α) (act : SourceRunner → Action σ α) : Prop :=
  ∀ s, (session s).IsStrict → AbreastAt run spare s act

/-- Where nothing is spared, matched outcomes are equal. -/
theorem Matched.eq {o o' : Except ScriptError α} (h : Matched none o o') : o' = o := by
  rcases h with rfl | ⟨m, a, -, hspare, -⟩
  · rfl
  · cases hspare

/-- A lenient end that continues a continuation of `s` continues `s`. -/
theorem Continues.trans {s t : Session} {u : σ} (h : s.Extends t) (h' : Continues t u) :
    Continues s u := by
  obtain ⟨t', hstrict, rfl, hext⟩ := h'
  exact ⟨t', hstrict, rfl, h.trans hext⟩

namespace AbreastAt

variable {s : σ} {spare : Option α} {act : SourceRunner → Action σ α}

/-- Nothing needs to be spared. -/
theorem spared (h : AbreastAt run none s act) : AbreastAt run spare s act where
  ends o s' hrun := by
    rcases h.ends o s' hrun with ⟨o', hmatched, htogether⟩ | hpasses
    · exact .inl ⟨o', .inl hmatched.eq, htogether⟩
    · exact .inr hpasses
  grows := h.grows

/-- An action that does in `s` what another one does in `t`, and likewise in the lenient states. -/
theorem of_start {t : σ} {act' : SourceRunner → Action σ α} (h : AbreastAt run spare t act')
    (hact : ∀ run, (act run).runFrom s = (act' run).runFrom t)
    (hlenient : ∀ run, (act run).runFrom (lenient s) = (act' run).runFrom (lenient t))
    (hext : (session s).Extends (session t)) : AbreastAt run spare s act where
  ends o s' hrun := by
    rw [hact] at hrun
    rcases h.ends o s' hrun with ⟨o', hmatched, htogether⟩ | ⟨q, m, w, hpasses⟩
    · refine .inl ⟨o', hmatched, htogether.isStrict, fun run' hcalm => ?_⟩
      rw [hact, hlenient]
      exact htogether.ends run' hcalm
    · refine .inr ⟨q, m, w, { hpasses with stops := ?_, stops_lenient := ?_, goesOn := ?_ }⟩
      · intro run' reason
        rw [hact]
        exact hpasses.stops run' reason
      · intro run' reason
        rw [hlenient]
        exact hpasses.stops_lenient run' reason
      · intro p u
        rw [hlenient]
        exact hpasses.goesOn p u
  grows p u hrun := by
    rw [hlenient] at hrun
    exact .trans hext (h.grows p u hrun)

end AbreastAt

/-! ## Composed actions -/

section Attempt

variable {s t u : σ} {spare : Option α} {spare' : Option β} {act : SourceRunner → Action σ α}
  {next : Except ScriptError α → SourceRunner → Action σ β} {p p' : Except ScriptError α}
  {o o' : Except ScriptError β} {q : Request} {m : Message} {w : Session}

/-- Both ends meet after an attempt, and again after what is done about it. -/
theorem Together.attempt_bind (h : Together run act s p p' t) (hu : (session u).IsStrict)
    (hnext : ∀ run', Calm run run' → (next p run').runFrom t = .ok (o, u) ∧
      (next p' run').runFrom (lenient t) = .ok (o', lenient u)) :
    Together run (fun run => attempt (act run) >>= fun p => next p run) s o o' u where
  isStrict := hu
  ends run' hcalm := by
    rw [runFrom_attempt_bind, runFrom_attempt_bind, (h.ends run' hcalm).1, (h.ends run' hcalm).2]
    exact hnext run' hcalm

/-- An error passes through what is done after an attempt. -/
theorem Passes.after_attempt (hnext : Passes run (next p) t q m w o u)
    (h : Together run act s p p t) :
    Passes run (fun run => attempt (act run) >>= fun p => next p run) s q m w o u where
  isStrict := hnext.isStrict
  raised := hnext.raised
  outcome := hnext.outcome
  unwound := hnext.unwound
  stops run' reason hcalm hstop := by
    rw [runFrom_attempt_bind, (h.ends run' hcalm).1]
    exact hnext.stops run' reason hcalm hstop
  stops_lenient run' reason hcalm hstop := by
    rw [runFrom_attempt_bind, (h.ends run' hcalm).2]
    exact hnext.stops_lenient run' reason hcalm hstop
  goesOn r x hrun := by
    rw [runFrom_attempt_bind, (h.ends run (.inl rfl)).2] at hrun
    exact hnext.goesOn r x hrun

/-- An error passes through an attempt, and is passed on by what is done about it. -/
theorem Passes.through_attempt (h : Passes run act s q m w p t) (ho : o = .error (.raised m))
    (hunwound : (session t).Unwound (session u)) (hnext : ∀ p, Abreast run spare' (next p)) :
    Passes run (fun run => attempt (act run) >>= fun p => next p run) s q m w o u where
  isStrict := h.isStrict
  raised := h.raised
  outcome := ho
  unwound := h.unwound.trans hunwound
  stops run' reason hcalm hstop := by
    rw [runFrom_attempt_bind, h.stops run' reason hcalm hstop]
  stops_lenient run' reason hcalm hstop := by
    rw [runFrom_attempt_bind, h.stops_lenient run' reason hcalm hstop]
  goesOn r x hrun := by
    obtain ⟨p', t', hfirst, hsecond⟩ := runFrom_attempt_bind_eq_ok.1 hrun
    obtain ⟨r', u', hanswer, t'', hstrict, rfl, hext⟩ := h.goesOn p' t' hfirst
    exact ⟨r', u', hanswer, .trans hext ((hnext p' t'' hstrict).grows r x hsecond)⟩

/-- What is done about the outcome of an action keeps the answer that is spared an error: the error
itself is passed on, and nothing else happens. -/
def Spares (spare : Option α) (spare' : Option β)
    (next : Except ScriptError α → SourceRunner → Action σ β) : Prop :=
  ∀ a, spare = some a → ∃ b, spare' = some b ∧ ∀ run t,
    (∀ m, (next (.error (.raised m)) run).runFrom t = .ok (.error (.raised m), t)) ∧
      (next (.ok a) run).runFrom t = .ok (.ok b, t)

/-- **An attempt**, and what is done about its outcome. An error that passes through the attempt is
passed on.

**Proof sketch.** The two runs of the attempt end alike, or only the strict one fails and is spared
the error, or an error passes through it. In the first two cases they go on with outcomes for which
`next` keeps them abreast; in the third case `hraised` says that the error is passed on. -/
theorem AbreastAt.attempt_bind (h : AbreastAt run spare s act) (hspare : Spares spare spare' next)
    (hnext : ∀ p, Abreast run spare' (next p))
    (hraised : ∀ m t o u, (next (.error (.raised m)) run).runFrom t = .ok (o, u) →
      o = .error (.raised m) ∧ (session t).Unwound (session u)) :
    AbreastAt run spare' s fun run => attempt (act run) >>= fun p => next p run where
  ends o u hrun := by
    obtain ⟨p, t, hact, hrest⟩ := runFrom_attempt_bind_eq_ok.1 hrun
    rcases h.ends p t hact with ⟨p', rfl | ⟨m, a, rfl, ha, rfl⟩, hfirst⟩ | ⟨q, m, w, hpasses⟩
    · rcases (hnext p' t hfirst.isStrict).ends o u hrest with
        ⟨o', hmatched, hsecond⟩ | ⟨q, m, w, hpasses⟩
      · exact .inl ⟨o', hmatched, hfirst.attempt_bind hsecond.isStrict hsecond.ends⟩
      · exact .inr ⟨q, m, w, hpasses.after_attempt hfirst⟩
    · -- the strict attempt has failed with an error that the lenient one is spared
      obtain ⟨b, hb, hnone⟩ := hspare a ha
      have hpassed := ((hnone run t).1 m).symm.trans hrest
      cases hpassed
      exact .inl ⟨.ok b, .inr ⟨m, b, rfl, hb, rfl⟩,
        hfirst.attempt_bind hfirst.isStrict fun run' _ =>
          ⟨(hnone run' u).1 m, (hnone run' (lenient u)).2⟩⟩
    · obtain rfl := hpasses.outcome
      obtain ⟨ho, hunwound⟩ := hraised m t o u hrest
      exact .inr ⟨q, m, w, hpasses.through_attempt ho hunwound hnext⟩
  grows r x hrun := by
    obtain ⟨p, t, hfirst, hsecond⟩ := runFrom_attempt_bind_eq_ok.1 hrun
    obtain ⟨t', hstrict, rfl, hext⟩ := h.grows p t hfirst
    exact .trans hext ((hnext p t' hstrict).grows r x hsecond)

end Attempt

/-! ## Actions that run no sources -/

/-- An action that always has an answer, the same in lenient states, and only continues the output
and the log. -/
def Steady (act : Action σ α) : Prop :=
  ∀ s, (session s).IsStrict → ∃ o s', act.runFrom s = .ok (o, s') ∧
    act.runFrom (lenient s) = .ok (o, lenient s') ∧ (session s').IsStrict ∧
      (session s).Extends (session s')

/-- An action that runs no sources goes side by side with itself, whatever is spared: from a strict
state and from the lenient one it has the same outcome. -/
theorem Steady.abreast {act : Action σ α} (h : Steady act) {spare : Option α} :
    Abreast run spare fun _ => act := by
  intro s hs
  obtain ⟨o, s', hact, hlenient, hstrict, hext⟩ := h s hs
  constructor
  · intro p t hrun
    rw [hact] at hrun
    cases hrun
    exact .inl ⟨o, .inl rfl, hstrict, fun _ _ => ⟨hact, hlenient⟩⟩
  · intro p t hrun
    rw [hlenient] at hrun
    cases hrun
    exact ⟨s', hstrict, rfl, hext⟩

namespace Steady

/-- A known outcome is the same in every state. -/
theorem ofExcept (outcome : Except ScriptError α) : Steady (ofExcept outcome : Action σ α) :=
  fun s hs => ⟨outcome, s, rfl, rfl, hs, .refl _⟩

/-- An answer alone is the same in every state. -/
theorem pure (a : α) : Steady (pure a : Action σ α) :=
  ofExcept (.ok a)

/-- A raised error is the same in every state. -/
theorem throw (e : ScriptError) : Steady (throw e : Action σ α) :=
  ofExcept (.error e)

/-- An attempt, and what is done about its outcome. -/
theorem attempt_bind {act : Action σ α} {next : Except ScriptError α → Action σ β} (h : Steady act)
    (hnext : ∀ p, Steady (next p)) : Steady (attempt act >>= next) := by
  intro s hs
  obtain ⟨p, t, hact, hlenient, ht, hext⟩ := h s hs
  obtain ⟨o, u, hrest, hrest', hu, hext'⟩ := hnext p t ht
  exact ⟨o, u, runFrom_attempt_bind_eq_ok.2 ⟨p, t, hact, hrest⟩,
    runFrom_attempt_bind_eq_ok.2 ⟨p, lenient t, hlenient, hrest'⟩, hu, hext.trans hext'⟩

/-- One action after another. An error of the first one is an outcome, too, so this is a special
case of what is done about an attempt. -/
theorem bind {act : Action σ α} {next : α → Action σ β} (h : Steady act)
    (hnext : ∀ a, Steady (next a)) :
    Steady (act >>= next) := by
  rw [bind_eq_attempt_bind]
  refine attempt_bind h fun p => ?_
  rcases p with e | a
  · exact throw e
  · exact hnext a

/-- A choice between two actions. -/
theorem ite {c : Prop} [Decidable c] {yes no : Action σ α} (hyes : Steady yes) (hno : Steady no) :
    Steady (if c then yes else no) := by
  split
  · exact hyes
  · exact hno

/-- An action whose course depends on the state it starts in, but not on whether that is lenient. -/
theorem get_bind {next : σ → Action σ α} (h : ∀ s, Steady (next s))
    (hnext : ∀ s, next (lenient s) = next s) : Steady ((get : Action σ σ) >>= next) := by
  intro s hs
  rw [runFrom_get_bind, runFrom_get_bind, hnext]
  exact h s s hs

/-- The state is changed alike. -/
theorem modify {f : σ → σ} (h : ∀ s, f (lenient s) = lenient (f s))
    (hstrict : ∀ s, (session s).IsStrict → (session (f s)).IsStrict)
    (hext : ∀ s, (session s).Extends (session (f s))) : Steady (modify f : Action σ Unit) :=
  fun s hs => ⟨.ok (), f s, rfl, by rw [runFrom_modify, h], hstrict s hs, hext s⟩

/-- An action for every item of a list, by induction on the list. -/
theorem forM {f : α → Action σ Unit} (h : ∀ a, Steady (f a)) (items : List α) :
    Steady (items.forM f) := by
  induction items with
  | nil => exact pure ()
  | cons a items ih =>
    change Steady (f a >>= fun _ => items.forM f)
    exact bind (h a) fun _ => ih

end Steady

/-! ## Sequences -/

/-- The next action, where an outcome that is a failure is thrown again. -/
def onward (next : α → SourceRunner → Action σ β) : Except ScriptError α → SourceRunner → Action σ β
  | .ok a, run => next a run
  | .error e, _ => throw e

namespace AbreastAt

variable {s : σ} {spare : Option α} {act : SourceRunner → Action σ α}

/-- One action after another, where the first may be spared an error. -/
theorem bind_spared {spare' : Option β} {next : α → SourceRunner → Action σ β}
    (h : AbreastAt run spare s act) (hspare : Spares spare spare' (onward next))
    (hnext : ∀ a, Abreast run spare' (next a)) :
    AbreastAt run spare' s fun run => act run >>= fun a => next a run := by
  have heq : (fun run => act run >>= fun a => next a run) =
      fun run => attempt (act run) >>= fun p => onward next p run := by
    refine funext fun run => (bind_eq_attempt_bind _ _).trans (congrArg _ (funext fun p => ?_))
    rcases p with e | a
    · rfl
    · rfl
  rw [heq]
  refine h.attempt_bind hspare (fun p => ?_) fun m t o u hrun => ?_
  · rcases p with e | a
    · exact (Steady.throw e).abreast
    · exact hnext a
  · cases hrun
    exact ⟨rfl, .refl _⟩

/-- One action after another. -/
theorem bind {spare' : Option β} {next : α → SourceRunner → Action σ β}
    (h : AbreastAt run none s act) (hnext : ∀ a, Abreast run spare' (next a)) :
    AbreastAt run spare' s fun run => act run >>= fun a => next a run :=
  h.bind_spared (fun _ h => nomatch h) hnext

/-- The answer of an action, changed. -/
theorem map (h : AbreastAt run spare s act) (g : α → β) :
    AbreastAt run (spare.map g) s fun run => act run >>= fun a => Pure.pure (g a) := by
  refine h.bind_spared (fun a ha => ⟨g a, by rw [ha]; rfl, fun run t => ⟨fun m => rfl, rfl⟩⟩)
    fun a => ?_
  exact (Steady.pure _).abreast

/-- An action whose course depends on the state it starts in, but not on whether that is lenient. -/
theorem get_bind {next : σ → SourceRunner → Action σ α} (h : AbreastAt run spare s (next s))
    (hnext : next (lenient s) = next s) :
    AbreastAt run spare s fun run => (get : Action σ σ) >>= fun r => next r run := by
  refine h.of_start (fun run => runFrom_get_bind _ _) (fun run => ?_) (.refl _)
  rw [runFrom_get_bind, hnext]

end AbreastAt

namespace Abreast

variable {spare : Option α} {spare' : Option β} {act : SourceRunner → Action σ α}

/-- One action after another, from every strict state. -/
theorem bind {next : α → SourceRunner → Action σ β} (h : Abreast run none act)
    (hnext : ∀ a, Abreast run spare' (next a)) :
    Abreast run spare' fun run => act run >>= fun a => next a run :=
  fun s hs => (h s hs).bind hnext

/-- Nothing needs to be spared. -/
theorem spared (h : Abreast run none act) : Abreast run spare act :=
  fun s hs => (h s hs).spared

/-- An answer alone. -/
theorem pure (a : α) : Abreast run spare fun _ => (pure a : Action σ α) :=
  (Steady.pure a).abreast

/-- A raised error: it comes from no source, so it is raised in both states. -/
theorem throw (e : ScriptError) : Abreast run spare fun _ => (throw e : Action σ α) :=
  (Steady.throw e).abreast

/-- A known outcome. -/
theorem ofExcept (outcome : Except ScriptError α) :
    Abreast run spare fun _ => (ofExcept outcome : Action σ α) :=
  (Steady.ofExcept outcome).abreast

/-- A choice between two actions, whichever sources are run. -/
theorem ite {c : Prop} [Decidable c] {yes no : SourceRunner → Action σ α}
    (hyes : Abreast run spare yes)
    (hno : Abreast run spare no) : Abreast run spare fun run => if c then yes run else no run := by
  by_cases hc : c
  · simpa only [if_pos hc] using hyes
  · simpa only [if_neg hc] using hno

/-- Nothing is reached where the action stops. -/
theorem stop (reason : Stop) : Abreast run spare fun _ => (stop reason : Action σ α) :=
  fun _ _ => ⟨fun _ _ h => (nomatch h), fun _ _ h => (nomatch h)⟩

/-- The items of a list taken in one after another. -/
theorem foldlM {f : β → α → SourceRunner → Action σ β} (h : ∀ b a, Abreast run none (f b a))
    (items : List α) (b : β) :
    Abreast run none fun run => items.foldlM (fun b a => f b a run) b := by
  induction items generalizing b with
  | nil => exact pure b
  | cons a items ih =>
    simp only [List.foldlM_cons]
    exact bind (h b a) ih

/-- An action for every item of a list. -/
theorem forM {f : α → SourceRunner → Action σ Unit} (h : ∀ a, Abreast run none (f a))
    (items : List α) : Abreast run none fun run => items.forM fun a => f a run := by
  induction items with
  | nil => exact pure ()
  | cons a items ih =>
    change Abreast run none fun run => f a run >>= fun _ => items.forM fun a => f a run
    exact bind (h a) fun _ => ih

/-- The answers of an action for every item of a list. -/
theorem mapM {f : α → SourceRunner → Action σ β} (h : ∀ a, Abreast run none (f a))
    (items : List α) : Abreast run none fun run => items.mapM fun a => f a run := by
  induction items with
  | nil => exact pure []
  | cons a items ih =>
    simp only [List.mapM_cons]
    exact bind (h a) fun b => bind ih fun bs => pure (b :: bs)

end Abreast

end Action

/-! ## Formulas -/

open LineScript.Action (Abreast)

/-- Reading variables and calling functions go side by side. -/
structure Host.Abreast {σ : Type} [Lenience σ] (run : SourceRunner) (host : SourceRunner → Host σ) :
    Prop where
  readVariable : ∀ path, Action.Abreast run none fun run => (host run).readVariable path
  callFunction : ∀ name args, Action.Abreast run none fun run => (host run).callFunction name args

namespace Formula

variable {σ : Type} [Lenience σ] {run : SourceRunner} {host : SourceRunner → Host σ}
  (hhost : Host.Abreast run host) {inner : SourceRunner → String → Action σ Value}
  (hinner : ∀ src, Abreast run none fun run => inner run src)

include hhost in
/-- A text with references in it: only the references are read. -/
theorem interpolate_abreast (s : String) :
    Abreast run none fun run => interpolate (host run) s := by
  refine .bind (.mapM (fun segment => ?_) _) fun texts => .pure _
  cases segment with
  | char c => exact .pure _
  | reference path => exact .bind (hhost.readVariable path) fun v => .pure _

include hinner in
/-- The items of a list, evaluated one after another. -/
theorem evaluateItems_abreast (src : String) :
    Abreast run none fun run => evaluateItems (inner run) src :=
  .bind (.ofExcept _) fun items => .mapM hinner items

include hinner in
/-- The collection of a literal, filled item by item. -/
theorem evaluateCollection_abreast (src : String) :
    Abreast run none fun run => evaluateCollection (inner run) src := by
  refine .bind (.ofExcept _) fun items => .foldlM (fun c item => ?_) items _
  unfold addItem
  cases Pattern.keyed? item.toList with
  | some named => exact .bind (hinner named.2) fun v => .pure _
  | none => exact .bind (hinner item) fun v => .pure _

include hhost hinner in
/-- A call: its arguments are evaluated, then the function is called. -/
theorem evaluateCall_abreast (src : String) :
    Abreast run none fun run => evaluateCall (host run) (inner run) src := by
  unfold evaluateCall
  rcases Pattern.command? Pattern.isQualifiedChar true (Text.trimChars src.toList) with
    _ | ⟨name, _ | args⟩
  · exact .throw _
  · exact hhost.callFunction _ _
  · exact .bind (evaluateItems_abreast hinner _) fun vs => hhost.callFunction _ vs

include hhost hinner in
/-- One token taken in. Only references, texts, calls and collections read variables or call
functions; all other tokens work on the stack alone. -/
theorem stepToken_abreast (stack : List Value) (token : Token) :
    Abreast run none fun run => stepToken (host run) (inner run) stack token := by
  cases token with
  | operator op =>
    match stack with
    | [] => exact .throw _
    | [_] => exact .throw _
    | rhs :: lhs :: rest => exact .bind (.ofExcept _) fun v => .pure _
  | negation =>
    match stack with
    | [] => exact .throw _
    | v :: rest => exact .pure _
  | word s => exact .throw _
  | doubleQuoted s => exact .bind (interpolate_abreast hhost s) fun text => .pure _
  | collection src => exact .bind (evaluateCollection_abreast hinner src) fun c => .pure _
  | call src => exact .bind (evaluateCall_abreast hhost hinner src) fun v => .pure _
  | reference path => exact .bind (hhost.readVariable path) fun v => .pure _
  | _ => exact .pure _

include hhost in
/-- Literals hold formulas of their own, so this goes by induction on how deep they may nest. -/
theorem evaluateWithin_abreast (depth : Nat) (src : String) :
    Abreast run none fun run => evaluateWithin (host run) depth src := by
  induction depth generalizing src with
  | zero => exact .stop _
  | succ depth ih =>
    refine .bind (.ofExcept _) fun tokens => ?_
    refine .bind (.foldlM (stepToken_abreast hhost ih) tokens []) fun stack => ?_
    match stack with
    | [v] => exact .pure v
    | [] => exact .throw _
    | _ :: _ :: _ => exact .throw _

include hhost in
/-- **Evaluation goes side by side**, if reading variables and calling functions do. -/
theorem evaluate_abreast (src : String) : Abreast run none fun run => evaluate (host run) src :=
  evaluateWithin_abreast hhost _ src

include hhost in
/-- A list of formulas, to any depth. -/
theorem evaluateList_abreast (src : String) :
    Abreast run none fun run => evaluateList (host run) src :=
  evaluateItems_abreast (evaluate_abreast hhost) src

end Formula

end LineScript
