import LineScript.Proofs.Session.Upholding

set_option relaxedAutoImplicit false
set_option autoImplicit false

/-!
# Errors are logged once

An error ends the source in which it happens, and the sources around it. It is entered into the log
where it happens and nowhere on its way outwards. So the log tells how a run ended: a run whose
errors are thrown fails exactly if it logged an error, which is then the only one and the last
message.

## Main definitions

* `LineScript.Session.errors` — the errors among messages.
* `LineScript.Session.Accounts` — messages that end with the error on its way.
* `LineScript.Session.Since` — what is known of a session since the start of a run.
* `LineScript.Session.ErrorsOnce` — what the log tells of the end of a run.

## Main results

* `LineScript.Session.kept_since` — everything that a run does keeps the account of its errors.
* `LineScript.Session.thrown_of_runner` — only raised errors leave a source, and only if they are to
  be thrown.
* `LineScript.Session.errors_logged_once` — errors are logged once, in all runs of sources.
-/

namespace LineScript

open LineScript.Action (Upholds)

/-! ## Sources fail with raised errors -/

/-- The action fails only with errors that were raised. -/
def Action.OnlyRaises {σ α : Type} (act : Action σ α) : Prop :=
  ∀ s e t, act.runFrom s = .ok (.error e, t) → ∃ m, e = .raised m

namespace Action.OnlyRaises

variable {σ α β : Type}

/-- An answer alone is no failure. -/
theorem pure (a : α) : OnlyRaises (pure a : Action σ α) := by
  intro s e t h
  cases h

/-- One action after another, if both fail only with raised errors. -/
theorem bind {act : Action σ α} {next : α → Action σ β} (h : OnlyRaises act)
    (hnext : ∀ a, OnlyRaises (next a)) : OnlyRaises (act >>= next) := by
  intro s e u hrun
  rcases runFrom_bind_eq_ok.1 hrun with ⟨e', he, hee⟩ | ⟨a, t, -, hu⟩
  · cases hee
    exact h s e u he
  · exact hnext a t e u hu

/-- Looking at the state first. -/
theorem get_bind {next : σ → Action σ β} (h : ∀ s, OnlyRaises (next s)) :
    OnlyRaises ((get : Action σ σ) >>= next) := by
  intro s e t hrun
  rw [runFrom_get_bind] at hrun
  exact h s s e t hrun

/-- Going on from a new state. -/
theorem set_bind {t : σ} {next : Unit → Action σ β} (h : OnlyRaises (next ())) :
    OnlyRaises ((set t : Action σ Unit) >>= next) := by
  intro s e u hrun
  rw [runFrom_set_bind] at hrun
  exact h t e u hrun

/-- Going on from a changed state. -/
theorem modify_bind {f : σ → σ} {next : Unit → Action σ β} (h : OnlyRaises (next ())) :
    OnlyRaises ((modify f : Action σ Unit) >>= next) := by
  intro s e u hrun
  rw [runFrom_modify_bind] at hrun
  exact h (f s) e u hrun

/-- A failure that is handed on as a value is none. -/
theorem attempt (act : Action σ α) : OnlyRaises (attempt act) := by
  intro s e t hrun
  obtain ⟨p, -, hp⟩ := runFrom_attempt_eq_ok.1 hrun
  cases hp

/-- A choice between two actions. -/
theorem ite {c : Prop} [Decidable c] {yes no : Action σ α} (hyes : OnlyRaises yes)
    (hno : OnlyRaises no) : OnlyRaises (if c then yes else no) := by
  split
  · exact hyes
  · exact hno

end Action.OnlyRaises

open LineScript.Action (OnlyRaises)

/-- Raising an error fails with it, as raised. -/
theorem Session.raise_onlyRaises {α : Type} (e : ScriptError) :
    OnlyRaises (raise e : Action Session α) := by
  intro s e' t h
  unfold raise at h
  split at h
  · cases h
    exact ⟨_, rfl⟩
  · cases h
    exact ⟨_, rfl⟩

/-- A failure that is dealt with is logged, or it is raised. -/
theorem Session.recover_onlyRaises (e : ScriptError) : OnlyRaises (recover e) := by
  unfold recover
  split
  · intro s e' t h
    cases h
    exact ⟨_, rfl⟩
  · refine .ite ?_ (raise_onlyRaises e)
    intro s e' t h
    cases h

namespace Activation

/-- An action on the session. -/
theorem onSession_onlyRaises {α : Type} {act : Action Session α} (h : OnlyRaises act) :
    OnlyRaises (onSession act) := by
  intro a e b hrun
  obtain ⟨s, hact, -⟩ := Action.runFrom_zoom_eq_ok.1 hrun
  exact h a.session e s hact

/-- One step fails only with a raised error: what fails on its line is dealt with first. -/
theorem step_onlyRaises (run : SourceRunner) (lines : Array String) :
    OnlyRaises (step run lines) := by
  refine .get_bind fun a => ?_
  split
  · exact .get_bind fun a =>
      .ite (onSession_onlyRaises (Session.raise_onlyRaises .missingBlockEnd)) (.pure _)
  · refine .set_bind (.ite (.bind ?_ fun _ => .pure _) (.ite (.pure _) ?_))
    · refine .get_bind fun a => .set_bind ?_
      split
      · exact .pure _
      · refine .bind (.attempt _) fun outcome => ?_
        split
        · exact .pure _
        · exact onSession_onlyRaises (Session.recover_onlyRaises _)
    · refine .bind (.attempt _) fun outcome => ?_
      split
      · exact .pure _
      · exact .modify_bind (.pure _)
      · exact .pure _
      · exact .bind (onSession_onlyRaises (Session.recover_onlyRaises _)) fun _ => .pure _

/-- **A run fails only with raised errors**: failures of a line are dealt with on it. By induction
on the steps. -/
theorem raised_of_run {n : Nat} {lines : Array String} {a : Activation} {e : ScriptError}
    {t : Session} (h : run n lines a = .ok (.error e, t)) : ∃ m, e = .raised m := by
  induction n generalizing a with
  | zero => cases h
  | succ n ih =>
    obtain ⟨r, b, hstep, h⟩ := run_succ_eq_ok.1 h
    rcases r with e' | (_ | v)
    · obtain ⟨he, -⟩ := h
      cases he
      exact step_onlyRaises _ lines a e b hstep
    · exact ih h
    · cases h.1

end Activation

namespace Session

/-- An outcome that settling leaves as a failure was raised, and errors are to be thrown. -/
theorem throwErrors_of_settle {settings : Settings} {outcome : Except ScriptError Value}
    {e : ScriptError} (hraised : ∀ e', outcome = .error e' → ∃ m, e' = .raised m)
    (h : settle settings outcome = .error e) :
    (∃ m, e = .raised m) ∧ settings.throwErrors = true := by
  cases outcome with
  | ok v => cases h
  | error e' =>
    obtain ⟨m, rfl⟩ := hraised e' rfl
    cases hon : settings.throwErrors with
    | false => simp [settle, hon] at h
    | true => exact ⟨⟨m, by simpa [settle, hon, eq_comm] using h⟩, rfl⟩

/-- **Only raised errors leave a source**, and only if they are to be thrown. -/
theorem thrown_of_runner {n : Nat} {code : String} {zone : Option String} {s t : Session}
    {e : ScriptError} (h : (runner n code zone).runFrom s = .ok (.error e, t)) :
    (∃ m, e = .raised m) ∧ t.settings.throwErrors = true := by
  unfold runner at h
  rw [runFrom_runSource] at h
  rcases hended : Activation.run n (Text.lines code).toArray
    { session := { s with zone := zone } } with reason | ⟨outcome, ended⟩
  · rw [hended] at h
    cases h
  · rw [hended] at h
    obtain ⟨hsettle, rfl⟩ := Prod.mk.inj (Except.ok.inj h)
    refine throwErrors_of_settle (fun e' he' => ?_) hsettle
    rw [he'] at hended
    exact Activation.raised_of_run hended

/-- An import without a source fails only if errors are thrown, and with a raised one. -/
theorem thrown_of_refuseSource {id reason : String} {s t : Session} {e : ScriptError}
    (h : (refuseSource id reason).runFrom s = .ok (.error e, t)) :
    (∃ m, e = .raised m) ∧ t.settings.throwErrors = true := by
  obtain ⟨hsettle, rfl⟩ := Prod.mk.inj (Except.ok.inj h)
  refine throwErrors_of_settle (fun e' he' => ?_) hsettle
  cases he'
  exact ⟨_, rfl⟩

/-- The same for a source that is loaded, or cannot be. -/
theorem thrown_of_loadSource {n : Nat} {id : String} {s t : Session} {e : ScriptError}
    (h : (loadSource (runner n) id).runFrom s = .ok (.error e, t)) :
    (∃ m, e = .raised m) ∧ t.settings.throwErrors = true := by
  unfold loadSource at h
  rw [Action.runFrom_get_bind] at h
  split at h
  · exact thrown_of_refuseSource h
  · split at h
    · exact thrown_of_runner h
    · exact thrown_of_refuseSource h
    · cases h

/-! ## The account of errors -/

/-- The errors among messages. -/
def errors (messages : List Message) : List Message :=
  messages.filter fun m => m.level = .error

/-- Of the messages, the error on its way is the last one, and no other is an error. -/
def Accounts (pending : Option Message) (messages : List Message) : Prop :=
  ∃ quiet, messages = quiet ++ pending.toList ∧ errors quiet = [] ∧ ∀ m ∈ pending, m.level = .error

namespace Accounts

/-- Nothing is pending, and nothing was logged. -/
theorem nil : Accounts none [] :=
  ⟨[], rfl, rfl, fun _ h => nomatch h⟩

/-- The errors among the messages are the one that is pending, or none. -/
theorem errors_eq {pending : Option Message} {messages : List Message}
    (h : Accounts pending messages) : errors messages = pending.toList := by
  obtain ⟨quiet, rfl, hquiet, hlevel⟩ := h
  unfold errors at hquiet ⊢
  rw [List.filter_append, hquiet, List.nil_append, List.filter_eq_self]
  intro m hm
  simpa using hlevel m (Option.mem_toList.1 hm)

/-- A pending error was logged last. -/
theorem getLast?_eq {m : Message} {messages : List Message} (h : Accounts (some m) messages) :
    messages.getLast? = some m := by
  obtain ⟨quiet, rfl, -, -⟩ := h
  exact List.getLast?_concat

/-- If nothing is pending, no error was logged. -/
theorem errors_none {messages : List Message} (h : Accounts none messages) : errors messages = [] :=
  h.errors_eq

/-- A further message that is no error. -/
theorem note {messages : List Message} (h : Accounts none messages) {m : Message}
    (hm : m.level ≠ .error) : Accounts none (messages ++ [m]) := by
  refine ⟨messages ++ [m], by simp, ?_, fun _ h => nomatch h⟩
  have hmessages := h.errors_none
  unfold errors at hmessages ⊢
  rw [List.filter_append, hmessages]
  simp [hm]

/-- The first error is on its way. -/
theorem raise {messages : List Message} (h : Accounts none messages) {m : Message}
    (hm : m.level = .error) : Accounts (some m) (messages ++ [m]) := by
  refine ⟨messages, rfl, h.errors_none, fun m' hm' => ?_⟩
  cases hm'
  exact hm

end Accounts

/-- What is known, since the session was `start`, of a session through which an error passes: the
settings are the same, host functions pass on nothing raised, and if errors are thrown, the messages
logged in the meantime account for the error. -/
structure Since (start : Session) (pending : Option Message) (s : Session) : Prop where
  settings : s.settings = start.settings
  plain : s.functions.Plain
  log : ∃ logged, s.log.toList = start.log.toList ++ logged ∧
    (start.settings.throwErrors = true → Accounts pending logged)

/-- At the start of a call nothing has been logged since then. -/
theorem since_start {s : Session} (h : s.functions.Plain) : Since s none s :=
  ⟨rfl, h, [], by simp, fun _ => .nil⟩

/-- **Everything that a run does** keeps the account of its errors. -/
theorem kept_since (start : Session) : Kept (Since start) where
  native h name f native hf hnative args _ ht := by
    have hbody : f.body.Plain := h.plain name f hf
    rw [hnative] at hbody
    rw [hbody args]
    exact ht
  update h _ _ := ⟨h.settings, h.plain, h.log⟩
  hide h := ⟨h.settings, h.plain, h.log⟩
  restore _ _ _ ht := ⟨ht.settings, ht.plain, ht.log⟩
  define h _ _ hdefine hf := ⟨h.settings, h.plain.define hf hdefine, h.log⟩
  enter h _ := ⟨h.settings, h.plain, h.log⟩
  move h _ _ := ⟨h.settings, h.plain, h.log⟩
  print h _ := ⟨h.settings, h.plain, h.log⟩
  note h m hm := by
    obtain ⟨logged, hlog, haccounts⟩ := h.log
    refine ⟨h.settings, h.plain, logged ++ [m], ?_, fun hon => (haccounts hon).note hm⟩
    simp [Session.logged, hlog]
  raise h m hm := by
    obtain ⟨logged, hlog, haccounts⟩ := h.log
    refine ⟨h.settings, h.plain, logged ++ [m], ?_, fun hon => (haccounts hon).raise hm⟩
    simp [Session.logged, hlog]
  settle h hoff := by
    -- The error is no longer on its way, but then errors are not thrown and need no account.
    obtain ⟨logged, hlog, -⟩ := h.log
    refine ⟨h.settings, h.plain, logged, hlog, fun hon => ?_⟩
    rw [h.settings, hon] at hoff
    cases hoff

/-- What the messages that a run from `s` to `t` logged tell of its outcome. If errors are thrown,
it has a result exactly if none of the messages is an error; else it fails with a raised error,
which is the only one among the messages and the last of them. If errors are not thrown, it has a
result. -/
def ErrorsOnce (s : Session) (o : Except ScriptError Value) (t : Session) : Prop :=
  ∃ logged, t.log.toList = s.log.toList ++ logged ∧
    (s.settings.throwErrors = true →
      ((∃ v, o = .ok v) ↔ errors logged = []) ∧
      ∀ e, o = .error e →
        ∃ m, e = .raised m ∧ errors logged = [m] ∧ logged.getLast? = some m) ∧
    (s.settings.throwErrors = false → ∃ v, o = .ok v)

/-- An account of errors since the start of a run, and errors leaving it only as they are thrown.

**Proof sketch.** If errors are thrown, the account says that the log has none after success, and
otherwise the one that leaves the run, which is its last message. If they are not, no error leaves
the run by `hthrown`. -/
theorem errorsOnce_of_since {s t : Session} {o : Except ScriptError Value}
    (hsince : Since s (raisedIn? o) t)
    (hthrown : ∀ e, o = .error e → (∃ m, e = .raised m) ∧ t.settings.throwErrors = true) :
    ErrorsOnce s o t := by
  obtain ⟨logged, hlog, haccounts⟩ := hsince.log
  refine ⟨logged, hlog, fun hon => ?_, fun hoff => ?_⟩
  · have haccounts := haccounts hon
    cases o with
    | ok v => exact ⟨⟨fun _ => haccounts.errors_none, fun _ => ⟨v, rfl⟩⟩, fun e he => nomatch he⟩
    | error e =>
      obtain ⟨⟨m, rfl⟩, -⟩ := hthrown e rfl
      have herrors : errors logged = [m] := haccounts.errors_eq
      refine ⟨⟨?_, ?_⟩, ?_⟩
      · rintro ⟨v, hv⟩
        cases hv
      · intro hnone
        rw [hnone] at herrors
        cases herrors
      · intro e' he'
        cases he'
        exact ⟨m, rfl, herrors, haccounts.getLast?_eq⟩
  · cases o with
    | ok v => exact ⟨v, rfl⟩
    | error e =>
      obtain ⟨-, hon⟩ := hthrown e rfl
      rw [hsince.settings, hoff] at hon
      cases hon

/-- **An error is logged exactly once and always leaves as raised**, in every run of a source, in a
zone or not, and of a source that is loaded by its name.

**Proof sketch.** Along the whole run, and along the sources, calls and formulas within it, the
messages logged so far account for the error on its way (`kept_since`): there is none before the
first error, from then on nothing is logged, and dealing with a raised error only passes it on. At
the end of a source only raised errors are left (`thrown_of_runner`), so the account gives the
claim. -/
theorem errors_logged_once (steps : Nat) (s t : Session) (hplain : s.functions.Plain)
    (o : Except ScriptError Value) :
    (∀ code, (execute steps code).runFrom s = .ok (o, t) → ErrorsOnce s o t) ∧
      (∀ code zone, (executeIn steps code zone).runFrom s = .ok (o, t) → ErrorsOnce s o t) ∧
      ∀ id, (executeFile steps id).runFrom s = .ok (o, t) → ErrorsOnce s o t := by
  have hstart : Since s none s := since_start hplain
  have hrunner (code : String) (zone : Option String)
      (h : (runner steps code zone).runFrom s = .ok (o, t)) : ErrorsOnce s o t := by
    have hsince := runner_upholds (kept_since s) steps code zone s hstart o t h
    refine errorsOnce_of_since hsince fun e he => ?_
    rw [he] at h
    exact thrown_of_runner h
  refine ⟨fun code h => hrunner code none h, fun code zone h => hrunner code (some zone) h, ?_⟩
  intro id h
  have hsince :=
    loadSource_upholds (kept_since s) (runner_upholds (kept_since s) steps) id s hstart o t h
  refine errorsOnce_of_since hsince fun e he => ?_
  rw [he] at h
  exact thrown_of_loadSource h

/-- A new session whose only import defines a function and calls it. -/
def importingSession : Session :=
  ofSettings {} (some fun id =>
    if id = "nested" then .text "function f\n  eval 'echo $unknown'\nend\nf"
    else .missing "there is no other source")

/-- A source that reads a missing entry and then goes on to the import. -/
def importingSource : String :=
  "set $c = ['a']\necho $c.b\nimport 'nested'\necho 'not reached'"

/-- The missing entry is noted. The unknown variable is an error that passes through four sources,
and is logged once. -/
theorem errors_logged_once_importingSession :
    importingSession.functions.Plain ∧
      ∃ m t, (execute 40 importingSource).runFrom importingSession = .ok (.error (.raised m), t) ∧
        t.log.toList.map (fun m => (m.level, m.zone)) =
          [(.notice, none), (.error, some "\x7bf\x7d")] ∧
        errors t.log.toList = [m] ∧ t.log.toList.getLast? = some m := by
  have hplain : importingSession.functions.Plain := plain_ofSettings _ _
  have hobserved : ((execute 40 importingSource).runFrom importingSession).toOption.map
      (fun r => (r.1.isOk, r.2.log.toList.map fun m => (m.level, m.zone))) =
        some (false, [(.notice, none), (.error, some "\x7bf\x7d")]) := by
    decide +kernel
  rcases hrun : (execute 40 importingSource).runFrom importingSession with reason | ⟨e | v, t⟩
  · rw [hrun] at hobserved
    cases hobserved
  · rw [hrun] at hobserved
    obtain ⟨-, hlog⟩ := Prod.mk.inj (Option.some.inj hobserved)
    obtain ⟨logged, hlogged, hthrown, -⟩ :=
      (errors_logged_once 40 importingSession t hplain (.error e)).1 importingSource hrun
    obtain ⟨-, hraised⟩ := hthrown rfl
    obtain ⟨m, rfl, herrors, hlast⟩ := hraised e rfl
    obtain rfl : t.log.toList = logged := hlogged
    exact ⟨hplain, m, t, rfl, hlog, herrors, hlast⟩
  · rw [hrun] at hobserved
    cases hobserved

end Session

end LineScript
