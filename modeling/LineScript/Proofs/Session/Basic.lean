import LineScript.Proofs.Action
import LineScript.Session.Call

set_option relaxedAutoImplicit false
set_option autoImplicit false

/-!
# What the basic actions of a session do

Logging failures, changing variables and binding parameters, each told from the session it starts
in.

## Main results

* `LineScript.Session.runFrom_report`, `LineScript.Session.runFrom_updateStore` — the session and
  the outcome after each of them.
* `LineScript.Session.recoverable_of_recover` — which failures a run goes on after.
* `LineScript.Session.exists_runFrom_forM_bindParameter` — binding parameters never fails.
-/

namespace LineScript.Session

/-- A report is a message of the level, the kind and the text of the failure. -/
@[simp]
theorem runFrom_report (e : ScriptError) (s : Session) :
    (report e).runFrom s = .ok (.ok (), s.logged (s.message e.level (some e.kind) e.text)) := rfl

/-- Failures are always logged and nothing else happens. -/
theorem exists_runFrom_forM_report (es : List ScriptError) (s : Session) :
    ∃ t, (es.forM report).runFrom s = .ok (.ok (), t) ∧ t.store = s.store := by
  induction es generalizing s with
  | nil => exact ⟨s, rfl, rfl⟩
  | cons e es ih =>
    obtain ⟨t, ht, hstore⟩ := ih (s.logged (s.message e.level (some e.kind) e.text))
    refine ⟨t, ?_, hstore⟩
    change (report e >>= fun _ => es.forM report).runFrom s = _
    rw [Action.runFrom_bind, runFrom_report]
    exact ht

/-- Only a failure below the level of an error is recovered from. -/
theorem recoverable_of_recover {e : ScriptError} {s t : Session}
    (h : (recover e).runFrom s = .ok (.ok (), t)) : e.recoverable = true := by
  unfold recover at h
  split at h
  · cases h
  · split at h
    · assumption
    · unfold raise at h
      split at h
      · cases h
      · cases h

/-- Variables change, or the session stays as it is. -/
@[simp]
theorem runFrom_updateStore (change : Store → Except ScriptError Store) (s : Session) :
    (updateStore change).runFrom s =
      match change s.store with
      | .ok store => .ok (.ok (), { s with store := store })
      | .error e => .ok (.error e, s) := by
  unfold updateStore
  rw [Action.runFrom_get_bind]
  cases change s.store <;> rfl

/-- A parameter is bound or refused, but nothing fails for it. -/
theorem exists_runFrom_bindParameter (b : Binding) (s : Session) :
    ∃ t, (bindParameter b).runFrom s = .ok (.ok (), t) := by
  unfold bindParameter
  rw [Action.runFrom_bind, Action.runFrom_attempt, runFrom_updateStore]
  cases s.store.bind b.param b.value .localScope with
  | ok store => exact ⟨_, rfl⟩
  | error e => exact ⟨_, runFrom_report e s⟩

/-- The parameters of a call are bound or refused, but nothing fails for them. -/
theorem exists_runFrom_forM_bindParameter (bs : List Binding) (s : Session) :
    ∃ t, (bs.forM bindParameter).runFrom s = .ok (.ok (), t) := by
  induction bs generalizing s with
  | nil => exact ⟨s, rfl⟩
  | cons b bs ih =>
    obtain ⟨r, hr⟩ := exists_runFrom_bindParameter b s
    obtain ⟨t, ht⟩ := ih r
    refine ⟨t, ?_⟩
    change (bindParameter b >>= fun _ => bs.forM bindParameter).runFrom s = _
    rw [Action.runFrom_bind, hr]
    exact ht

end LineScript.Session
