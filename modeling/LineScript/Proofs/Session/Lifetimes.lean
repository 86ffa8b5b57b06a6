import LineScript.Proofs.Path
import LineScript.Proofs.Session.Upholding

set_option relaxedAutoImplicit false
set_option autoImplicit false

/-!
# Constants and global variables last

A constant keeps its value and a global variable stays global, whatever a run does. Declaring,
binding and setting refuse to break it. Restoring the local variables of a caller refuses nothing,
but the stash that it writes over the variables was taken when the constants and global variables
were there already, so it has none of their names.

## Main definitions

* `LineScript.Store.Lasting` — the constants and global variables of one store are those of another.

## Main results

* `LineScript.Store.Lasting.update`, `LineScript.Store.Lasting.withoutLocals`,
  `LineScript.Store.Lasting.restore` — what happens to variables in a run keeps it.
* `LineScript.Session.kept_lasting` — everything that a run does keeps it.
* `LineScript.Session.lifetimes_last` — constants and global variables last through every request of
  a host.
-/

namespace LineScript

namespace Store

/-- What is constant in `st` is constant in `st'`, with the same value, and what is global in `st`
is global in `st'`. -/
structure Lasting (st st' : Store) : Prop where
  constant : ∀ {name v}, st.find? name = some ⟨v, .constant⟩ → st'.find? name = some ⟨v, .constant⟩
  global : ∀ {name}, st.lifetime? name = some .globalScope → st'.lifetime? name = some .globalScope

variable {start st st' : Store}

/-- All variables of a store last in it. -/
theorem lasting_refl (st : Store) : st.Lasting st :=
  ⟨id, id⟩

namespace Lasting

/-- What lasts in a store and then in the next one lasts in both. -/
theorem trans (h : start.Lasting st) (h' : st.Lasting st') : start.Lasting st' :=
  ⟨fun hv => h'.constant (h.constant hv), fun hg => h'.global (h.global hg)⟩

/-! ## Writes -/

/-- A variable may be written if it is no constant and stays global if it is. -/
theorem write {name : String} {v : Variable} (hconstant : st.lifetime? name ≠ some .constant)
    (hglobal : st.lifetime? name = some .globalScope → v.lifetime = .globalScope) :
    st.Lasting (st.write name v) := by
  constructor
  · intro other w hother
    have hne : name ≠ other := by
      rintro rfl
      exact hconstant (by rw [lifetime?, hother]; rfl)
    rw [find?_write_of_ne st hne, hother]
  · intro other hother
    unfold lifetime?
    by_cases hname : name = other
    · subst hname
      rw [find?_write_self, Option.map_some, hglobal hother]
    · rw [find?_write_of_ne st hname]
      exact hother

/-- Declaring a variable lets the others last: a name that is taken is not declared again. -/
theorem declare {name : String} {v : Value} {lifetime : Lifetime}
    (h : st.declare name v lifetime = .ok st') : st.Lasting st' := by
  rcases st.declare_cases name v lifetime with ⟨hdeclared, hnone, -⟩ | ⟨e, hrefused, -⟩
  · cases h.symm.trans hdeclared
    have hlifetime : st.lifetime? name = none := by rw [lifetime?, hnone, Option.map_none]
    refine write ?_ ?_
    · simp [hlifetime]
    · simp [hlifetime]
  · cases h.symm.trans hrefused

/-- Binding a name changes no lifetime of a variable that is there. -/
theorem bind {name : String} {v : Value} {lifetime : Lifetime}
    (h : st.bind name v lifetime = .ok st') : st.Lasting st' := by
  unfold Store.bind at h
  split at h
  · cases h
  · cases hlifetime : st.lifetime? name with
    | none =>
      simp only [hlifetime] at h
      cases h
      exact write (by simp [hlifetime]) (by simp [hlifetime])
    | some old =>
      cases old with
      | constant => simp [hlifetime] at h
      | globalScope =>
        simp only [hlifetime] at h
        cases h
        exact write (by simp [hlifetime]) fun _ => rfl
      | localScope =>
        simp only [hlifetime] at h
        cases h
        exact write (by simp [hlifetime]) (by simp [hlifetime])

/-- A write at a path keeps the lifetime of the variable. -/
theorem set {path : String} {v : Value} (h : st.set path v = .ok st') : st.Lasting st' := by
  obtain ⟨p, u, -, hwritable, -, rfl⟩ := set_eq_ok.1 h
  have hslot : ∀ lifetime, st.lifetime? p.base = some lifetime →
      (st.slot p.base).lifetime = lifetime := by
    intro lifetime hlifetime
    obtain ⟨found, hfind, rfl⟩ := Option.map_eq_some_iff.1 hlifetime
    rw [slot, hfind]
    rfl
  exact write (fun hconstant => hwritable (hslot _ hconstant)) (hslot _)

/-- Every change that a run makes to the variables lets them last. -/
theorem update (h : st.Updates st') : st.Lasting st' := by
  cases h with
  | declare h => exact declare h
  | bind h => exact bind h
  | set h => exact set h

/-! ## Calls -/

/-- Global variables and constants last when local ones are put aside. -/
theorem withoutLocals (st : Store) : st.Lasting st.withoutLocals := by
  constructor
  · intro name v hfind
    rw [find?_withoutLocals, hfind]
    rfl
  · intro name hlifetime
    obtain ⟨⟨v, lifetime⟩, hfind, rfl⟩ := Option.map_eq_some_iff.1 hlifetime
    rw [lifetime?, find?_withoutLocals, hfind]
    rfl

/-- **Stashed local variables** are put back over the variables. None of them has the name of a
constant or a global variable, as these were not local when the stash was taken. -/
theorem restore {before : Store} (hbefore : start.Lasting before) (h : start.Lasting st) :
    start.Lasting (st.restore before.locals) := by
  constructor
  · intro name v hfind
    have hlocal : before.local? name = none := by
      rw [local?, hbefore.constant hfind]
      rfl
    rw [find?_restore_of_local?_eq_none hlocal, h.constant hfind]
    rfl
  · intro name hlifetime
    have hlocal : before.local? name = none := by
      obtain ⟨⟨v, lifetime⟩, hfind, rfl⟩ := Option.map_eq_some_iff.1 (hbefore.global hlifetime)
      rw [local?, hfind]
      rfl
    obtain ⟨⟨v, lifetime⟩, hfind, rfl⟩ := Option.map_eq_some_iff.1 (h.global hlifetime)
    rw [lifetime?, find?_restore_of_local?_eq_none hlocal, hfind]
    rfl

end Lasting

end Store

namespace Session

/-- **Everything that a run does** keeps the constants and global variables of its start. It makes
no difference which error is on its way. -/
theorem kept_lasting (start : Store) : Kept fun _ s => start.Lasting s.store where
  native _ _ _ _ _ _ _ _ ht := ht
  update h _ hupdates := h.trans (.update hupdates)
  hide h := h.trans (.withoutLocals _)
  restore hs _ _ ht := .restore hs ht
  define h _ _ _ _ := h
  enter h _ := h
  move h _ _ := h
  print h _ := h
  note h _ _ := h
  raise h _ _ := h
  settle h _ := h

/-- **Constants and global variables last.** Through every request of a host that comes back, with a
result or with a failure, each constant keeps its value and each global variable stays there as a
global one.

**Proof sketch.** What holds of the variables between the start of the request and any point of the
run is kept by everything that a run does (`kept_lasting`), calls and the sources they run included,
and so by the whole request (`runner_upholds`). -/
theorem lifetimes_last (steps : Nat) (s t : Session) (o : Except ScriptError Value) :
    (∀ code, (execute steps code).runFrom s = .ok (o, t) → s.store.Lasting t.store) ∧
      (∀ code zone, (executeIn steps code zone).runFrom s = .ok (o, t) → s.store.Lasting t.store) ∧
      (∀ id, (executeFile steps id).runFrom s = .ok (o, t) → s.store.Lasting t.store) ∧
      (∀ src, (evaluate steps src).runFrom s = .ok (o, t) → s.store.Lasting t.store) ∧
      ∀ name args, (call steps name args).runFrom s = .ok (o, t) → s.store.Lasting t.store := by
  have hkept := kept_lasting s.store
  have hstart := s.store.lasting_refl
  have hrunner := runner_upholds hkept steps
  refine ⟨?_, ?_, ?_, ?_, ?_⟩
  · intro code h
    exact hrunner code none s hstart o t h
  · intro code zone h
    exact hrunner code (some zone) s hstart o t h
  · intro id h
    exact loadSource_upholds hkept hrunner id s hstart o t h
  · intro src h
    exact evaluateWith_upholds hkept hrunner src s hstart o t h
  · intro name args h
    exact callFunction_upholds hkept hrunner name args s hstart o t h

/-- A function that has the name of a global variable for its parameter and for a loop variable. It
declares a global variable under the name of its caller's local one, writes to a constant, and
fails. -/
def meddlingFunction : Function :=
  { name := "f"
    params := ["count"]
    body := .source "foreach $count in ['a']\nend\nglobal $x\nset $limit = 'more'\necho $unknown" }

/-- A session with the constant `limit`, the global variable `count` and the local variable `x`. -/
def meddledSession : Session :=
  { store :=
      ((Store.empty.write "limit" ⟨.str "most", .constant⟩).write "count"
        ⟨.null, .globalScope⟩).write "x" ⟨.bool true, .localScope⟩
    functions := ⟨[("f", meddlingFunction)]⟩ }

/-- The call fails. The constant `limit` has its value, `count` is global with what the loop gave
it, and `x` is local again. -/
theorem lifetimes_last_meddledSession :
    ∃ e t, (call 20 "f" [.null]).runFrom meddledSession = .ok (.error e, t) ∧
      t.store.find? "limit" = some ⟨.str "most", .constant⟩ ∧
      t.store.lifetime? "count" = some .globalScope ∧
      (t.store.find? "count").map (fun v => v.value.kind) = some .collection ∧
      t.store.lifetime? "x" = some .localScope := by
  have hobserved : ((call 20 "f" [.null]).runFrom meddledSession).toOption.map
      (fun r => (r.1.isOk, (r.2.store.find? "count").map (fun v => v.value.kind),
        r.2.store.lifetime? "x")) = some (false, some .collection, some .localScope) := by
    decide +kernel
  rcases hrun : (call 20 "f" [.null]).runFrom meddledSession with reason | ⟨e | v, t⟩
  · rw [hrun] at hobserved
    cases hobserved
  · rw [hrun] at hobserved
    obtain ⟨-, hrest⟩ := Prod.mk.inj (Option.some.inj hobserved)
    obtain ⟨hcount, hx⟩ := Prod.mk.inj hrest
    obtain ⟨hconstant, hglobal⟩ :=
      (lifetimes_last 20 meddledSession t (.error e)).2.2.2.2 "f" [.null] hrun
    exact ⟨e, t, rfl, hconstant rfl, hglobal rfl, hcount, hx⟩
  · rw [hrun] at hobserved
    cases hobserved

end Session

end LineScript
