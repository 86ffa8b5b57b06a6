import LineScript.Store

set_option relaxedAutoImplicit false
set_option autoImplicit false

/-!
# Hidden and restored variables

What a look-up finds among the local variables alone, without them, and after stashed
local variables have been brought back.

## Main definitions

* `LineScript.Store.local?` — the value of a local variable.
* `LineScript.Store.Updates` — the ways in which variables are written.

## Main results

* `LineScript.Store.find?_locals`, `LineScript.Store.find?_withoutLocals` — a store cut in two.
* `LineScript.Store.find?_restore` — stashed variables win, and apart from them only variables that
  are not local are left.
* `LineScript.Store.local?_restore` — the local variables are then those that were stashed.
-/

namespace LineScript

namespace Assoc

variable {κ α : Type} [DecidableEq κ]

/-- A look-up among some of the entries, where keys are distinct. -/
theorem get?_filter {entries : List (κ × α)} (h : (entries.map Prod.fst).Nodup)
    (p : κ × α → Bool) (k : κ) :
    get? k (entries.filter p) = (get? k entries).filter fun v => p (k, v) := by
  induction entries with
  | nil => rfl
  | cons e rest ih =>
    obtain ⟨k', v⟩ := e
    simp only [List.map_cons, List.nodup_cons] at h
    have ih := ih h.2
    by_cases hk : k' = k
    · subst hk
      -- no further entry has this key, so a dropped entry is found nowhere else
      have hnone : get? k' rest = none := get?_eq_none_of_notMem h.1
      by_cases hp : p (k', v) = true
      · simp [get?, hp, Option.filter]
      · simp [get?, hp, ih, hnone, Option.filter]
    · by_cases hp : p (k', v) = true
      · simp [get?, hp, hk, ih]
      · simp [get?, hp, hk, ih]

/-- A look-up after all pairs of a list with distinct keys have been inserted. -/
theorem get?_foldl_insert {pairs : List (κ × α)} (h : (pairs.map Prod.fst).Nodup)
    (entries : List (κ × α)) (k : κ) :
    get? k (pairs.foldl (fun entries pair => insert pair.1 pair.2 entries) entries) =
      (get? k pairs).or (get? k entries) := by
  induction pairs generalizing entries with
  | nil => rfl
  | cons pair pairs ih =>
    obtain ⟨k', v⟩ := pair
    simp only [List.map_cons, List.nodup_cons] at h
    rw [List.foldl_cons, ih h.2]
    by_cases hk : k' = k
    · subst hk
      have hnone : get? k' pairs = none := get?_eq_none_of_notMem h.1
      simp [get?, hnone]
    · simp [get?, hk, get?_insert_of_ne hk]

end Assoc

namespace Store

/-- One variable is declared, bound as a loop variable or parameter, or written at a path. -/
inductive Updates (st : Store) : Store → Prop
  | declare {name : String} {v : Value} {lifetime : Lifetime} {st' : Store} :
      st.declare name v lifetime = .ok st' → Updates st st'
  | bind {name : String} {v : Value} {st' : Store} :
      st.bind name v .localScope = .ok st' → Updates st st'
  | set {path : String} {v : Value} {st' : Store} : st.set path v = .ok st' → Updates st st'

/-- The value of a local variable. -/
def local? (st : Store) (name : String) : Option Value :=
  ((st.find? name).filter fun found => found.lifetime = .localScope).map Variable.value

/-- Among the local variables, a look-up finds those variables that are local. -/
theorem find?_locals (st : Store) (name : String) :
    st.locals.find? name = (st.find? name).filter fun found => found.lifetime = .localScope :=
  Assoc.get?_filter st.distinct isLocal name

/-- Without the local variables, a look-up finds those variables that are not local. -/
theorem find?_withoutLocals (st : Store) (name : String) :
    st.withoutLocals.find? name =
      (st.find? name).filter fun found => !decide (found.lifetime = .localScope) :=
  Assoc.get?_filter st.distinct (fun entry => !isLocal entry) name

/-- The entries of a restored store. -/
theorem bindings_restore (st stash : Store) :
    (st.restore stash).bindings =
      stash.bindings.foldl (fun entries pair => Assoc.insert pair.1 pair.2 entries)
        st.withoutLocals.bindings := by
  unfold restore
  generalize stash.bindings = pairs
  generalize st.withoutLocals = rest
  induction pairs generalizing rest with
  | nil => rfl
  | cons pair pairs ih => exact ih (rest.write pair.1 pair.2)

/-- **Restored variables.** Stashed variables win; apart from them only those variables are left
that are not local. -/
theorem find?_restore (st stash : Store) (name : String) :
    (st.restore stash).find? name = (stash.find? name).or (st.withoutLocals.find? name) := by
  unfold find?
  rw [bindings_restore]
  exact Assoc.get?_foldl_insert stash.distinct _ name

/-- After the local variables of `before` have been restored, they are the local variables. -/
theorem local?_restore (st before : Store) (name : String) :
    (st.restore before.locals).local? name = before.local? name := by
  unfold local?
  rw [find?_restore, find?_locals, find?_withoutLocals]
  rcases before.find? name with _ | ⟨v, lifetime⟩
  · rcases st.find? name with _ | ⟨v', lifetime'⟩
    · rfl
    · cases lifetime' <;> simp [Option.filter]
  · cases lifetime with
    | localScope => simp [Option.filter]
    | _ =>
      rcases st.find? name with _ | ⟨v', lifetime'⟩
      · simp [Option.filter]
      · cases lifetime' <;> simp [Option.filter]

/-- Names that were not those of local variables keep what the restored store had under them, unless
that is local. -/
theorem find?_restore_of_local?_eq_none {st before : Store} {name : String}
    (h : before.local? name = none) :
    (st.restore before.locals).find? name =
      (st.find? name).filter fun found => !decide (found.lifetime = .localScope) := by
  have hnone : before.locals.find? name = none := by
    rw [find?_locals]
    simpa [local?] using h
  rw [find?_restore, hnone, Option.none_or, find?_withoutLocals]

end Store

end LineScript
