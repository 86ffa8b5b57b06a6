import Mathlib.Data.List.Basic
import LineScript.Store

set_option relaxedAutoImplicit false
set_option autoImplicit false

/-!
# Reading and writing at paths

A write at a dotted path makes collections where there are none yet, puts a new key at the end of a
collection, and leaves everything beside its way alone. So the value written is read again at the
same path, and a path that turns off somewhere reads what it read before.

## Main definitions

* `LineScript.Store.valueAt?` — the value at a path that has been parsed.

## Main results

* `LineScript.Value.assign_cons_eq_ok` — what one key of a write does.
* `LineScript.Value.lookup_assign_self`, `LineScript.Value.lookup_assign_of_diverging`,
  `LineScript.Value.lookup_assign_of_above` — a write below a value, read at its keys, at keys that
  turn off, and at keys above.
* `LineScript.Store.set_eq_ok`, `LineScript.Store.get_eq_ok` — when a path can be written and read.
* `LineScript.Store.get_set_laws` — all of it for the variables of a session.
-/

namespace LineScript

/-- The keys of a collection stay in their order when a value is put into it. -/
theorem Collection.keys_prefix_insert {α : Type} (c : Collection α) (k : Key) (v : α) :
    c.keys <+: (c.insert k v).keys := by
  have hkeys : (c.insert k v).keys = if Assoc.contains k c.entries then c.keys else c.keys ++ [k] :=
    Assoc.keys_insert k v c.entries
  rw [hkeys]
  split
  · exact List.prefix_rfl
  · exact List.prefix_append _ _

/-! ## Values -/

namespace Value

variable {new slot v w : Value} {k : Key} {ks : List Key}

/-- A look-up goes through a collection that has the first key. -/
theorem lookup_cons_eq_some :
    slot.lookup (k :: ks) = some w ↔
      ∃ c u, slot = .collection c ∧ c.get? k = some u ∧ u.lookup ks = some w := by
  cases slot with
  | collection c =>
    cases hget : c.get? k with
    | none => simp [lookup, hget]
    | some u => simp [lookup, hget]
  | _ => simp [lookup]

/-- **One key of a write.** The value is a collection, or gives way to an empty one; what stands
under the key, or null, is written below, and goes back under the key. -/
theorem assign_cons_eq_ok :
    assign new (k :: ks) slot = .ok v ↔
      ∃ c u, slot.asContainer = some c ∧ assign new ks ((c.get? k).getD .null) = .ok u ∧
        v = .collection (c.insert k u) := by
  rw [assign]
  cases slot.asContainer with
  | none => simp
  | some c =>
    dsimp only
    cases hassign : assign new ks ((c.get? k).getD .null) with
    | error found => simp [hassign]
    | ok u => simp [hassign, @eq_comm _ v]

/-- **The value written is read again.** By induction on the keys, as all three. -/
theorem lookup_assign_self (h : assign new ks slot = .ok v) : v.lookup ks = some new := by
  induction ks generalizing slot v with
  | nil =>
    cases h
    rfl
  | cons k ks ih =>
    obtain ⟨c, u, -, hu, rfl⟩ := assign_cons_eq_ok.1 h
    exact lookup_cons_eq_some.2 ⟨_, u, rfl, Collection.get?_insert_self c k u, ih hu⟩

/-- **Keys that turn off** from those of a write lead where they led before. -/
theorem lookup_assign_of_diverging (h : assign new ks slot = .ok v) {qs : List Key}
    (hqs : slot.lookup qs = some w) (hshort : ¬qs <+: ks) (hlong : ¬ks <+: qs) :
    v.lookup qs = some w := by
  induction ks generalizing slot v qs with
  | nil => exact absurd List.nil_prefix hlong
  | cons k ks ih =>
    cases qs with
    | nil => exact absurd List.nil_prefix hshort
    | cons q qs =>
      obtain ⟨c, u, hc, hu, rfl⟩ := assign_cons_eq_ok.1 h
      -- There was a value at the keys, so no collection was made here.
      obtain ⟨c', u', rfl, hget, hlookup⟩ := lookup_cons_eq_some.1 hqs
      obtain rfl : c' = c := Option.some.inj hc
      refine lookup_cons_eq_some.2 ?_
      by_cases hkq : k = q
      · subst hkq
        rw [List.cons_prefix_cons] at hshort hlong
        rw [hget] at hu
        have hbelow := ih hu hlookup (fun hp => hshort ⟨rfl, hp⟩) fun hp => hlong ⟨rfl, hp⟩
        exact ⟨_, u, rfl, Collection.get?_insert_self c' k u, hbelow⟩
      · exact ⟨_, u', rfl, (Collection.get?_insert_of_ne c' hkq u).trans hget, hlookup⟩

/-- **Collections on the way** of a write get a value under the next key, and nothing else. -/
theorem lookup_assign_of_above {above below : List Key}
    (h : assign new (above ++ k :: below) slot = .ok v)
    {c : Collection Value} (hc : slot.lookup above = some (.collection c)) :
    ∃ u, v.lookup above = some (.collection (c.insert k u)) := by
  induction above generalizing slot v with
  | nil =>
    obtain rfl : slot = .collection c := Option.some.inj hc
    obtain ⟨c', u, hc', -, rfl⟩ := assign_cons_eq_ok.1 h
    obtain rfl : c = c' := Option.some.inj hc'
    exact ⟨u, rfl⟩
  | cons q above ih =>
    obtain ⟨c', u', rfl, hget, hlookup⟩ := lookup_cons_eq_some.1 hc
    obtain ⟨c'', u, hc'', hu, rfl⟩ := assign_cons_eq_ok.1 h
    obtain rfl : c' = c'' := Option.some.inj hc''
    rw [hget] at hu
    obtain ⟨x, hx⟩ := ih hu hlookup
    exact ⟨x, lookup_cons_eq_some.2 ⟨_, u, rfl, Collection.get?_insert_self c' q u, hx⟩⟩

end Value

/-! ## Variables -/

namespace Store

variable {st st' : Store} {path : String} {value : Value}

/-- What is written to a name is found there. -/
@[simp]
theorem find?_write_self (st : Store) (name : String) (v : Variable) :
    (st.write name v).find? name = some v :=
  Assoc.get?_insert_self name v st.bindings

/-- Under any other name, the same is found as before. -/
theorem find?_write_of_ne (st : Store) {name other : String} (h : name ≠ other) (v : Variable) :
    (st.write name v).find? other = st.find? other :=
  Assoc.get?_insert_of_ne h v st.bindings

/-- The value at a path. -/
def valueAt? (st : Store) (p : Path) : Option Value :=
  (st.find? p.base).bind fun found => found.value.lookup p.keys

/-- The variable that a write at a path starts from: a new one is local and null. -/
def slot (st : Store) (name : String) : Variable :=
  (st.find? name).getD ⟨.null, .localScope⟩

/-- Reading a path. -/
theorem get_eq_ok : st.get path = .ok value ↔
    ∃ p, Path.parse path = .ok p ∧ st.valueAt? p = some value := by
  unfold get valueAt?
  cases Path.parse path with
  | error e => simp
  | ok p =>
    cases hfind : st.find? p.base with
    | none => simp [hfind]
    | some found => cases hlookup : found.value.lookup p.keys <;> simp [hfind, hlookup]

/-- **Writing at a path**: the variable is no constant, and can be written below the keys. -/
theorem set_eq_ok : st.set path value = .ok st' ↔
    ∃ p v, Path.parse path = .ok p ∧ (st.slot p.base).lifetime ≠ .constant ∧
      Value.assign value p.keys (st.slot p.base).value = .ok v ∧
      st' = st.write p.base { st.slot p.base with value := v } := by
  unfold set
  cases Path.parse path with
  | error e => simp
  | ok p =>
    dsimp only
    rw [← slot]
    by_cases hconstant : (st.slot p.base).lifetime = .constant
    · simp [hconstant]
    · rw [if_neg hconstant]
      cases hassign : Value.assign value p.keys (st.slot p.base).value with
      | error found => simp [hassign]
      | ok v => simp [hassign, hconstant, @eq_comm _ st']

/-- A variable with a value at a path is what a write there starts from. -/
theorem lookup_slot {p : Path} {w : Value} (h : st.valueAt? p = some w) :
    (st.slot p.base).value.lookup p.keys = some w := by
  obtain ⟨found, hfind, hlookup⟩ := Option.bind_eq_some_iff.1 h
  rw [slot, hfind]
  exact hlookup

/-- **The laws of reading and writing at paths.** After a write at a path

* the path reads what was written;
* every other path that could be read reads the same as before, if it starts at another variable or
  its keys neither continue those of the write nor are continued by them;
* a collection on the way keeps its entries in their order, and all of them but the one under the
  next key with their values;
* all other variables are what they were, and the written one keeps its lifetime, or is local if it
  is new.

**Proof sketch.** Below its variable a write goes key by key (`Value.assign_cons_eq_ok`), so each
law holds of the values there by induction on the keys; the variable itself is replaced as a whole.
-/
theorem get_set_laws (h : st.set path value = .ok st') :
    ∃ p, Path.parse path = .ok p ∧
      st'.get path = .ok value ∧
      (∀ other q w, Path.parse other = .ok q → st.get other = .ok w →
        (q.base ≠ p.base ∨ ¬q.keys <+: p.keys ∧ ¬p.keys <+: q.keys) → st'.get other = .ok w) ∧
      (∀ above key below c, p.keys = above ++ key :: below →
        st.valueAt? ⟨p.base, above⟩ = some (.collection c) →
          ∃ c', st'.valueAt? ⟨p.base, above⟩ = some (.collection c') ∧ c.keys <+: c'.keys ∧
            ∀ k, k ≠ key → c'.get? k = c.get? k) ∧
      (∀ name, name ≠ p.base → st'.find? name = st.find? name) ∧
      (∀ lifetime, st.lifetime? p.base = some lifetime → st'.lifetime? p.base = some lifetime) ∧
      (st.lifetime? p.base = none → st'.lifetime? p.base = some .localScope) := by
  obtain ⟨p, v, hparse, -, hassign, rfl⟩ := set_eq_ok.1 h
  have hother (name : String) (hname : name ≠ p.base) :
      (st.write p.base { st.slot p.base with value := v }).find? name = st.find? name :=
    find?_write_of_ne st (Ne.symm hname) _
  have hvalueAt (keys : List Key) :
      (st.write p.base { st.slot p.base with value := v }).valueAt? ⟨p.base, keys⟩ =
        v.lookup keys := by
    simp [valueAt?]
  refine ⟨p, hparse, ?_, ?_, ?_, hother, ?_, ?_⟩
  · exact get_eq_ok.2 ⟨p, hparse, (hvalueAt p.keys).trans (Value.lookup_assign_self hassign)⟩
  · intro other q w hq hget hdiverging
    obtain ⟨q', hq', hw⟩ := get_eq_ok.1 hget
    obtain rfl : q = q' := Except.ok.inj (hq.symm.trans hq')
    refine get_eq_ok.2 ⟨q, hq, ?_⟩
    by_cases hbase : q.base = p.base
    · obtain ⟨hshort, hlong⟩ := hdiverging.resolve_left fun hne => hne hbase
      have hlookup := lookup_slot hw
      obtain ⟨base, keys⟩ := q
      subst hbase
      rw [hvalueAt]
      exact Value.lookup_assign_of_diverging hassign hlookup hshort hlong
    · unfold valueAt?
      rw [hother q.base hbase]
      exact hw
  · intro above key below c hkeys hc
    rw [hkeys] at hassign
    obtain ⟨u, hu⟩ := Value.lookup_assign_of_above hassign (lookup_slot hc)
    refine ⟨c.insert key u, (hvalueAt above).trans hu, c.keys_prefix_insert key u, ?_⟩
    intro k hk
    exact c.get?_insert_of_ne (Ne.symm hk) u
  · intro lifetime hlifetime
    obtain ⟨found, hfind, rfl⟩ := Option.map_eq_some_iff.1 hlifetime
    simp [lifetime?, slot, hfind]
  · intro hnone
    have hfind : st.find? p.base = none := Option.map_eq_none_iff.1 hnone
    simp [lifetime?, slot, hfind]

/-- A global variable with a list and an entry that is `false`, and a constant. -/
def playerStore : Store :=
  (Store.empty.write "player"
    ⟨.collection ⟨[(.name "items", .collection ⟨[(.index 0, .str "sword")]⟩),
      (.name "weapon", .bool false)]⟩, .globalScope⟩).write "limit" ⟨.null, .constant⟩

/-- The entry that is `false` becomes a collection, and nothing beside it changes. -/
theorem get_set_laws_playerStore :
    ∃ st', playerStore.set "player.weapon.00" (.str "bow") = .ok st' ∧
      st'.get "player.weapon.00" = .ok (.str "bow") ∧
      st'.get "player.items.0" = .ok (.str "sword") ∧
      (∃ c', st'.valueAt? ⟨"player", []⟩ = some (.collection c') ∧
        [.name "items", .name "weapon"] <+: c'.keys) ∧
      st'.find? "limit" = some ⟨.null, .constant⟩ ∧
      st'.lifetime? "player" = some .globalScope := by
  have hok : (playerStore.set "player.weapon.00" (.str "bow")).isOk = true := by decide +kernel
  have hpath : (Path.parse "player.weapon.00").toOption =
      some ⟨"player", [.name "weapon", .index 0]⟩ := by decide +kernel
  cases hset : playerStore.set "player.weapon.00" (.str "bow") with
  | error e =>
    rw [hset] at hok
    cases hok
  | ok st' =>
    obtain ⟨p, hparse, hwritten, hbeside, horder, hnames, hkept, -⟩ := get_set_laws hset
    rw [hparse] at hpath
    obtain rfl : p = _ := Option.some.inj hpath
    refine ⟨st', rfl, hwritten, ?_, ?_, hnames "limit" (by decide), hkept .globalScope rfl⟩
    · exact hbeside "player.items.0" ⟨"player", [.name "items", .index 0]⟩ _ rfl rfl
        (.inr (by decide))
    · obtain ⟨c', hc', hkeys, -⟩ := horder [] (.name "weapon") [.index 0] _ rfl rfl
      exact ⟨c', hc', hkeys⟩

end Store

end LineScript
