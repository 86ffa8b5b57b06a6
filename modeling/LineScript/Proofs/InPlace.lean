import LineScript.Proofs.Path

set_option relaxedAutoImplicit false
set_option autoImplicit false

/-!
# Writing in place

A write at a path can also be done in place. The variable is then made before anything about it is
known, and on the way down null and `false` become collections and missing keys are put in, one by
one, before the write can tell whether it will get to the end. It may fail at a value further down
that can hold no entries, and there is no way back from there. All the same nothing has changed in
that case: only what was there before can fail, so a write that fails has met nothing but
collections that have the keys asked for.

## Main definitions

* `LineScript.Value.assignInPlace`, `LineScript.Store.setInPlace` — writes that change values on
  their way, and what they leave, whether they fail or not.

## Main results

* `LineScript.Value.exists_assign_null` — nothing fails below a value that was just made.
* `LineScript.Value.assignInPlace_eq` — a value is written in place, or left as it was.
* `LineScript.Store.failed_set_leaves_store` — the same for variables: a write that fails changes
  nothing.
-/

namespace LineScript

namespace Assoc

variable {κ α : Type} [DecidableEq κ]

/-- The later of two writes under a key is the one that counts. -/
theorem insert_insert (k : κ) (v w : α) (entries : List (κ × α)) :
    insert k v (insert k w entries) = insert k v entries := by
  induction entries with
  | nil => simp [insert]
  | cons e rest ih =>
    by_cases hk : e.1 = k
    · simp [insert, hk]
    · simp [insert, hk, ih]

/-- Writing the value that is there already changes nothing. -/
theorem insert_of_get? {k : κ} {v : α} {entries : List (κ × α)} (h : get? k entries = some v) :
    insert k v entries = entries := by
  induction entries with
  | nil => cases h
  | cons e rest ih =>
    obtain ⟨k', w⟩ := e
    by_cases hk : k' = k
    · simp only [get?, hk, if_true, Option.some.injEq] at h
      simp [insert, hk, h]
    · simp only [get?, hk, if_false] at h
      simp [insert, hk, ih h]

end Assoc

/-! ## Values -/

namespace Collection

/-- The collection with an entry under `k`: the one that is there, or null as a new last entry. -/
def withEntry (c : Collection Value) (k : Key) : Collection Value :=
  if (c.get? k).isSome then c else c.insert k .null

/-- An entry that has just been made is null, as is one that is not there. -/
theorem getD_get?_withEntry (c : Collection Value) (k : Key) :
    ((c.withEntry k).get? k).getD .null = (c.get? k).getD .null := by
  unfold withEntry
  cases hentry : c.get? k with
  | some v => rw [Option.isSome_some, if_pos rfl, hentry]
  | none =>
    rw [Option.isSome_none, if_neg Bool.false_ne_true, get?_insert_self]
    rfl

/-- What is written under a key does not depend on whether its entry was made first. -/
theorem insert_withEntry (c : Collection Value) (k : Key) (v : Value) :
    (c.withEntry k).insert k v = c.insert k v := by
  unfold withEntry
  split
  · rfl
  · rw [insert, insert, insert, Assoc.insert_insert]

/-- Writing the value that is there already changes nothing. -/
theorem insert_of_get? {c : Collection Value} {k : Key} {v : Value} (h : c.get? k = some v) :
    c.insert k v = c := by
  rw [insert, Assoc.insert_of_get? h]

end Collection

namespace Value

/-- Null and `false` become an empty collection. -/
def opened : Value → Value
  | .null | .bool false => .collection Collection.empty
  | v => v

/-- A value is written below the keys in place: what is left of the value, and whether the write got
to the end of the keys. -/
def assignInPlace (new : Value) : List Key → Value → Except ValueKind Unit × Value
  | [], _ => (.ok (), new)
  | k :: ks, slot =>
    match slot.opened with
    | .collection c =>
      -- the entry is made before it is known whether the write goes on below it
      let entry := ((c.withEntry k).get? k).getD .null
      let (outcome, v) := assignInPlace new ks entry
      (outcome, .collection ((c.withEntry k).insert k v))
    | other => (.error other.kind, other)

variable {new slot : Value} {k : Key} {ks : List Key} {c : Collection Value}

/-- **Nothing fails below a value that was just made.** -/
theorem exists_assign_null (new : Value) (ks : List Key) : ∃ v, assign new ks .null = .ok v := by
  induction ks with
  | nil => exact ⟨new, rfl⟩
  | cons k ks ih =>
    obtain ⟨v, hv⟩ := ih
    -- the collection that null gives way to is empty, so the write goes on below another null
    exact ⟨_, assign_cons_eq_ok.2 ⟨Collection.empty, v, rfl, hv, rfl⟩⟩

/-- A value that can hold entries is opened to the collection that it stands for. -/
theorem opened_of_asContainer (h : slot.asContainer = some c) : slot.opened = .collection c := by
  cases slot with
  | collection entries =>
    cases h
    rfl
  | null =>
    cases h
    rfl
  | bool b =>
    cases b with
    | false =>
      cases h
      rfl
    | true => cases h
  | _ => cases h

/-- A value that can hold no entries is not opened, and is no collection. -/
theorem opened_of_asContainer_eq_none (h : slot.asContainer = none) :
    slot.opened = slot ∧ ∀ c, slot ≠ .collection c := by
  cases slot with
  | collection entries => cases h
  | null => cases h
  | bool b =>
    cases b with
    | false => cases h
    | true => exact ⟨rfl, nofun⟩
  | _ => exact ⟨rfl, nofun⟩

/-- One key of a write in place, into a value that can hold entries. -/
theorem assignInPlace_cons (h : slot.asContainer = some c) :
    assignInPlace new (k :: ks) slot =
      ((assignInPlace new ks ((c.get? k).getD .null)).1,
        .collection (c.insert k (assignInPlace new ks ((c.get? k).getD .null)).2)) := by
  rw [assignInPlace, opened_of_asContainer h]
  dsimp only
  rw [c.getD_get?_withEntry, c.insert_withEntry]

/-- A value that can hold no entries is left as it is. -/
theorem assignInPlace_cons_of_none (h : slot.asContainer = none) :
    assignInPlace new (k :: ks) slot = (.error slot.kind, slot) := by
  obtain ⟨hopened, hcollection⟩ := opened_of_asContainer_eq_none h
  rw [assignInPlace, hopened]
  cases slot with
  | collection c => exact absurd rfl (hcollection c)
  | _ => rfl

/-- **A value is written in place, or left as it was.** By induction on the keys: a failure below an
entry leaves that entry as it was, and the entry was there, as nothing fails below one that was just
made. So its collection was there as well, and is as it was. -/
theorem assignInPlace_eq (new : Value) (ks : List Key) (slot : Value) :
    assignInPlace new ks slot =
      match assign new ks slot with
      | .ok v => (.ok (), v)
      | .error found => (.error found, slot) := by
  induction ks generalizing slot with
  | nil => rfl
  | cons k ks ih =>
    rcases hslot : slot.asContainer with _ | c
    · rw [assignInPlace_cons_of_none hslot, assign, hslot]
    · rw [assignInPlace_cons hslot, assign, hslot, ih]
      dsimp only
      cases hbelow : assign new ks ((c.get? k).getD .null) with
      | ok v => rfl
      | error found =>
        dsimp only
        cases hget : c.get? k with
        | none =>
          obtain ⟨v, hv⟩ := exists_assign_null new ks
          rw [hget, Option.getD_none, hv] at hbelow
          cases hbelow
        | some u =>
          -- an entry was found, so no collection was made here
          obtain rfl : slot = .collection c := by
            unfold asContainer at hslot
            split at hslot
            · cases hslot
              rfl
            · cases hslot
              cases hget
            · cases hslot
              cases hget
            · cases hslot
          rw [Option.getD_some, Collection.insert_of_get? hget]

end Value

/-! ## Variables -/

/-- The base of a path is its name up to the first dot. -/
theorem Path.base_of_parse {path : String} {p : Path} (h : parse path = .ok p) :
    p.base = baseName path := by
  unfold parse at h
  split at h
  · cases h
  · cases h
    rfl

/-- Keys are refused for one of the segments. -/
theorem Path.invalidKey_of_parseKeys {path : String} {e : ScriptError} {below : List String}
    (h : parseKeys path below = .error e) : ∃ segment ∈ below, e = .invalidKey path segment := by
  induction below with
  | nil => cases h
  | cons segment below ih =>
    rw [parseKeys] at h
    cases hkey : Key.ofSegment? segment with
    | none => exact ⟨segment, List.mem_cons_self, by simpa [hkey, eq_comm] using h⟩
    | some key =>
      cases hrest : parseKeys path below with
      | ok keys => simp [hkey, hrest] at h
      | error e' =>
        obtain rfl : e' = e := by simpa [hkey, hrest] using h
        obtain ⟨other, hmem, he⟩ := ih hrest
        exact ⟨other, List.mem_cons_of_mem _ hmem, he⟩

/-- A path is refused for one of its segments. -/
theorem Path.invalidKey_of_parse {path : String} {e : ScriptError} (h : parse path = .error e) :
    ∃ segment ∈ (segments path).tail, e = .invalidKey path segment := by
  rw [parse] at h
  cases hkeys : parseKeys path (segments path).tail with
  | ok keys => simp [hkeys] at h
  | error e' =>
    obtain rfl : e' = e := by simpa [hkeys] using h
    exact invalidKey_of_parseKeys hkeys

namespace Store

/-- The store with a variable of that name: the one that is there, or a local one that is null. -/
def withVariable (st : Store) (name : String) : Store :=
  if st.contains name then st else st.write name ⟨.null, .localScope⟩

/-- A value is written at a path in place: what is left of the variables, and whether the write was
done. -/
def setInPlace (st : Store) (path : String) (value : Value) : Except ScriptError Unit × Store :=
  match Path.parse path with
  | .error e => (.error e, st)
  | .ok p =>
    -- the variable is made before anything is known about it
    let made := st.withVariable p.base
    let slot := made.slot p.base
    if slot.lifetime = .constant then (.error (.assignConst p.base), made)
    else
      let (outcome, v) := Value.assignInPlace value p.keys slot.value
      (outcome.mapError (.notIndexable path), made.write p.base { slot with value := v })

variable {st : Store} {name : String}

/-- The variable that a write starts from is the same after it has been made. -/
theorem slot_withVariable (st : Store) (name : String) :
    (st.withVariable name).slot name = st.slot name := by
  unfold withVariable
  cases hknown : st.contains name with
  | true => rfl
  | false =>
    have hnone : st.find? name = none := by simpa [contains] using hknown
    rw [if_neg Bool.false_ne_true, slot, slot, find?_write_self, hnone]
    rfl

/-- What is written does not depend on whether the variable was made first. -/
theorem write_withVariable (st : Store) (name : String) (v : Variable) :
    (st.withVariable name).write name v = st.write name v := by
  unfold withVariable
  split
  · rfl
  · simp only [write, Assoc.insert_insert]

/-- A variable that is there already need not be made. -/
theorem withVariable_of_contains (h : st.contains name = true) : st.withVariable name = st := by
  rw [withVariable, if_pos h]

/-- A variable that is not there starts out as a local one that is null. -/
theorem slot_of_not_contains (h : ¬st.contains name = true) :
    st.slot name = ⟨.null, .localScope⟩ := by
  have hnone : st.find? name = none := by simpa [contains] using h
  rw [slot, hnone]
  rfl

/-- Writing a variable as it is changes nothing. -/
theorem write_slot (h : st.contains name = true) : st.write name (st.slot name) = st := by
  obtain ⟨v, hv⟩ := Option.isSome_iff_exists.1 h
  have hentries : Assoc.insert name v st.bindings = st.bindings := Assoc.insert_of_get? hv
  rw [slot, hv, Option.getD_some]
  simp only [write, hentries]

/-- **Variables are written in place, or left as they were.** A constant was there, and so was a
variable below which the write fails, since a new one is null.

**Proof sketch.** By whether the variable is there. If it is, a constant is refused, and any other
one is written in place: on failure its value is left (`assignInPlace_eq`), and writing back the
value that it has changes nothing. If it is not, the write is one into null, which does not fail. -/
theorem setInPlace_eq (st : Store) (path : String) (value : Value) :
    st.setInPlace path value =
      match st.set path value with
      | .ok st' => (.ok (), st')
      | .error e => (.error e, st) := by
  unfold setInPlace set
  cases Path.parse path with
  | error e => rfl
  | ok p =>
    dsimp only
    rw [← slot, slot_withVariable]
    by_cases hcontains : st.contains p.base = true
    · rw [withVariable_of_contains hcontains]
      split
      · rfl
      · rw [Value.assignInPlace_eq]
        cases Value.assign value p.keys (st.slot p.base).value with
        | ok v => rfl
        | error found =>
          -- the value is left as it was, and it is written back where it stood
          have hkept : st.write p.base { st.slot p.base with value := (st.slot p.base).value } =
              st :=
            write_slot hcontains
          simp only [Except.mapError, hkept]
    · obtain ⟨v, hv⟩ := Value.exists_assign_null value p.keys
      rw [slot_of_not_contains hcontains, if_neg (by decide), if_neg (by decide),
        Value.assignInPlace_eq, hv]
      simp only [Except.mapError, write_withVariable]

/-- The causes for which a write at a path is refused. -/
theorem cause_of_set_error {path : String} {value : Value} {e : ScriptError}
    (h : st.set path value = .error e) :
    (∃ segment ∈ (Path.segments path).tail, e = .invalidKey path segment) ∨
      e = .assignConst (Path.baseName path) ∨ ∃ found, e = .notIndexable path found := by
  rw [set] at h
  cases hparse : Path.parse path with
  | error e' =>
    obtain rfl : e' = e := by simpa [hparse] using h
    exact .inl (Path.invalidKey_of_parse hparse)
  | ok p =>
    simp only [hparse] at h
    split at h
    · cases h
      exact .inr (.inl (by rw [Path.base_of_parse hparse]))
    · split at h
      · cases h
        exact .inr (.inr ⟨_, rfl⟩)
      · cases h

/-- **A write that fails changes nothing.** If a write that changes the variables on its way is
refused, for a segment that is no key, a constant or a value that can hold no entries, the variables
are exactly those from before. It is refused where the write that gives new variables is, and
otherwise leaves just these.

**Proof sketch.** On its way the write makes variables, collections and entries, but below what it
has made it cannot fail (`Value.exists_assign_null`). So before a failure it has only put back what
was there (`Value.assignInPlace_eq`, `setInPlace_eq`). -/
theorem failed_set_leaves_store (st : Store) (path : String) (value : Value) :
    (∀ e, (st.setInPlace path value).1 = .error e →
      (st.setInPlace path value).2 = st ∧
        ((∃ segment ∈ (Path.segments path).tail, e = .invalidKey path segment) ∨
          e = .assignConst (Path.baseName path) ∨ ∃ found, e = .notIndexable path found)) ∧
    (∀ e, st.set path value = .error e ↔ (st.setInPlace path value).1 = .error e) ∧
    ∀ st', st.set path value = .ok st' ↔ st.setInPlace path value = (.ok (), st') := by
  rw [setInPlace_eq]
  cases hset : st.set path value with
  | ok st' => simp
  | error e =>
    refine ⟨?_, by simp, by simp⟩
    intro e' he'
    cases he'
    exact ⟨rfl, cause_of_set_error hset⟩

/-- There is a way down to the sword, but it can hold no entries, and the constant may not be
written. Neither write leaves a trace. -/
theorem failed_set_leaves_store_playerStore :
    (playerStore.setInPlace "player.items.0.edge" .null).1 =
        .error (.notIndexable "player.items.0.edge" .string) ∧
      (playerStore.setInPlace "player.items.0.edge" .null).2 = playerStore ∧
      (playerStore.setInPlace "limit.low" .null).1 = .error (.assignConst "limit") ∧
      (playerStore.setInPlace "limit.low" .null).2 = playerStore := by
  have hsword : (playerStore.setInPlace "player.items.0.edge" .null).1 =
      .error (.notIndexable "player.items.0.edge" .string) := by
    decide +kernel
  have hlimit : (playerStore.setInPlace "limit.low" .null).1 = .error (.assignConst "limit") := by
    decide +kernel
  exact ⟨hsword, ((failed_set_leaves_store playerStore _ _).1 _ hsword).1, hlimit,
    ((failed_set_leaves_store playerStore _ _).1 _ hlimit).1⟩

end Store

end LineScript
