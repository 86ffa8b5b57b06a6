import Mathlib.Data.List.Nodup
import Mathlib.Data.List.Perm.Subperm
import LineScript.Value.Basic

set_option relaxedAutoImplicit false
set_option autoImplicit false

/-!
# Distinct keys

No two entries of a collection have the same key, and the collections inside it are of that kind as
well. The type of collections does not say so, but every way to make one keeps it: writing under a
key finds the entry that has it, and pushing a value takes an index that no entry has.

## Main definitions

* `LineScript.Collection.Sound` — distinct keys, and values with a given property.
* `LineScript.Value.DistinctKeys` — distinct keys at every level.
* `LineScript.Collection.Obtainable` — what the operations make out of the empty collection.

## Main results

* `LineScript.Collection.lowestFree_eq` — the lowest free index is free, and all below it are taken.
* `LineScript.Collection.nextIndex_notMem` — a value is pushed under a new index.
* `LineScript.Collection.Sound.insert`, `LineScript.Collection.Sound.push`, … — one lemma per
  operation.
* `LineScript.Collection.distinctKeys_and_push` — obtainable collections have distinct keys, and
  what pushing a value does.
-/

namespace LineScript

/-- The entries after a write are those from before and the new one. -/
theorem Assoc.mem_insert {κ α : Type} [DecidableEq κ] {k : κ} {v : α} {entries : List (κ × α)}
    {e : κ × α} (h : e ∈ insert k v entries) : e ∈ entries ∨ e = (k, v) := by
  induction entries with
  | nil => exact .inr (List.mem_singleton.1 h)
  | cons first rest ih =>
    rw [insert] at h
    by_cases hk : first.1 = k
    · rw [if_pos hk] at h
      rcases List.mem_cons.1 h with rfl | h
      · exact .inr (by rw [hk])
      · exact .inl (List.mem_cons_of_mem _ h)
    · rw [if_neg hk] at h
      rcases List.mem_cons.1 h with rfl | h
      · exact .inl List.mem_cons_self
      · exact (ih h).imp_left (List.mem_cons_of_mem _)

/-- A value that a look-up finds is one of the entries. -/
theorem Assoc.mem_of_get? {κ α : Type} [DecidableEq κ] {k : κ} {v : α} {entries : List (κ × α)}
    (h : get? k entries = some v) : (k, v) ∈ entries := by
  induction entries with
  | nil => cases h
  | cons first rest ih =>
    rw [get?] at h
    by_cases hk : first.1 = k
    · rw [if_pos hk] at h
      cases h
      exact hk ▸ List.mem_cons_self
    · rw [if_neg hk] at h
      exact List.mem_cons_of_mem _ (ih h)

namespace Collection

variable {α : Type} {c : Collection α}

/-! ## The next index -/

/-- Not all of the first `n + 1` indices are among `n` of them. -/
theorem exists_notMem (used : List Int) : ∃ i ≤ used.length, (i : Int) ∉ used := by
  by_contra hall
  push Not at hall
  have hnodup : ((List.range (used.length + 1)).map Int.ofNat).Nodup :=
    List.Nodup.map (fun _ _ => Int.ofNat.inj) List.nodup_range
  have hsubset : (List.range (used.length + 1)).map Int.ofNat ⊆ used := by
    intro n hn
    obtain ⟨i, hi, rfl⟩ := List.mem_map.1 hn
    exact hall i (Nat.le_of_lt_succ (List.mem_range.1 hi))
  have hlength := (List.subperm_of_subset hnodup hsubset).length_le
  rw [List.length_map, List.length_range] at hlength
  omega

/-- **The lowest free index** is not taken, and all indices from zero up to it are. -/
theorem lowestFree_eq (used : List Int) :
    ∃ i ≤ used.length, lowestFree used = i ∧ (i : Int) ∉ used ∧ ∀ j < i, (j : Int) ∈ used := by
  have hfind : ∃ i, (List.range (used.length + 1)).find?
      (fun i : Nat => !used.contains (i : Int)) = some i := by
    obtain ⟨i, hi, hfree⟩ := exists_notMem used
    rw [← Option.isSome_iff_exists, List.find?_isSome]
    exact ⟨i, List.mem_range.2 (Nat.lt_succ_of_le hi), by simpa using hfree⟩
  obtain ⟨i, hi⟩ := hfind
  obtain ⟨hfree, hrange, htaken⟩ := List.find?_range_eq_some.1 hi
  refine ⟨i, Nat.le_of_lt_succ (List.mem_range.1 hrange), ?_, by simpa using hfree, ?_⟩
  · rw [lowestFree, hi]
  · intro j hj
    simpa using htaken j hj

/-- The indices are the integers among the keys. -/
theorem mem_indices {n : Int} : n ∈ c.indices ↔ .index n ∈ c.keys := by
  unfold indices
  rw [List.mem_filterMap]
  constructor
  · rintro ⟨key, hkey, hn⟩
    cases key with
    | index m =>
      cases hn
      exact hkey
    | name s => cases hn
  · intro h
    exact ⟨.index n, h, rfl⟩

/-- The largest index of a collection. -/
def IsLargest (c : Collection α) (n : Int) : Prop :=
  .index n ∈ c.keys ∧ ∀ m, .index m ∈ c.keys → m ≤ n

/-- The largest index is the maximum of the indices. -/
theorem isLargest_iff {n : Int} : c.IsLargest n ↔ c.indices.max? = some n := by
  rw [List.max?_eq_some_iff, IsLargest, mem_indices]
  simp only [mem_indices]

/-- The next index where there is none yet, where the largest one has a successor, and where it has
none. -/
theorem nextIndex_cases (c : Collection α) :
    (c.indices = [] ∧ c.nextIndex = 0) ∨
      ∃ n, c.IsLargest n ∧ ((n < Key.maxIndex ∧ c.nextIndex = max (n + 1) 0) ∨
        (Key.maxIndex ≤ n ∧ c.nextIndex = lowestFree c.indices)) := by
  unfold nextIndex
  cases hmax : c.indices.max? with
  | none => exact .inl ⟨List.max?_eq_none_iff.1 hmax, rfl⟩
  | some n =>
    refine .inr ⟨n, isLargest_iff.2 hmax, ?_⟩
    by_cases hlt : n < Key.maxIndex
    · exact .inl ⟨hlt, if_pos hlt⟩
    · exact .inr ⟨Int.not_lt.1 hlt, if_neg hlt⟩

/-- **A value is pushed under a new index.** -/
theorem nextIndex_notMem (c : Collection α) : .index c.nextIndex ∉ c.keys := by
  rw [← mem_indices]
  rcases nextIndex_cases c with ⟨hnone, -⟩ | ⟨n, ⟨-, hle⟩, ⟨-, heq⟩ | ⟨-, heq⟩⟩
  · simp [hnone]
  · intro hmem
    have hbound := hle _ (mem_indices.1 hmem)
    omega
  · obtain ⟨i, -, hlowest, hfree, -⟩ := lowestFree_eq c.indices
    rw [heq, hlowest]
    exact hfree

/-- The next index is in the range of indices, as long as there are no more entries than indices. -/
theorem nextIndex_le (c : Collection α) (hsize : c.size ≤ Key.maxIndex) :
    c.nextIndex ≤ Key.maxIndex := by
  have hpos : (0 : Int) ≤ Key.maxIndex := by decide
  rcases nextIndex_cases c with ⟨-, heq⟩ | ⟨n, -, ⟨hlt, heq⟩ | ⟨-, heq⟩⟩
  · omega
  · omega
  · obtain ⟨i, hi, hlowest, -, -⟩ := lowestFree_eq c.indices
    have hlength : c.indices.length ≤ c.size := by
      have hfilter : c.indices.length ≤ c.keys.length := List.length_filterMap_le _ _
      simpa [keys, size] using hfilter
    omega

/-! ## Operations -/

/-- The keys are distinct, and all values are as `P` says. -/
structure Sound (P : α → Prop) (c : Collection α) : Prop where
  nodup : c.keys.Nodup
  entries : ∀ e ∈ c.entries, P e.2

variable {P : α → Prop}

/-- A collection without entries is sound. -/
theorem sound_empty : Sound P (empty : Collection α) :=
  ⟨List.nodup_nil, fun _ h => nomatch h⟩

/-- What is found in a sound collection is as `P` says. -/
theorem Sound.of_get? (h : c.Sound P) {k : Key} {v : α} (hget : c.get? k = some v) : P v :=
  h.entries _ (Assoc.mem_of_get? hget)

/-- Putting in a value that is as `P` says. -/
theorem Sound.insert (h : c.Sound P) (k : Key) {v : α} (hv : P v) : (c.insert k v).Sound P := by
  refine ⟨Assoc.nodup_insert h.nodup k v, ?_⟩
  intro e he
  rcases Assoc.mem_insert he with he | rfl
  · exact h.entries e he
  · exact hv

/-- Pushing a value that is as `P` says: the next index is no key yet. -/
theorem Sound.push (h : c.Sound P) {v : α} (hv : P v) : (c.push v).Sound P := by
  constructor
  · have hkeys : (c.push v).keys = c.keys ++ [.index c.nextIndex] := by simp [keys]
    rw [hkeys, List.nodup_append]
    refine ⟨h.nodup, List.nodup_singleton _, ?_⟩
    intro key hkey new hnew
    obtain rfl := List.mem_singleton.1 hnew
    rintro rfl
    exact nextIndex_notMem c hkey
  · intro e he
    rcases List.mem_append.1 he with he | he
    · exact h.entries e he
    · obtain rfl := List.mem_singleton.1 he
      exact hv

/-- Adding an entry with a value that is as `P` says. -/
theorem Sound.add (h : c.Sound P) {e : Key × α} (he : P e.2) : (c.add e).Sound P := by
  obtain ⟨key, v⟩ := e
  cases key with
  | index n => exact h.push he
  | name s => exact h.insert _ he

/-- Entries with values that are as `P` says, gathered. -/
theorem sound_gather {entries : List (Key × α)} (h : ∀ e ∈ entries, P e.2) :
    (gather entries).Sound P :=
  List.foldlRecOn entries Collection.add sound_empty fun _ hc e he => hc.add (h e he)

/-- A concatenation of sound collections. -/
theorem Sound.append (h : c.Sound P) {d : Collection α} (hd : d.Sound P) :
    (c.append d).Sound P := by
  refine sound_gather fun e he => ?_
  rcases List.mem_append.1 he with he | he
  · exact h.entries e he
  · exact hd.entries e he

/-- A slice of a sound collection. -/
theorem Sound.slice (h : c.Sound P) (start stop : Nat) : (c.slice start stop).Sound P :=
  sound_gather fun e he => h.entries e (List.mem_of_mem_take (List.mem_of_mem_drop he))

/-- What is left of a sound collection after values are taken out. -/
theorem Sound.difference (h : c.Sound P) (same : α → α → Bool) (d : Collection α) :
    (c.difference same d).Sound P :=
  ⟨Assoc.nodup_filter h.nodup _, fun e he => h.entries e (List.mem_filter.1 he).1⟩

/-- The collection of a list of values that are as `P` says. -/
theorem sound_ofValues {vs : List α} (h : ∀ v ∈ vs, P v) : (ofValues vs).Sound P :=
  List.foldlRecOn vs Collection.push sound_empty fun _ hc v hv => hc.push (h v hv)

/-- The collection of a list of entries, of which later ones overwrite earlier ones. -/
theorem sound_ofEntries {entries : List (Key × α)} (h : ∀ e ∈ entries, P e.2) :
    (ofEntries entries).Sound P :=
  List.foldlRecOn entries (fun (c : Collection α) e => c.insert e.1 e.2) sound_empty
    fun _ hc e he =>
    hc.insert e.1 (h e he)

end Collection

/-! ## Collections of values -/

/-- In every collection, at every level, the keys are distinct. -/
inductive Value.DistinctKeys : Value → Prop
  | null : DistinctKeys .null
  | bool (b : Bool) : DistinctKeys (.bool b)
  | number (x : Float) : DistinctKeys (.number x)
  | str (s : String) : DistinctKeys (.str s)
  | collection {c : Collection Value} : c.keys.Nodup → (∀ e ∈ c.entries, DistinctKeys e.2) →
      DistinctKeys (.collection c)

namespace Collection

/-- The collections that the operations make out of the empty one, from values that have distinct
keys themselves. The entry under a key, null if it is new, may be changed in place. -/
inductive Obtainable : Collection Value → Prop
  | empty : Obtainable empty
  | insert {c : Collection Value} (k : Key) {v : Value} :
      Obtainable c → v.DistinctKeys → Obtainable (c.insert k v)
  | push {c : Collection Value} {v : Value} : Obtainable c → v.DistinctKeys → Obtainable (c.push v)
  | entry {c : Collection Value} (k : Key) {change : Value → Value} :
      Obtainable c → (∀ v, v.DistinctKeys → (change v).DistinctKeys) →
        Obtainable (c.insert k (change ((c.get? k).getD .null)))
  | append {c d : Collection Value} : Obtainable c → Obtainable d → Obtainable (c.append d)
  | difference {c d : Collection Value} (same : Value → Value → Bool) :
      Obtainable c → Obtainable d → Obtainable (c.difference same d)
  | slice {c : Collection Value} (start stop : Nat) : Obtainable c → Obtainable (c.slice start stop)
  | ofValues {vs : List Value} : (∀ v ∈ vs, v.DistinctKeys) → Obtainable (ofValues vs)
  | ofEntries {entries : List (Key × Value)} : (∀ e ∈ entries, e.2.DistinctKeys) →
      Obtainable (ofEntries entries)

/-- Whatever is obtainable is sound, by induction on the operations. -/
theorem Obtainable.sound {c : Collection Value} (h : c.Obtainable) :
    c.Sound Value.DistinctKeys := by
  induction h with
  | empty => exact sound_empty
  | insert k _ hv ih => exact ih.insert k hv
  | push _ hv ih => exact ih.push hv
  | @entry c k change _ hchange ih =>
    refine ih.insert k (hchange _ ?_)
    cases hget : c.get? k with
    | none => exact .null
    | some v => exact ih.of_get? hget
  | append _ _ ihc ihd => exact ihc.append ihd
  | difference same _ _ ih _ => exact ih.difference same _
  | slice start stop _ ih => exact ih.slice start stop
  | ofValues hvs => exact sound_ofValues hvs
  | ofEntries hentries => exact sound_ofEntries hentries

/-- **Keys are distinct, and pushing takes a new one.** Every obtainable collection has distinct
keys at every level. To any collection, pushing a value adds one entry at the end, under an index
that no entry has: zero if there is no index yet, one past the largest index but at least zero if
that is in range, and else the lowest index from zero on that is free. It is in range, as long as
there are not more entries than indices.

**Proof sketch.** Each operation writes under a key (`Sound.insert`), pushes (`Sound.push`) or
leaves entries out. The largest index bounds all others, so one past it is new; and of the indices
up to the number of entries one is free (`lowestFree_eq`). -/
theorem distinctKeys_and_push :
    (∀ c : Collection Value, c.Obtainable → (Value.collection c).DistinctKeys) ∧
      ∀ (c : Collection Value) (v : Value),
        ∃ n, (c.push v).entries = c.entries ++ [(.index n, v)] ∧ .index n ∉ c.keys ∧
          ((∀ m, .index m ∉ c.keys) → n = 0) ∧
          (∀ m, c.IsLargest m → m < Key.maxIndex → n = max (m + 1) 0) ∧
          (∀ m, c.IsLargest m → m = Key.maxIndex →
            0 ≤ n ∧ ∀ j, 0 ≤ j → j < n → .index j ∈ c.keys) ∧
          (c.size ≤ Key.maxIndex → n ≤ Key.maxIndex) := by
  refine ⟨fun c hc => .collection hc.sound.nodup hc.sound.entries, fun c v => ?_⟩
  refine ⟨c.nextIndex, rfl, nextIndex_notMem c, ?_, ?_, ?_, nextIndex_le c⟩
  · intro hnone
    rcases nextIndex_cases c with ⟨-, heq⟩ | ⟨m, ⟨hm, -⟩, -⟩
    · exact heq
    · exact absurd hm (hnone m)
  · intro m hm hlt
    rw [nextIndex, isLargest_iff.1 hm]
    exact if_pos hlt
  · intro m hm hmax
    obtain ⟨i, -, hlowest, -, htaken⟩ := lowestFree_eq c.indices
    have hnext : c.nextIndex = i := by
      rw [nextIndex, isLargest_iff.1 hm, ← hlowest]
      exact if_neg (by omega)
    rw [hnext]
    refine ⟨Int.natCast_nonneg i, fun j hj hji => mem_indices.1 ?_⟩
    obtain ⟨k, rfl⟩ := Int.eq_ofNat_of_zero_le hj
    exact htaken k (by omega)

/-- A collection in which the largest index and zero are taken, with another collection inside. -/
def crowded : Collection Value :=
  ((empty.insert (.index Key.maxIndex) (.collection (empty.push .null))).insert
    (.index (-3)) .null).insert (.index 0) (.bool true)

/-- The next value is pushed under the index one. -/
theorem distinctKeys_and_push_crowded :
    crowded.Obtainable ∧ (Value.collection crowded).DistinctKeys ∧ crowded.IsLargest Key.maxIndex ∧
      (crowded.push .null).entries = crowded.entries ++ [(.index 1, .null)] := by
  have hinner : (Value.collection (empty.push .null)).DistinctKeys :=
    distinctKeys_and_push.1 _ (.push .empty .null)
  have hcrowded : crowded.Obtainable :=
    .insert _ (.insert _ (.insert _ .empty hinner) .null) (.bool true)
  have hlargest : crowded.IsLargest Key.maxIndex := isLargest_iff.2 (by decide +kernel)
  obtain ⟨n, hpush, hnew, -, -, hlowest, -⟩ := distinctKeys_and_push.2 crowded .null
  obtain ⟨hpos, htaken⟩ := hlowest _ hlargest rfl
  have hzero : n ≠ 0 := by
    rintro rfl
    exact hnew (by decide +kernel)
  have hone : ¬1 < n := fun hlt => absurd (htaken 1 (by decide) hlt) (by decide +kernel)
  obtain rfl : n = 1 := by omega
  exact ⟨hcrowded, distinctKeys_and_push.1 _ hcrowded, hlargest, hpush⟩

end Collection

end LineScript
