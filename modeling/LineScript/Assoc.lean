set_option relaxedAutoImplicit false
set_option autoImplicit false

/-!
# Association lists

Entries of collections, variables and parameter defaults are kept as lists of pairs in the order
in which their keys first appeared.

## Main definitions

* `LineScript.Assoc.get?` — the value under a key.
* `LineScript.Assoc.insert` — a value put under a key, in place or at the end.

## Main results

* `LineScript.Assoc.get?_insert_self`, `LineScript.Assoc.get?_insert_of_ne` — what a look-up finds
  after a write.
* `LineScript.Assoc.keys_insert` — a write appends at most its own key.
* `LineScript.Assoc.nodup_insert` — a write keeps the keys distinct.
-/

namespace LineScript.Assoc

variable {κ α : Type} [DecidableEq κ]

/-- The value under `k`. -/
def get? (k : κ) : List (κ × α) → Option α
  | [] => none
  | (k', v) :: rest => if k' = k then some v else get? k rest

/-- Whether there is a value under `k`. -/
def contains (k : κ) (entries : List (κ × α)) : Bool :=
  (get? k entries).isSome

/-- The list with `v` under `k`: in the place of the value that stood there, else at the end. -/
def insert (k : κ) (v : α) : List (κ × α) → List (κ × α)
  | [] => [(k, v)]
  | (k', v') :: rest => if k' = k then (k', v) :: rest else (k', v') :: insert k v rest

/-- The list of the pairs, each inserted in turn, so that of two pairs with one key the later one
gives the value. -/
def ofPairs (pairs : List (κ × α)) : List (κ × α) :=
  pairs.foldl (fun entries pair => insert pair.1 pair.2 entries) []

/-- What is put in under a key is found under it. -/
@[simp]
theorem get?_insert_self (k : κ) (v : α) (entries : List (κ × α)) :
    get? k (insert k v entries) = some v := by
  induction entries with
  | nil => simp [insert, get?]
  | cons e rest ih =>
    by_cases h : e.1 = k
    · simp [insert, get?, h]
    · simp [insert, get?, h, ih]

/-- Under any other key, the same is found as before. -/
theorem get?_insert_of_ne {k k' : κ} (h : k ≠ k') (v : α) (entries : List (κ × α)) :
    get? k' (insert k v entries) = get? k' entries := by
  induction entries with
  | nil => simp [insert, get?, h]
  | cons e rest ih =>
    by_cases hk : e.1 = k
    · simp [insert, get?, hk, h]
    · simp [insert, get?, hk, ih]

/-- Of two lists one after the other, the first is looked up first. -/
theorem get?_append (k : κ) (entries more : List (κ × α)) :
    get? k (entries ++ more) = (get? k entries).or (get? k more) := by
  induction entries with
  | nil => rfl
  | cons e rest ih =>
    by_cases hk : e.1 = k
    · simp [get?, hk]
    · simp [get?, hk, ih]

/-- A write keeps the keys in their order and appends its own key if it is new. -/
theorem keys_insert (k : κ) (v : α) (entries : List (κ × α)) :
    (insert k v entries).map Prod.fst =
      if contains k entries then entries.map Prod.fst else entries.map Prod.fst ++ [k] := by
  induction entries with
  | nil => simp [insert, contains, get?]
  | cons e rest ih =>
    by_cases hk : e.1 = k
    · simp [insert, contains, get?, hk]
    · simp only [contains] at ih
      by_cases hr : (get? k rest).isSome
      · simp [insert, contains, get?, hk, ih, hr]
      · simp [insert, contains, get?, hk, ih, hr]

/-- A key is in the list exactly if a look-up finds a value under it. -/
theorem mem_keys_iff (k : κ) (entries : List (κ × α)) :
    k ∈ entries.map Prod.fst ↔ contains k entries = true := by
  induction entries with
  | nil => simp [contains, get?]
  | cons e rest ih =>
    by_cases hk : e.1 = k
    · simp [contains, get?, hk]
    · simp only [contains] at ih
      simp [contains, get?, hk, Ne.symm hk, ← ih]

/-- A look-up finds nothing under a key that no entry has. -/
theorem get?_eq_none_of_notMem {k : κ} {entries : List (κ × α)}
    (h : k ∉ entries.map Prod.fst) : get? k entries = none := by
  rw [mem_keys_iff] at h
  simpa [contains] using h

/-- A write keeps the keys distinct. -/
theorem nodup_insert {entries : List (κ × α)} (h : (entries.map Prod.fst).Nodup) (k : κ) (v : α) :
    ((insert k v entries).map Prod.fst).Nodup := by
  rw [keys_insert]
  by_cases hk : contains k entries = true
  · rwa [if_pos hk]
  · rw [if_neg hk]
    rw [← mem_keys_iff] at hk
    exact List.nodup_append.2 ⟨h, by simp, fun a ha b hb => by
      obtain rfl := List.mem_singleton.1 hb
      exact fun hab => hk (hab ▸ ha)⟩

omit [DecidableEq κ] in
/-- Some of the entries have distinct keys if all of them do. -/
theorem nodup_filter {entries : List (κ × α)} (h : (entries.map Prod.fst).Nodup)
    (p : κ × α → Bool) : ((entries.filter p).map Prod.fst).Nodup :=
  h.sublist ((List.filter_sublist (p := p)).map Prod.fst)

end LineScript.Assoc
