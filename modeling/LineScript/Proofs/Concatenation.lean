import LineScript.Proofs.Collection
import LineScript.Proofs.Comparison
import LineScript.Proofs.DistinctKeys
import LineScript.Proofs.InPlace

set_option relaxedAutoImplicit false
set_option autoImplicit false

/-!
# Concatenation of collections

Two collections are concatenated by adding the entries of both, one after another, to an empty
collection. Names are written in place, so a name stands where it came first and has the value that
came last. Indices are numbered afresh, those of the left operand as well. So nothing is left of
gaps between indices or of their order, and all that counts is the order of the entries: this is why
concatenation is associative, and why slices can be put together again.

## Main definitions

* `LineScript.Collection.indexedValues` — the values under indices, in order.
* `LineScript.Collection.numbered` — entries with their indices numbered afresh.
* `LineScript.Collection.overwrite`, `LineScript.Collection.isNew` — what one operand does to the
  entries of the other.

## Main results

* `LineScript.Collection.gather_append_gather`, `LineScript.Collection.gather_gather_append` —
  entries that have been gathered before are gathered like the entries they came from.
* `LineScript.Collection.entries_append` — the entries of a concatenation.
* `LineScript.Collection.get?_append_name`, `LineScript.Collection.get?_append_index` — what is
  found in a concatenation.
* `LineScript.Collection.append_associative` — concatenation is associative and rejoins slices.
* `LineScript.Collection.append_renumbers` — what is left of the keys of the left operand.
-/

namespace LineScript

namespace Assoc

variable {κ α : Type} [DecidableEq κ] {k k' : κ} {entries : List (κ × α)}

/-- A write under a key that is there leaves what comes after it. -/
theorem insert_append_of_mem (h : k ∈ entries.map Prod.fst) (v : α) (more : List (κ × α)) :
    insert k v (entries ++ more) = insert k v entries ++ more := by
  induction entries with
  | nil => cases h
  | cons e rest ih =>
    by_cases hk : e.1 = k
    · simp [insert, hk]
    · have hrest : k ∈ rest.map Prod.fst := by simpa [Ne.symm hk] using h
      simp [insert, hk, ih hrest]

/-- Writes under different keys can be done in either order, if one of the keys is there: then it
does not matter which of them is new first. -/
theorem insert_comm_of_mem (h : k ∈ entries.map Prod.fst) (hne : k ≠ k') (v w : α) :
    insert k v (insert k' w entries) = insert k' w (insert k v entries) := by
  induction entries with
  | nil => cases h
  | cons e rest ih =>
    by_cases hk : e.1 = k
    · simp [insert, hk, hne]
    · have hrest : k ∈ rest.map Prod.fst := by simpa [Ne.symm hk] using h
      by_cases hk' : e.1 = k'
      · simp [insert, hk', Ne.symm hne]
      · simp [insert, hk, hk', ih hrest]

end Assoc

namespace Collection

variable {α : Type} {c : Collection α}

/-! ## Gathering twice -/

/-- One more entry is added last. -/
theorem gather_concat (entries : List (Key × α)) (e : Key × α) :
    gather (entries ++ [e]) = (gather entries).add e := by
  rw [gather, List.foldl_append]
  rfl

/-- Overwriting a value leaves the keys. -/
theorem keys_insert_of_mem {k : Key} (h : k ∈ c.keys) (v : α) : (c.insert k v).keys = c.keys := by
  unfold keys insert
  rw [Assoc.keys_insert, if_pos ((Assoc.mem_keys_iff k c.entries).1 h)]

/-- A key stays when an entry is added. -/
theorem mem_keys_add {k : Key} (h : k ∈ c.keys) (e : Key × α) : k ∈ (c.add e).keys := by
  obtain ⟨key, v⟩ := e
  cases key with
  | index n => exact List.mem_map.2 ((List.mem_map.1 h).imp fun e he =>
      ⟨List.mem_append_left _ he.1, he.2⟩)
  | name s =>
    change k ∈ (Assoc.insert (.name s) v c.entries).map Prod.fst
    rw [Assoc.keys_insert]
    split
    · exact h
    · exact List.mem_append_left _ h

/-- The next index is told by the keys. -/
theorem nextIndex_congr {d : Collection α} (h : c.keys = d.keys) : c.nextIndex = d.nextIndex := by
  unfold nextIndex indices
  rw [h]

/-- A value that is replaced in place may be replaced before or after another entry is added. -/
theorem add_insert {k : Key} (hk : k ∈ c.keys) {e : Key × α} (he : e.1 ≠ k) (v : α) :
    (c.add e).insert k v = (c.insert k v).add e := by
  obtain ⟨key, w⟩ := e
  cases key with
  | index n =>
    have hnext := nextIndex_congr (keys_insert_of_mem hk v)
    have hinsert := Assoc.insert_append_of_mem hk v [(Key.index c.nextIndex, w)]
    rw [add, add, push, push, hnext]
    exact congrArg Collection.mk hinsert
  | name s => exact congrArg Collection.mk (Assoc.insert_comm_of_mem hk (Ne.symm he) v w)

/-- Overwriting under a key that is there already may be done before or after adding entries with
other keys. -/
theorem foldl_add_insert {k : Key} {entries : List (Key × α)} (hk : k ∈ c.keys)
    (h : ∀ e ∈ entries, e.1 ≠ k) (v : α) :
    (entries.foldl add c).insert k v = entries.foldl add (c.insert k v) := by
  induction entries generalizing c with
  | nil => rfl
  | cons e entries ih =>
    obtain ⟨he, hentries⟩ := List.forall_mem_cons.1 h
    rw [List.foldl_cons, List.foldl_cons, ih (mem_keys_add hk e) hentries, add_insert hk he]

/-- A value may be written under a name before or after the entries are gathered, if they have
distinct keys: no later one of them takes its place.

**Proof sketch.** Induction on the entries. At the entry with the name, the value is overwritten at
once, and the entries after it, which have other keys, do not see the difference
(`foldl_add_insert`). An entry with another key belongs to those before. -/
theorem gather_append_insert {entries : List (Key × α)} (h : (entries.map Prod.fst).Nodup)
    (before : List (Key × α)) (s : String) (v : α) :
    gather (before ++ Assoc.insert (.name s) v entries) =
      (gather (before ++ entries)).insert (.name s) v := by
  induction entries generalizing before with
  | nil =>
    rw [Assoc.insert, List.append_nil]
    exact gather_concat before _
  | cons e rest ih =>
    obtain ⟨key, w⟩ := e
    rw [List.map_cons, List.nodup_cons] at h
    by_cases hkey : key = .name s
    · subst hkey
      have hmem : Key.name s ∈ ((gather before).insert (.name s) w).keys :=
        (Assoc.mem_keys_iff _ _).2 (by simp [Assoc.contains, insert])
      have hrest : ∀ e ∈ rest, e.1 ≠ .name s := by
        rintro e he heq
        exact h.1 (List.mem_map.2 ⟨e, he, heq⟩)
      -- no entry of `rest` has this name, so that a value may be inserted before or after them
      have hcollect : ∀ u, gather (before ++ (.name s, u) :: rest) =
          rest.foldl add ((gather before).insert (.name s) u) := fun u => by
        rw [gather, List.foldl_append]
        rfl
      have htwice : ((gather before).insert (.name s) w).insert (.name s) v =
          (gather before).insert (.name s) v :=
        congrArg Collection.mk (Assoc.insert_insert _ v w _)
      rw [Assoc.insert, if_pos rfl, hcollect, hcollect, foldl_add_insert hmem hrest, htwice]
    · have hmove := ih h.2 (before ++ [(key, w)])
      rw [List.append_assoc, List.append_assoc] at hmove
      rw [Assoc.insert, if_neg hkey]
      exact hmove

/-- **Entries that were gathered before**, after others: only their order counts, and the last value
of each name. By induction from the last of them. -/
theorem gather_append_gather (before entries : List (Key × α)) :
    gather (before ++ (gather entries).entries) = gather (before ++ entries) := by
  induction entries using List.reverseRecOn with
  | nil => rfl
  | append_singleton entries e ih =>
    obtain ⟨key, v⟩ := e
    rw [gather_concat, ← List.append_assoc, gather_concat, ← ih]
    cases key with
    | index n =>
      rw [add, entries_push, ← List.append_assoc, gather_concat]
      rfl
    | name s =>
      have hnodup : ((gather entries).entries.map Prod.fst).Nodup :=
        (sound_gather (P := fun _ => True) fun _ _ => trivial).nodup
      exact gather_append_insert hnodup before s v

/-- Entries that were gathered before, with others after them. -/
theorem gather_gather_append (entries after : List (Key × α)) :
    gather ((gather entries).entries ++ after) = gather (entries ++ after) := by
  have hagain : gather (gather entries).entries = gather entries := gather_append_gather [] entries
  rw [gather, List.foldl_append]
  change after.foldl add (gather (gather entries).entries) = _
  rw [hagain, gather, gather, List.foldl_append]

/-! ## Numbering -/

/-- The values under indices, in order. -/
def indexedValues (c : Collection α) : List α :=
  c.entries.filterMap fun
    | (.index _, v) => some v
    | (.name _, _) => none

/-- The entries with their indices numbered from `start` on. -/
def numbered (start : Nat) : List (Key × α) → List (Key × α)
  | [] => []
  | (.index _, v) :: rest => (.index start, v) :: numbered (start + 1) rest
  | (.name s, v) :: rest => (.name s, v) :: numbered start rest

/-- Numbering leaves the number of entries. -/
@[simp]
theorem length_numbered (start : Nat) (entries : List (Key × α)) :
    (numbered start entries).length = entries.length := by
  fun_induction numbered start entries with
  | case1 => rfl
  | case2 start n v rest ih => rw [List.length_cons, List.length_cons, ih]
  | case3 start s v rest ih => rw [List.length_cons, List.length_cons, ih]

/-- Numbering leaves the indexed values, and their order. -/
@[simp]
theorem indexedValues_numbered (start : Nat) (entries : List (Key × α)) :
    (⟨numbered start entries⟩ : Collection α).indexedValues =
      (⟨entries⟩ : Collection α).indexedValues := by
  fun_induction numbered start entries with
  | case1 => rfl
  | case2 start n v rest ih => exact congrArg (v :: ·) ih
  | case3 start s v rest ih => exact ih

/-- The indexed values of entries one after the other. -/
theorem indexedValues_append (entries more : List (Key × α)) :
    (⟨entries ++ more⟩ : Collection α).indexedValues =
      (⟨entries⟩ : Collection α).indexedValues ++ (⟨more⟩ : Collection α).indexedValues :=
  List.filterMap_append

/-- There are as many values under indices as there are indices. -/
theorem length_indexedValues (c : Collection α) : c.indexedValues.length = c.indices.length := by
  obtain ⟨entries⟩ := c
  induction entries with
  | nil => rfl
  | cons e rest ih =>
    obtain ⟨key, v⟩ := e
    cases key with
    | index n => exact congrArg Nat.succ ih
    | name s => exact ih

/-- Entries one after the other: the numbers of the later ones go on where those of the first ones
end. -/
theorem numbered_append (start : Nat) (entries more : List (Key × α)) :
    numbered start (entries ++ more) =
      numbered start entries ++
        numbered (start + (⟨entries⟩ : Collection α).indexedValues.length) more := by
  fun_induction numbered start entries with
  | case1 start => rfl
  | case2 start n v rest ih =>
    have hlength : (⟨(.index n, v) :: rest⟩ : Collection α).indexedValues.length =
        (⟨rest⟩ : Collection α).indexedValues.length + 1 := rfl
    rw [List.cons_append, List.cons_append, numbered, ih, hlength]
    congr 3
    omega
  | case3 start s v rest ih =>
    rw [List.cons_append, List.cons_append, numbered, ih]
    rfl

/-- The indices of numbered entries count up from `start`. -/
theorem indices_numbered (start : Nat) (entries : List (Key × α)) :
    (⟨numbered start entries⟩ : Collection α).indices =
      (List.range' start (⟨entries⟩ : Collection α).indexedValues.length).map Int.ofNat := by
  fun_induction numbered start entries with
  | case1 start => rfl
  | case2 start n v rest ih => exact congrArg ((start : Int) :: ·) ih
  | case3 start s v rest ih => exact ih

/-- After entries numbered from zero, the next index is their number. -/
theorem nextIndex_numbered (entries : List (Key × α)) :
    (⟨numbered 0 entries⟩ : Collection α).nextIndex =
      (⟨entries⟩ : Collection α).indexedValues.length := by
  refine nextIndex_of_indices ?_
  rw [indices_numbered, List.range_eq_range']

/-- Names keep their places when entries are numbered. -/
theorem insert_numbered (start : Nat) (s : String) (v : α) (entries : List (Key × α)) :
    Assoc.insert (.name s) v (numbered start entries) =
      numbered start (Assoc.insert (.name s) v entries) := by
  fun_induction numbered start entries with
  | case1 start => rfl
  | case2 start n w rest ih => simp [Assoc.insert, numbered, ih]
  | case3 start s' w rest ih =>
    by_cases hs : Key.name s' = .name s
    · simp [Assoc.insert, numbered, hs]
    · simp [Assoc.insert, numbered, hs, ih]

/-- A value that is pushed has the next number. -/
theorem add_numbered_index (entries : List (Key × α)) (n : Int) (v : α) :
    add ⟨numbered 0 entries⟩ (.index n, v) = ⟨numbered 0 (entries ++ [(.index n, v)])⟩ := by
  rw [add, push, nextIndex_numbered, numbered_append, Nat.zero_add]
  rfl

/-- A value under a name is written in place or goes to the end, and the numbers stay. -/
theorem add_numbered_name (entries : List (Key × α)) (s : String) (v : α) :
    add ⟨numbered 0 entries⟩ (.name s, v) = ⟨numbered 0 (Assoc.insert (.name s) v entries)⟩ := by
  rw [add, insert, insert_numbered]

/-- Each of the values under indices is found under its number. -/
theorem get?_numbered_index (start i : Nat) (entries : List (Key × α)) :
    (⟨numbered start entries⟩ : Collection α).get? (.index ((start + i : Nat) : Int)) =
      (⟨entries⟩ : Collection α).indexedValues[i]? := by
  fun_induction numbered start entries generalizing i with
  | case1 start => rfl
  | case2 start n v rest ih =>
    cases i with
    | zero => simp [get?, Assoc.get?, indexedValues]
    | succ i =>
      have hne : Key.index (start : Int) ≠ .index ((start + (i + 1) : Nat) : Int) := by
        simp only [ne_eq, Key.index.injEq]
        omega
      have hnext := ih i
      rw [Nat.add_right_comm] at hnext
      rw [get?, Assoc.get?, if_neg hne]
      exact hnext
  | case3 start s v rest ih =>
    have hne : Key.name s ≠ .index ((start + i : Nat) : Int) := by simp
    rw [get?, Assoc.get?, if_neg hne]
    exact ih i

/-- Names are found as before. -/
theorem get?_numbered_name (start : Nat) (s : String) (entries : List (Key × α)) :
    (⟨numbered start entries⟩ : Collection α).get? (.name s) =
      (⟨entries⟩ : Collection α).get? (.name s) := by
  fun_induction numbered start entries with
  | case1 start => rfl
  | case2 start n v rest ih => simpa [get?, Assoc.get?] using ih
  | case3 start s' v rest ih =>
    by_cases hs : Key.name s' = .name s
    · simp [get?, Assoc.get?, hs]
    · simpa [get?, Assoc.get?, hs] using ih

/-- **Entries with distinct keys** are gathered in their order, and only numbered afresh. -/
theorem gather_of_nodup {entries : List (Key × α)} (h : (entries.map Prod.fst).Nodup) :
    gather entries = ⟨numbered 0 entries⟩ := by
  induction entries using List.reverseRecOn with
  | nil => rfl
  | append_singleton entries e ih =>
    obtain ⟨key, v⟩ := e
    rw [List.map_append, List.nodup_append] at h
    obtain ⟨hentries, -, hdisjoint⟩ := h
    rw [gather_concat, ih hentries]
    cases key with
    | index n => exact add_numbered_index entries n v
    | name s =>
      have hnew : Key.name s ∉ entries.map Prod.fst := fun hmem =>
        hdisjoint _ hmem _ (by simp) rfl
      rw [add_numbered_name, Assoc.insert_of_notMem hnew]

/-- Keys of gathered entries are distinct, whatever those of the entries are. -/
theorem nodup_keys_gather (entries : List (Key × α)) : (gather entries).keys.Nodup :=
  (sound_gather (P := fun _ => True) fun _ _ => trivial).nodup

/-- Writing under a name does not touch the values under indices. -/
theorem indexedValues_insert_name (c : Collection α) (s : String) (v : α) :
    (c.insert (.name s) v).indexedValues = c.indexedValues := by
  obtain ⟨entries⟩ := c
  induction entries with
  | nil => rfl
  | cons e rest ih =>
    obtain ⟨key, w⟩ := e
    cases key with
    | index n => exact congrArg (w :: ·) ih
    | name s' =>
      by_cases hs : s' = s
      · simp [insert, Assoc.insert, indexedValues, hs]
      · simpa [insert, Assoc.insert, indexedValues, hs] using ih

/-- **Values under indices** are gathered in their order. -/
theorem indexedValues_gather (entries : List (Key × α)) :
    (gather entries).indexedValues = (⟨entries⟩ : Collection α).indexedValues := by
  induction entries using List.reverseRecOn with
  | nil => rfl
  | append_singleton entries e ih =>
    obtain ⟨key, v⟩ := e
    rw [gather_concat, indexedValues_append, ← ih]
    cases key with
    | index n => exact indexedValues_append _ _
    | name s =>
      rw [add, indexedValues_insert_name]
      exact (List.append_nil _).symm

/-- What is found under an index after entries have been gathered. -/
theorem get?_gather_index (entries : List (Key × α)) (i : Nat) :
    (gather entries).get? (.index i) = (⟨entries⟩ : Collection α).indexedValues[i]? := by
  have hnumbered : gather entries = ⟨numbered 0 (gather entries).entries⟩ := by
    rw [← gather_of_nodup (nodup_keys_gather entries)]
    exact (gather_append_gather [] entries).symm
  have hget := get?_numbered_index 0 i (gather entries).entries
  rw [Nat.zero_add, ← hnumbered] at hget
  exact hget.trans (congrArg (·[i]?) (indexedValues_gather entries))

/-! ## The entries of a concatenation -/

/-- An entry with the value that `b` has under its name, if it has one. -/
def overwrite (b : Collection α) : Key × α → Key × α
  | (.index n, v) => (.index n, v)
  | (.name s, v) => (.name s, (b.get? (.name s)).getD v)

/-- Whether an entry goes to the end when it is added to `a`: unless its name is there already. -/
def isNew (a : Collection α) : Key × α → Bool
  | (.index _, _) => true
  | (.name s, _) => !Assoc.contains (.name s) a.entries

/-- An entry keeps its key. -/
@[simp]
theorem fst_overwrite (b : Collection α) (e : Key × α) : (b.overwrite e).1 = e.1 := by
  obtain ⟨key, v⟩ := e
  cases key <;> rfl

/-- An empty collection overwrites nothing. -/
theorem overwrite_nil : overwrite (⟨[]⟩ : Collection α) = id := by
  funext e
  obtain ⟨key, v⟩ := e
  cases key <;> rfl

/-- Only an entry of the same name overwrites an entry. -/
theorem overwrite_concat_of_ne {entries : List (Key × α)} {e new : Key × α}
    (h : ∀ s, e.1 = .name s → new.1 ≠ .name s) :
    overwrite ⟨entries ++ [new]⟩ e = overwrite ⟨entries⟩ e := by
  obtain ⟨key, v⟩ := e
  cases key with
  | index n => rfl
  | name s =>
    have hne := h s rfl
    simp [overwrite, get?, Assoc.get?_append, Assoc.get?, hne]

/-- A value written in place is the one that an entry is overwritten with.

**Proof sketch.** Induction on the entries. The entry with the name is met once, as the keys are
distinct; there the new value is the one that the longer list of overwriting values gives. All other
entries see the same value for their keys in both lists. -/
theorem insert_map_overwrite {entries more : List (Key × α)} {s : String}
    (h : (entries.map Prod.fst).Nodup) (hmem : .name s ∈ entries.map Prod.fst)
    (hnew : .name s ∉ more.map Prod.fst) (v : α) :
    Assoc.insert (.name s) v (entries.map (overwrite ⟨more⟩)) =
      entries.map (overwrite ⟨more ++ [(.name s, v)]⟩) := by
  induction entries with
  | nil => cases hmem
  | cons e rest ih =>
    rw [List.map_cons, List.nodup_cons] at h
    by_cases hkey : e.1 = .name s
    · obtain ⟨key, w⟩ := e
      obtain rfl : key = .name s := hkey
      have hrest : rest.map (overwrite ⟨more⟩) = rest.map (overwrite ⟨more ++ [(.name s, v)]⟩) := by
        refine List.map_congr_left fun e he => (overwrite_concat_of_ne ?_).symm
        rintro s' he' ⟨⟩
        exact h.1 (List.mem_map.2 ⟨e, he, he'⟩)
      have hnone : Assoc.get? (.name s) more = none := Assoc.get?_eq_none_of_notMem hnew
      rw [List.map_cons, List.map_cons, ← hrest]
      simp [overwrite, Assoc.insert, get?, Assoc.get?_append, hnone, Assoc.get?]
    · have hrest : .name s ∈ rest.map Prod.fst := by simpa [Ne.symm hkey] using hmem
      have hhead : overwrite ⟨more ++ [(.name s, v)]⟩ e = overwrite ⟨more⟩ e := by
        refine overwrite_concat_of_ne ?_
        rintro s' he ⟨⟩
        exact hkey he
      rw [List.map_cons, List.map_cons, hhead, ← ih h.2 hrest, Assoc.insert,
        if_neg (by rw [fst_overwrite]; exact hkey)]

/-- By induction from the last entry of the right operand: it is numbered or new and goes to the
end, or it overwrites an entry of the left one. -/
theorem gather_append_of_nodup {a : Collection α} (ha : a.keys.Nodup) {more : List (Key × α)}
    (hmore : (more.map Prod.fst).Nodup) :
    gather (a.entries ++ more) =
      ⟨numbered 0 (a.entries.map (overwrite ⟨more⟩) ++ more.filter a.isNew)⟩ := by
  induction more using List.reverseRecOn with
  | nil =>
    rw [List.append_nil, List.filter_nil, List.append_nil, overwrite_nil, List.map_id]
    exact gather_of_nodup ha
  | append_singleton more e ih =>
    obtain ⟨key, v⟩ := e
    rw [List.map_append, List.nodup_append] at hmore
    obtain ⟨hfront, -, hdisjoint⟩ := hmore
    have hlast : key ∉ more.map Prod.fst := fun hmem => hdisjoint _ hmem _ (by simp) rfl
    rw [← List.append_assoc, gather_concat, ih hfront, List.filter_append]
    cases key with
    | index n =>
      have hkept : a.entries.map (overwrite ⟨more ++ [(.index n, v)]⟩) =
          a.entries.map (overwrite ⟨more⟩) :=
        List.map_congr_left fun e _ => overwrite_concat_of_ne (by simp)
      rw [hkept, add_numbered_index, List.append_assoc]
      rfl
    | name s =>
      rw [add_numbered_name]
      by_cases hs : Key.name s ∈ a.keys
      · have hold : a.isNew (.name s, v) = false := by
          simp [isNew, (Assoc.mem_keys_iff _ _).1 hs]
        have hmem : Key.name s ∈ (a.entries.map (overwrite ⟨more⟩)).map Prod.fst := by
          simpa [keys, Function.comp_def] using hs
        rw [Assoc.insert_append_of_mem hmem, insert_map_overwrite ha hs hlast]
        simp [hold]
      · have hnew : a.isNew (.name s, v) = true := by
          have hnone := mt (Assoc.mem_keys_iff _ _).2 hs
          simpa [isNew] using hnone
        have hkept : a.entries.map (overwrite ⟨more ++ [(.name s, v)]⟩) =
            a.entries.map (overwrite ⟨more⟩) := by
          refine List.map_congr_left fun e he => overwrite_concat_of_ne ?_
          rintro s' he' ⟨⟩
          exact hs (List.mem_map.2 ⟨e, he, he'⟩)
        have hnone : Key.name s ∉
            (a.entries.map (overwrite ⟨more⟩) ++ more.filter a.isNew).map Prod.fst := by
          rw [List.map_append, List.mem_append, not_or]
          constructor
          · simpa [keys, Function.comp_def] using hs
          · exact fun hmem => hlast ((List.filter_sublist.map Prod.fst).subset hmem)
        rw [Assoc.insert_of_notMem hnone, hkept]
        simp [hnew]

/-- **The entries of a concatenation**: those of the left operand, with the values that the right
one has under their names, and then those of the right operand that are new; the indices are
numbered from zero on. -/
theorem entries_append {a b : Collection α} (ha : a.keys.Nodup) (hb : b.keys.Nodup) :
    (a.append b).entries = numbered 0 (a.entries.map b.overwrite ++ b.entries.filter a.isNew) := by
  rw [append, gather_append_of_nodup ha hb]

/-- Values under an index are not overwritten. -/
theorem indexedValues_map_overwrite (a b : Collection α) :
    (⟨a.entries.map b.overwrite⟩ : Collection α).indexedValues = a.indexedValues := by
  unfold indexedValues
  rw [List.filterMap_map]
  refine List.filterMap_congr fun e _ => ?_
  obtain ⟨key, v⟩ := e
  cases key <;> rfl

/-- All indexed entries of `b` go to the end. -/
theorem indexedValues_filter_isNew (a b : Collection α) :
    (⟨b.entries.filter a.isNew⟩ : Collection α).indexedValues = b.indexedValues := by
  unfold indexedValues
  rw [List.filterMap_filter]
  refine List.filterMap_congr fun e _ => ?_
  obtain ⟨key, v⟩ := e
  cases key with
  | index n => rfl
  | name s => simp

/-- **A name** is found with the value of the right operand, or else with that of the left one.

**Proof sketch.** Induction on the right operand from its end. An index appends a new number and
touches no name; a name is written last, so it is found with its value, and any other name is found
as before. -/
theorem get?_append_name {a b : Collection α} (ha : a.keys.Nodup) (hb : b.keys.Nodup) (s : String) :
    (a.append b).get? (.name s) = (b.get? (.name s)).or (a.get? (.name s)) := by
  obtain ⟨more⟩ := b
  unfold append
  induction more using List.reverseRecOn with
  | nil =>
    rw [List.append_nil, gather_of_nodup ha, get?_numbered_name]
    rfl
  | append_singleton more e ih =>
    obtain ⟨key, v⟩ := e
    rw [keys, List.map_append, List.nodup_append] at hb
    obtain ⟨hfront, -, hdisjoint⟩ := hb
    have hbefore : (gather (a.entries ++ more)).get? (.name s) = _ := ih hfront
    rw [← List.append_assoc, gather_concat]
    cases key with
    | index n => simpa [add, get?, Assoc.get?_append, Assoc.get?] using hbefore
    | name s' =>
      by_cases hs : s' = s
      · subst hs
        have hnone : Assoc.get? (.name s') more = none :=
          Assoc.get?_eq_none_of_notMem fun hmem => hdisjoint _ hmem _ (by simp) rfl
        rw [add, get?_insert_self]
        simp [get?, Assoc.get?_append, hnone, Assoc.get?]
      · rw [add, get?_insert_of_ne _ (by simpa using hs), hbefore]
        simp [get?, Assoc.get?_append, Assoc.get?, hs]

/-- **An index** is found with the value that has its number, counted through both operands. -/
theorem get?_append_index (a b : Collection α) (i : Nat) :
    (a.append b).get? (.index i) = (a.indexedValues ++ b.indexedValues)[i]? := by
  rw [append, get?_gather_index, indexedValues_append]

/-- **Concatenation is associative and rejoins slices.** Concatenated either way, three collections
give the same entries, in the same order and under the same keys. The values under indices are those
of the left operand and then those of the right one. Of collections with distinct keys, a name
stands where it comes first, with the value that comes last: the entries of the left operand stay
where they are, with the values that the right one has under their names, and those of the right
operand follow, unless their name has been there already; the indices are numbered from zero on. And
a collection that is cut in two and put together again is the collection, numbered from zero on.

**Proof sketch.** All three are gathered from the same entries: gathering some of them beforehand
makes no difference (`gather_append_gather`, `gather_gather_append`), since it keeps the order and
only leaves out values that are overwritten anyway. -/
theorem append_associative :
    (∀ a b c : Collection α, (a.append b).append c = a.append (b.append c)) ∧
    (∀ a b : Collection α, (a.append b).indexedValues = a.indexedValues ++ b.indexedValues) ∧
    (∀ a b : Collection α, a.keys.Nodup → b.keys.Nodup → (a.append b).entries =
      numbered 0 (a.entries.map b.overwrite ++ b.entries.filter a.isNew)) ∧
    ∀ (c : Collection α) (k : Nat), (c.slice 0 k).append (c.slice k c.size) = c.slice 0 c.size := by
  refine ⟨fun a b c => ?_, fun a b => ?_, fun a b => entries_append, fun c k => ?_⟩
  · calc (a.append b).append c
        = gather (a.entries ++ b.entries ++ c.entries) := gather_gather_append _ _
      _ = gather (a.entries ++ (b.entries ++ c.entries)) := by rw [List.append_assoc]
      _ = a.append (b.append c) := (gather_append_gather _ _).symm
  · rw [append, indexedValues_gather, indexedValues_append]
  · have hentries : (c.entries.take k).drop 0 ++ (c.entries.take c.size).drop k = c.entries := by
      rw [size, List.take_length, List.drop_zero, List.take_append_drop]
    calc (c.slice 0 k).append (c.slice k c.size)
        = gather ((c.entries.take k).drop 0 ++ (c.entries.take c.size).drop k) := by
          rw [append, slice, slice, gather_append_gather, gather_gather_append]
      _ = c.slice 0 c.size := by
          rw [hentries, slice, size, List.take_length, List.drop_zero]

/-- A collection with a name between two indices that are neither in order nor without gaps. -/
def gappy : Collection Value :=
  ⟨[(.index 7, .str "x"), (.name "n", .str "y"), (.index (-2), .str "z")]⟩

/-- A collection with the same name and another one, and an index between them. -/
def overlay : Collection Value :=
  ⟨[(.name "m", .null), (.index 0, .bool true), (.name "n", .bool false)]⟩

/-- The name that both have is found where it was, with its new value. -/
theorem append_associative_gappy :
    gappy.keys.Nodup ∧ overlay.keys.Nodup ∧ (gappy.append overlay).entries =
      [(.index 0, .str "x"), (.name "n", .bool false), (.index 1, .str "z"), (.name "m", .null),
        (.index 2, .bool true)] := by
  have hgappy : gappy.keys.Nodup := by decide
  have hoverlay : overlay.keys.Nodup := by decide
  exact ⟨hgappy, hoverlay, append_associative.2.2.1 gappy overlay hgappy hoverlay⟩

/-! ## What is left of the keys of the left operand -/

/-- Whether a collection is numbered is told by its keys. -/
theorem numbered_congr {d : Collection α} (h : c.keys = d.keys) : c.Numbered ↔ d.Numbered := by
  have hindices : c.indices = d.indices := by rw [indices, indices, h]
  constructor
  · rintro ⟨hrange, hnodup⟩
    exact ⟨hindices ▸ hrange, h ▸ hnodup⟩
  · rintro ⟨hrange, hnodup⟩
    exact ⟨hindices ▸ hrange, h ▸ hnodup⟩

/-- The keys stay exactly if the indices are `0, 1, 2, …` in order before. -/
theorem keys_numbered_iff (hc : c.keys.Nodup) :
    (⟨numbered 0 c.entries⟩ : Collection α).keys = c.keys ↔ c.Numbered := by
  constructor
  · intro hkeys
    refine ⟨?_, hc⟩
    have hindices := indices_numbered 0 c.entries
    rw [← List.range_eq_range'] at hindices
    calc c.indices = (⟨numbered 0 c.entries⟩ : Collection α).indices := by
          rw [indices, indices, hkeys]
      _ = (List.range c.indices.length).map Int.ofNat := by
          rw [hindices, length_indexedValues]
  · intro hnumbered
    rw [← gather_of_nodup hc, gather_of_numbered hnumbered]

/-- The left operand of a concatenation comes first, with its indices numbered. -/
theorem isPrefix_keys_append_iff {a b : Collection α} (ha : a.keys.Nodup) (hb : b.keys.Nodup) :
    a.keys <+: (a.append b).keys ↔ a.Numbered := by
  let front : Collection α := ⟨a.entries.map b.overwrite⟩
  have hfront : front.keys = a.keys := by simp [front, keys, Function.comp_def]
  have hlength : (⟨numbered 0 front.entries⟩ : Collection α).keys.length = a.keys.length := by
    simp [front, keys]
  have happend : ∃ back,
      (a.append b).keys = (⟨numbered 0 front.entries⟩ : Collection α).keys ++ back := by
    rw [keys, entries_append ha hb, numbered_append, List.map_append]
    exact ⟨_, rfl⟩
  obtain ⟨back, hkeys⟩ := happend
  rw [hkeys, ← numbered_congr hfront, ← keys_numbered_iff (hfront ▸ ha), hfront]
  constructor
  · rintro ⟨rest, hrest⟩
    exact (List.append_inj_left hrest hlength.symm).symm
  · intro heq
    rw [heq]
    exact List.prefix_append _ _

/-- An entry of a numbered collection under an index is found under that index after concatenation.
-/
theorem get?_append_of_numbered {a b : Collection α} (ha : a.Numbered) {n : Int} {v : α}
    (hmem : (.index n, v) ∈ a.entries) : (a.append b).get? (.index n) = some v := by
  have hn : n ∈ a.indices := mem_indices.2 (List.mem_map.2 ⟨_, hmem, rfl⟩)
  rw [ha.indices] at hn
  obtain ⟨i, -, rfl⟩ := List.mem_map.1 hn
  have hfound : a.get? (.index i) = some v := Assoc.get?_of_mem ha.nodup hmem
  rw [← gather_of_numbered ha, get?_gather_index] at hfound
  obtain ⟨hlt, -⟩ := List.getElem?_eq_some_iff.1 hfound
  rw [Int.ofNat_eq_natCast, get?_append_index, List.getElem?_append_left hlt]
  exact hfound

/-- **Concatenation numbers the left operand as well.** Its named entries are found under their
names, unless the right operand has the name. Its values under indices come first, in order, and
those of the right operand after them, but all of them are numbered from zero on. So the keys of the
left operand stay exactly if its indices are `0, 1, 2, …` in order; only then is every entry of it
sure to be found under its key.

**Proof sketch.** The entries of both are gathered into an empty collection, which numbers whatever
has an index (`entries_append`). Numbering changes nothing only where the numbers are there already
(`keys_numbered_iff`). -/
theorem append_renumbers {a b : Collection α} (ha : a.keys.Nodup) (hb : b.keys.Nodup) :
    (∀ s v, (.name s, v) ∈ a.entries → .name s ∉ b.keys → (a.append b).get? (.name s) = some v) ∧
    (∀ i : Nat, (a.append b).get? (.index i) = (a.indexedValues ++ b.indexedValues)[i]?) ∧
    (∃ front back, (a.append b).entries = front ++ back ∧ front.length = a.size ∧
      (⟨front⟩ : Collection α).indexedValues = a.indexedValues ∧
      (⟨back⟩ : Collection α).indexedValues = b.indexedValues) ∧
    (a.keys <+: (a.append b).keys ↔ a.Numbered) ∧
    (a.Numbered → ∀ k v, (k, v) ∈ a.entries → (∀ s, k = .name s → k ∉ b.keys) →
      (a.append b).get? k = some v) := by
  have hname : ∀ s v, (.name s, v) ∈ a.entries → .name s ∉ b.keys →
      (a.append b).get? (.name s) = some v := by
    intro s v hmem hnew
    have hnone : b.get? (.name s) = none := Assoc.get?_eq_none_of_notMem hnew
    rw [get?_append_name ha hb, hnone, Option.none_or]
    exact Assoc.get?_of_mem ha hmem
  refine ⟨hname, get?_append_index a b, ?_, isPrefix_keys_append_iff ha hb, ?_⟩
  · refine ⟨_, _, (entries_append ha hb).trans (numbered_append _ _ _), ?_, ?_, ?_⟩
    · simp [size]
    · rw [indexedValues_numbered, indexedValues_map_overwrite]
    · rw [indexedValues_numbered, indexedValues_filter_isNew]
  · intro hnumbered k v hmem hnew
    cases k with
    | index n => exact get?_append_of_numbered hnumbered hmem
    | name s => exact hname s v hmem (hnew s rfl)

/-- In the concatenation, the value that was under the index seven is the first one. -/
theorem append_renumbers_gappy :
    gappy.keys.Nodup ∧ overlay.keys.Nodup ∧
      (gappy.append overlay).get? (.index 0) = some (.str "x") ∧
      (gappy.append overlay).get? (.index 2) = some (.bool true) := by
  have hgappy : gappy.keys.Nodup := by decide
  have hoverlay : overlay.keys.Nodup := by decide
  obtain ⟨-, hindex, -⟩ := append_renumbers hgappy hoverlay
  exact ⟨hgappy, hoverlay, hindex 0, hindex 2⟩

/-- **The left operand does not keep its indices**: after an empty collection has been appended to
it, nothing is found under the index seven any more. -/
theorem append_moves_index :
    gappy.keys.Nodup ∧ (.index 7, .str "x") ∈ gappy.entries ∧
      (gappy.append empty).get? (.index 7) = none :=
  ⟨by decide, List.mem_cons_self, rfl⟩

end Collection

end LineScript
