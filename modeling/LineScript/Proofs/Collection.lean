import Mathlib.Data.List.Basic
import Mathlib.Data.List.Induction
import Mathlib.Data.List.Range
import LineScript.Collection

set_option relaxedAutoImplicit false
set_option autoImplicit false

/-!
# Collections gathered from their entries

A collection literal adds its items one after another: values without a name are numbered as they
come, and a new name goes to the end. So a collection whose indices are `0, 1, 2, …` in order is
gathered again from its own entries.

## Main definitions

* `LineScript.Collection.Numbered` — distinct keys, and indices from zero on in order.

## Main results

* `LineScript.Collection.nextIndex_of_indices` — the next index of a numbered collection is the
  number of its indices.
* `LineScript.Collection.gather_of_numbered` — a numbered collection is gathered from its entries.
-/

namespace LineScript

/-- A value under a new key is appended. -/
theorem Assoc.insert_of_notMem {κ α : Type} [DecidableEq κ] {k : κ} {entries : List (κ × α)}
    (h : k ∉ entries.map Prod.fst) (v : α) : insert k v entries = entries ++ [(k, v)] := by
  induction entries with
  | nil => rfl
  | cons e entries ih =>
    rw [List.map_cons, List.mem_cons, not_or] at h
    rw [insert, if_neg (Ne.symm h.1), ih h.2, List.cons_append]

namespace Collection

variable {α : Type}

/-- The keys are distinct, and the indices among them are `0, 1, 2, …` in order. -/
structure Numbered (c : Collection α) : Prop where
  indices : c.indices = (List.range c.indices.length).map Int.ofNat
  nodup : c.keys.Nodup

/-- The first `n` indices are the natural numbers below `n`. -/
theorem mem_map_range {i n : Nat} : (i : Int) ∈ (List.range n).map Int.ofNat ↔ i < n := by
  rw [List.mem_map]
  constructor
  · rintro ⟨j, hj, hij⟩
    have hlt := List.mem_range.1 hj
    simp only [Int.ofNat_eq_natCast] at hij
    omega
  · intro hi
    exact ⟨i, List.mem_range.2 hi, rfl⟩

/-- All of the first `n` indices are taken, but not the next one. -/
theorem lowestFree_range (n : Nat) : lowestFree ((List.range n).map Int.ofNat) = n := by
  have hfind : (List.range (((List.range n).map Int.ofNat).length + 1)).find?
      (fun i : Nat => !((List.range n).map Int.ofNat).contains (i : Int)) = some n := by
    have htaken : (List.range n).find?
        (fun i : Nat => !((List.range n).map Int.ofNat).contains (i : Int)) = none := by
      rw [List.find?_eq_none]
      intro i hi
      have hmem := mem_map_range.2 (List.mem_range.1 hi)
      simp [hmem, -List.mem_map]
    have hfree : (n : Int) ∉ (List.range n).map Int.ofNat := by
      rw [mem_map_range]
      omega
    rw [List.length_map, List.length_range, List.range_succ, List.find?_append, htaken]
    simp [hfree, -List.mem_map]
  rw [lowestFree, hfind]

/-- **The next index** after `0, …, n - 1` is `n`. -/
theorem nextIndex_of_indices {c : Collection α} {n : Nat}
    (h : c.indices = (List.range n).map Int.ofNat) : c.nextIndex = n := by
  cases n with
  | zero => simp [nextIndex, h]
  | succ n =>
    have hmax : c.indices.max? = some (n : Int) := by
      rw [h, List.max?_eq_some_iff]
      constructor
      · exact mem_map_range.2 (Nat.lt_succ_self n)
      · intro b hb
        obtain ⟨i, hi, rfl⟩ := List.mem_map.1 hb
        have hlt := List.mem_range.1 hi
        simp only [Int.ofNat_eq_natCast]
        omega
    rw [nextIndex, hmax]
    dsimp only
    split
    · omega
    · rw [h, lowestFree_range]

/-- The indices with one more entry at the end. -/
theorem indices_concat (es : List (Key × α)) (e : Key × α) :
    (⟨es ++ [e]⟩ : Collection α).indices = (⟨es⟩ : Collection α).indices ++
      match e.1 with
      | .index n => [n]
      | .name _ => [] := by
  obtain ⟨key, v⟩ := e
  cases key <;> simp [indices, keys]

/-- A numbered collection is one without its last entry, whose index or name is then new. -/
theorem Numbered.of_concat {es : List (Key × α)} {e : Key × α}
    (h : (⟨es ++ [e]⟩ : Collection α).Numbered) :
    (⟨es⟩ : Collection α).Numbered ∧ add ⟨es⟩ e = ⟨es ++ [e]⟩ := by
  obtain ⟨hindices, hnodup⟩ := h
  obtain ⟨key, v⟩ := e
  rw [indices_concat] at hindices
  have hkeys : ((⟨es⟩ : Collection α).keys ++ [key]).Nodup := by simpa [keys] using hnodup
  have hfront : (⟨es⟩ : Collection α).keys.Nodup := (List.nodup_append.1 hkeys).1
  cases key with
  | name s =>
    rw [List.append_nil] at hindices
    refine ⟨⟨hindices, hfront⟩, ?_⟩
    have hnew : Key.name s ∉ es.map Prod.fst := by
      intro hmem
      exact (List.nodup_append.1 hkeys).2.2 _ hmem _ List.mem_cons_self rfl
    rw [add, Collection.insert, Assoc.insert_of_notMem hnew]
  | index n =>
    rw [List.length_append, List.length_singleton, List.range_succ, List.map_append] at hindices
    obtain ⟨hbefore, hn⟩ := List.append_inj' hindices rfl
    obtain rfl : n = ((⟨es⟩ : Collection α).indices.length : Int) := by simpa using hn
    refine ⟨⟨hbefore, hfront⟩, ?_⟩
    rw [add, push, nextIndex_of_indices hbefore]

/-- **A numbered collection is gathered from its entries.** By induction from the last entry: each
is added where it stands. -/
theorem gather_of_numbered {c : Collection α} (h : c.Numbered) : gather c.entries = c := by
  obtain ⟨es⟩ := c
  induction es using List.reverseRecOn with
  | nil => rfl
  | append_singleton es e ih =>
    obtain ⟨hfront, hadd⟩ := h.of_concat
    have hgather : gather (es ++ [e]) = add (gather es) e := by
      rw [gather, List.foldl_append]
      rfl
    rw [hgather, ih hfront, hadd]

end Collection

end LineScript
