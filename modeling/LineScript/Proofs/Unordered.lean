import Mathlib.Data.List.Perm.Basic

set_option relaxedAutoImplicit false
set_option autoImplicit false

/-!
# Parts written in any order

A record is put together from parts, each of which writes one of its fields. Parts that write
different fields may change places, and a part that is written twice is written once. So what the
record becomes depends only on which parts there are.

## Main definitions

* `LineScript.Unordered` — parts whose order and number do not matter.

## Main results

* `LineScript.Unordered.foldl_eq` — the same parts, in any order and as often as one likes, give the
  same record.
-/

namespace LineScript

variable {σ α : Type} {put : σ → α → σ} {parts written : List α}

/-- Parts whose order and number do not matter to what they write. -/
structure Unordered (put : σ → α → σ) (parts : List α) : Prop where
  comm : ∀ x ∈ parts, ∀ y ∈ parts, ∀ s, put (put s x) y = put (put s y) x
  idem : ∀ x ∈ parts, ∀ s, put (put s x) x = put s x

namespace Unordered

/-- Fewer parts can be put in any order if more can. -/
theorem mono (h : Unordered put parts) (hsubset : written ⊆ parts) : Unordered put written :=
  ⟨fun x hx y hy => h.comm x (hsubset hx) y (hsubset hy), fun x hx => h.idem x (hsubset hx)⟩

/-- A part that is written later need not be written first. -/
theorem foldl_put_of_mem (h : Unordered put parts) {x : α} (hx : x ∈ parts) (s : σ) :
    parts.foldl put (put s x) = parts.foldl put s := by
  induction parts generalizing s with
  | nil => cases hx
  | cons y parts ih =>
    rw [List.foldl_cons, List.foldl_cons]
    rcases List.mem_cons.1 hx with rfl | hmem
    · rw [h.idem x hx]
    · rw [h.comm x hx y List.mem_cons_self]
      exact ih (h.mono (List.subset_cons_self y parts)) hmem (put s y)

/-- Parts that are all written later need not be written first. -/
theorem foldl_foldl_of_subset (h : Unordered put parts) (hsubset : written ⊆ parts) (s : σ) :
    parts.foldl put (written.foldl put s) = parts.foldl put s := by
  induction written generalizing s with
  | nil => rfl
  | cons x written ih =>
    rw [List.cons_subset] at hsubset
    rw [List.foldl_cons, ih hsubset.2, h.foldl_put_of_mem hsubset.1]

/-- **The same parts, in any order and as often as one likes**, write the same.

**Proof sketch.** Write both lists, one after the other. Whichever comes second makes the other one
needless, and the two may change places. -/
theorem foldl_eq (h : Unordered put parts) (hmem : ∀ x, x ∈ written ↔ x ∈ parts) (s : σ) :
    written.foldl put s = parts.foldl put s := by
  have hwritten : written ⊆ parts := fun x => (hmem x).1
  have hparts : parts ⊆ written := fun x => (hmem x).2
  have hall : written ++ parts ⊆ parts := List.append_subset.2 ⟨hwritten, List.Subset.refl parts⟩
  calc written.foldl put s = written.foldl put (parts.foldl put s) :=
        ((h.mono hwritten).foldl_foldl_of_subset hparts s).symm
    _ = (parts ++ written).foldl put s := List.foldl_append.symm
    _ = (written ++ parts).foldl put s := by
        refine List.perm_append_comm.foldl_eq' (fun x hx y hy s => ?_) s
        rw [List.mem_append, hmem, or_self] at hx hy
        exact h.comm x hx y hy s
    _ = parts.foldl put (written.foldl put s) := List.foldl_append
    _ = parts.foldl put s := h.foldl_foldl_of_subset hwritten s

end Unordered

end LineScript
