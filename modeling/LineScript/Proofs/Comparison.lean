import LineScript.Formula.Token
import LineScript.Proofs.DistinctKeys

set_option relaxedAutoImplicit false
set_option autoImplicit false

/-!
# Comparing values both ways

Loose order and loose equality are told by two tables over the kinds of their operands. Read from
right to left, the order is turned round and equality stays as it is. For collections this is a
matter of counting: equality looks up the entries of its left operand in the right one, and where
keys are distinct and there are equally many entries, none of the right operand is passed over.

The two tables do not always agree with each other. Both go by truth if one operand is null or a
boolean, but the order first sees to collections, which it puts above everything else. So `null` and
the empty collection are equal, and yet the one is less than the other.

## Main definitions

* `LineScript.Assoc.Partnered` — entries whose keys are found among other entries, with related
  values.
* `LineScript.Value.TruthBesideCollection` — the pairs on which the tables disagree.
* `LineScript.Operator.Holds` — an operator that gives `true`.

## Main results

* `LineScript.Value.looseCompare_swap` — the order, turned round.
* `LineScript.Assoc.Partnered.flip` — the counting argument.
* `LineScript.Value.looseEq_comm` — loose equality is symmetric.
* `LineScript.Value.loose_comparison_symmetric` — both together.
* `LineScript.Value.equal_and_ordered_iff`, `LineScript.Value.comparisons_exclude_each_other` —
  which values are equal and yet less or greater.
-/

namespace LineScript

/-! ## Numbers, texts and truth values -/

namespace Value

open Float.Model (UnpackedFloat)

/-- Numbers taken apart, compared the other way round. -/
theorem compare_unpacked_swap (x y : UnpackedFloat) :
    y.compare x = (x.compare y).map Ordering.swap := by
  cases x with
  | notANumber => cases y <;> rfl
  | infinity s =>
    cases y with
    | infinity s' => cases s <;> cases s' <;> rfl
    | _ => cases s <;> rfl
  | zero s =>
    cases y with
    | infinity s' => cases s' <;> rfl
    | finite s' m' e' hm' => cases s' <;> rfl
    | _ => rfl
  | finite s m e hm =>
    cases y with
    | notANumber => rfl
    | infinity s' => cases s' <;> rfl
    | zero s' => cases s <;> rfl
    | finite s' m' e' hm' =>
      -- of one sign, they compare by exponent and then by mantissa
      have hswap : (compare e' e).then (compare m' m) =
          ((compare e e').then (compare m m')).swap := by
        have he : compare e' e = (compare e e').swap := Std.OrientedCmp.eq_swap
        have hm : compare m' m = (compare m m').swap := Std.OrientedCmp.eq_swap
        rw [he, hm, Ordering.swap_then]
      cases s with
      | negative =>
        cases s' with
        | negative => exact congrArg (fun o => some o.swap) hswap
        | positive => rfl
      | positive =>
        cases s' with
        | negative => rfl
        | positive => exact congrArg some hswap

/-- The order of two numbers is that of what their encodings stand for. -/
theorem compareNumbers_eq (x y : Float) :
    compareNumbers x y = x.toModel.unpack.compare y.toModel.unpack := by
  have hlt : ∀ a b : Float, a < b ↔ a.toModel.unpack.compare b.toModel.unpack = some .lt :=
      fun a b => by
    change decide (a.toModel < b.toModel) = true ↔ _
    rw [decide_eq_true_iff]
    exact beq_iff_eq
  have heq : (x == y) = true ↔ x.toModel.unpack.compare y.toModel.unpack = some .eq := by
    change (x.toModel.unpack.compare y.toModel.unpack == some .eq) = true ↔ _
    exact beq_iff_eq
  unfold compareNumbers
  simp only [hlt, heq, compare_unpacked_swap x.toModel.unpack y.toModel.unpack]
  rcases x.toModel.unpack.compare y.toModel.unpack with _ | (_ | _ | _) <;> rfl

/-- **The order of numbers, turned round.** Two numbers that are not ordered are not ordered the
other way round. -/
theorem compareNumbers_swap (x y : Float) :
    compareNumbers y x = (compareNumbers x y).map Ordering.swap := by
  rw [compareNumbers_eq, compareNumbers_eq, compare_unpacked_swap]

/-- The order of texts, turned round. -/
theorem compareTexts_swap (a b : String) : compareTexts b a = (compareTexts a b).swap := by
  unfold compareTexts
  by_cases hlt : a < b
  · have hne : b ≠ a := by
      rintro rfl
      exact String.lt_irrefl b hlt
    rw [if_pos hlt, if_neg (String.lt_asymm hlt), if_neg hne]
    rfl
  · by_cases heq : a = b
    · subst heq
      rw [if_neg hlt, if_pos rfl]
      rfl
    · have hgt : b < a := by
        by_contra hnot
        exact heq (String.le_antisymm hnot hlt)
      rw [if_pos hgt, if_neg hlt, if_neg heq]
      rfl

/-- The order of truths, turned round. -/
theorem compareTruths_swap (a b : Bool) : compareTruths b a = (compareTruths a b).swap := by
  cases a <;> cases b <;> rfl

/-- The order of a string and a number, read from the left. -/
theorem looseCompare_str_number (s : String) (y : Float) :
    looseCompare (.str s) (.number y) =
      match numeral? (.str s) with
      | some x => compareNumbers x y
      | none => some (compareTexts s (numberText y)) := by
  change (compareNumberWithText y s).map Ordering.swap = _
  unfold compareNumberWithText
  cases numeral? (.str s) with
  | some x => exact (compareNumbers_swap y x).symm
  | none => exact congrArg some (compareTexts_swap (numberText y) s).symm

/-- Two strings compare as numbers only if both look like one. -/
theorem looseCompare_str_str_swap (s t : String) :
    looseCompare (.str t) (.str s) = (looseCompare (.str s) (.str t)).map Ordering.swap := by
  rw [looseCompare, looseCompare]
  rcases numeral? (.str s) with _ | x
  · rcases numeral? (.str t) with _ | y
    · exact congrArg some (compareTexts_swap s t)
    · exact congrArg some (compareTexts_swap s t)
  · rcases numeral? (.str t) with _ | y
    · exact congrArg some (compareTexts_swap s t)
    · exact compareNumbers_swap x y

/-- **The loose order, turned round.**

**Proof sketch.** By cases over both operands, as the rows of the comparison go. A collection is
greater than anything else, numbers and strings are compared with each other, and in all other rows
the truth values are compared. -/
theorem looseCompare_swap (a b : Value) :
    looseCompare b a = (looseCompare a b).map Ordering.swap := by
  cases a with
  | null =>
    cases b with
    | collection d => rfl
    | _ => exact congrArg some (compareTruths_swap _ _)
  | bool p =>
    cases b with
    | collection d => rfl
    | _ => exact congrArg some (compareTruths_swap _ _)
  | number x =>
    cases b with
    | number y => exact compareNumbers_swap x y
    | str s => rfl
    | collection d => rfl
    | _ => exact congrArg some (compareTruths_swap _ _)
  | str s =>
    cases b with
    | number y =>
      change compareNumberWithText y s =
        ((compareNumberWithText y s).map Ordering.swap).map Ordering.swap
      cases compareNumberWithText y s with
      | none => rfl
      | some o => exact congrArg some o.swap_swap.symm
    | str t => exact looseCompare_str_str_swap s t
    | collection d => rfl
    | _ => exact congrArg some (compareTruths_swap _ _)
  | collection c =>
    cases b with
    | collection d => exact congrArg some Std.OrientedCmp.eq_swap
    | _ => rfl

end Value

/-! ## Collections -/

namespace Assoc

variable {κ α β : Type} [DecidableEq κ]

/-- Where keys are distinct, every entry is found under its key. -/
theorem get?_of_mem {k : κ} {v : α} {entries : List (κ × α)} (h : (entries.map Prod.fst).Nodup)
    (hmem : (k, v) ∈ entries) : get? k entries = some v := by
  induction entries with
  | nil => cases hmem
  | cons first rest ih =>
    rw [List.map_cons, List.nodup_cons] at h
    rcases List.mem_cons.1 hmem with rfl | hmem
    · simp [get?]
    · have hne : first.1 ≠ k := by
        rintro rfl
        exact h.1 (List.mem_map.2 ⟨_, hmem, rfl⟩)
      rw [get?, if_neg hne, ih h.2 hmem]

/-- Every entry has a partner: under its key there is a value in `others` to which its own stands in
the relation `R`. -/
def Partnered (R : α → β → Prop) (entries : List (κ × α)) (others : List (κ × β)) : Prop :=
  ∀ e ∈ entries, ∃ w, get? e.1 others = some w ∧ R e.2 w

/-- **Partners are partners both ways** among equally many entries with distinct keys: partners of
different entries are different, so no entry on the other side is left without one. -/
theorem Partnered.flip {R : α → β → Prop} {entries : List (κ × α)} {others : List (κ × β)}
    (h : Partnered R entries others) (hentries : (entries.map Prod.fst).Nodup)
    (hothers : (others.map Prod.fst).Nodup) (hlength : entries.length = others.length) :
    Partnered (fun w v => R v w) others entries := by
  have hsubset : entries.map Prod.fst ⊆ others.map Prod.fst := by
    intro k hk
    obtain ⟨e, he, rfl⟩ := List.mem_map.1 hk
    obtain ⟨w, hw, -⟩ := h e he
    rw [mem_keys_iff, contains, hw]
    rfl
  have hperm : (entries.map Prod.fst).Perm (others.map Prod.fst) :=
    (List.subperm_of_subset hentries hsubset).perm_of_length_le (by simp [hlength])
  rintro ⟨k, w⟩ hw
  have hk : k ∈ entries.map Prod.fst := hperm.mem_iff.2 (List.mem_map_of_mem hw)
  obtain ⟨⟨k, v⟩, hv, rfl⟩ := List.mem_map.1 hk
  obtain ⟨w', hw', hR⟩ := h _ hv
  rw [get?_of_mem hothers hw] at hw'
  cases hw'
  exact ⟨v, get?_of_mem hentries hv, hR⟩

end Assoc

namespace Value

/-- Entries are loosely equal to a collection if each has its partner in it. -/
theorem entriesLooseEq_iff (entries : List (Key × Value)) (b : Collection Value) :
    entriesLooseEq entries b = true ↔
      Assoc.Partnered (fun v w => v.looseEq w = true) entries b.entries := by
  induction entries with
  | nil => simp [entriesLooseEq, Assoc.Partnered]
  | cons first rest ih =>
    obtain ⟨k, v⟩ := first
    rw [entriesLooseEq, Bool.and_eq_true, ih]
    simp only [Assoc.Partnered, List.forall_mem_cons, Collection.get?]
    cases Assoc.get? k b.entries <;> simp

/-- Two collections are equal if they have equally many entries, and each entry of the one has a
partner in the other. -/
theorem looseEq_collection_iff (c d : Collection Value) :
    looseEq (.collection c) (.collection d) = true ↔ c.entries.length = d.entries.length ∧
      Assoc.Partnered (fun v w => v.looseEq w = true) c.entries d.entries := by
  change (c.entries.length == d.size && entriesLooseEq c.entries d) = true ↔ _
  rw [Bool.and_eq_true, beq_iff_eq, entriesLooseEq_iff]
  rfl

/-- Collections with distinct keys are equal both ways, if their values are. -/
theorem looseEq_collection_of_comm {c d : Collection Value} (hc : c.keys.Nodup) (hd : d.keys.Nodup)
    (hcomm : ∀ e ∈ c.entries, ∀ e' ∈ d.entries, looseEq e.2 e'.2 = looseEq e'.2 e.2)
    (h : looseEq (.collection c) (.collection d) = true) :
    looseEq (.collection d) (.collection c) = true := by
  rw [looseEq_collection_iff] at h ⊢
  obtain ⟨hlength, hpartnered⟩ := h
  refine ⟨hlength.symm, fun e he => ?_⟩
  obtain ⟨v, hv, heq⟩ := hpartnered.flip hc hd hlength e he
  have hsame := hcomm (e.1, v) (Assoc.mem_of_get? hv) e he
  exact ⟨v, hv, hsame.symm.trans heq⟩

/-- **Loose equality is symmetric**, by induction on how deep collections nest. -/
theorem looseEq_comm {a b : Value} (ha : a.DistinctKeys) (hb : b.DistinctKeys) :
    looseEq a b = looseEq b a := by
  -- between numbers and strings, equality is what the order says
  have horder : ∀ u v : Value, (looseCompare u v == some .eq) = (looseCompare v u == some .eq) :=
    fun u v => by
      rw [looseCompare_swap u v]
      rcases looseCompare u v with _ | (_ | _ | _) <;> rfl
  induction ha generalizing b with
  | null => cases b <;> rfl
  | bool p =>
    cases b with
    | bool q => exact Bool.beq_comm
    | _ => rfl
  | number x =>
    cases b with
    | number y => exact horder _ _
    | str s => exact horder _ _
    | _ => rfl
  | str s =>
    cases b with
    | number y => exact horder _ _
    | str t => exact horder _ _
    | _ => rfl
  | @collection c hc hentries ih =>
    cases hb with
    | @collection d hd hothers =>
      have hcomm : ∀ e ∈ c.entries, ∀ e' ∈ d.entries, looseEq e.2 e'.2 = looseEq e'.2 e.2 :=
        fun e he e' he' => ih e he (hothers e' he')
      rw [Bool.eq_iff_iff]
      constructor
      · exact looseEq_collection_of_comm hc hd hcomm
      · exact looseEq_collection_of_comm hd hc fun e he e' he' => (hcomm e' he' e he).symm
    | _ => rfl

/-- **Loose comparison is symmetric.** Two values whose collections have distinct keys are equal
from left to right exactly if they are from right to left, and their order from right to left is the
one from left to right with less and greater exchanged. The order of a string and a number, too, is
read from the left, though it is defined by that of the number and the string.

**Proof sketch.** The orders of numbers, of texts and of truth values can be turned round
(`compareNumbers_swap`, `compareTexts_swap`, `compareTruths_swap`), so this is so for every row of
the table. Equality of collections is symmetric by counting (`Assoc.Partnered.flip`), with an
induction for their values. -/
theorem loose_comparison_symmetric {a b : Value} (ha : a.DistinctKeys) (hb : b.DistinctKeys) :
    looseEq a b = looseEq b a ∧ looseCompare b a = (looseCompare a b).map Ordering.swap ∧
      ∀ (s : String) (y : Float), looseCompare (.str s) (.number y) =
        match numeral? (.str s) with
        | some x => compareNumbers x y
        | none => some (compareTexts s (numberText y)) :=
  ⟨looseEq_comm ha hb, looseCompare_swap a b, looseCompare_str_number⟩

/-- A collection with another one inside. -/
def shelf : Value :=
  .collection ⟨[
    (.name "a", .collection ⟨[(.index 0, .str "x"), (.index 1, .null)]⟩),
    (.index 3, .bool true)]⟩

/-- The same keys in another order, with values that are loosely the same. -/
def otherShelf : Value :=
  .collection ⟨[
    (.index 3, .str "yes"),
    (.name "a", .collection ⟨[(.index 1, .str ""), (.index 0, .str "x")]⟩)]⟩

/-- The two are equal from left to right, and so they are from right to left. -/
theorem loose_comparison_symmetric_shelves :
    shelf.DistinctKeys ∧ otherShelf.DistinctKeys ∧ looseEq shelf otherShelf = true ∧
      looseEq otherShelf shelf = true ∧ looseCompare otherShelf shelf = some .eq := by
  have hshelf : shelf.DistinctKeys := by
    refine .collection (by decide) ?_
    simp only [List.forall_mem_cons]
    refine ⟨.collection (by decide) ?_, .bool true, by simp⟩
    simp only [List.forall_mem_cons]
    exact ⟨.str "x", .null, by simp⟩
  have hother : otherShelf.DistinctKeys := by
    refine .collection (by decide) ?_
    simp only [List.forall_mem_cons]
    refine ⟨.str "yes", .collection (by decide) ?_, by simp⟩
    simp only [List.forall_mem_cons]
    exact ⟨.str "", .str "x", by simp⟩
  have hequal : looseEq shelf otherShelf = true := by decide +kernel
  obtain ⟨hcomm, hswap, -⟩ := loose_comparison_symmetric hshelf hother
  exact ⟨hshelf, hother, hequal, hcomm ▸ hequal, hswap⟩

/-- With one key twice, equality depends on which operand is looked up in the other. -/
example :
    looseEq (.collection ⟨[(.index 0, .null), (.index 0, .null)]⟩)
        (.collection ⟨[(.index 0, .null), (.index 1, .null)]⟩) = true ∧
      looseEq (.collection ⟨[(.index 0, .null), (.index 1, .null)]⟩)
        (.collection ⟨[(.index 0, .null), (.index 0, .null)]⟩) = false := by
  decide +kernel

/-! ## Equality beside order -/

/-- Whether a value is null or a boolean, and so compares by truth. -/
def isTruth : Value → Bool
  | .null | .bool _ => true
  | _ => false

/-- Null or a boolean beside a collection of the same truth, in either order. -/
def TruthBesideCollection (a b : Value) : Prop :=
  a.truth = b.truth ∧
    ((a.isTruth = true ∧ b.kind = .collection) ∨ (a.kind = .collection ∧ b.isTruth = true))

/-- Whether truth stands beside a collection can be decided. -/
instance (a b : Value) : Decidable (TruthBesideCollection a b) :=
  inferInstanceAs (Decidable (_ ∧ _))

/-- Null and booleans are equal to whatever has the same truth. -/
theorem looseEq_of_isTruth {a b : Value} (h : a.isTruth = true ∨ b.isTruth = true) :
    looseEq a b = (a.truth == b.truth) := by
  -- the truth of the one beside a null on either side
  have hfalse : ∀ p : Bool, (!p) = (false == p) ∧ (!p) = (p == false) := by decide
  rcases h with h | h
  · cases a with
    | null =>
      cases b with
      | null => rfl
      | _ => exact (hfalse _).1
    | bool p =>
      cases b with
      | null => exact (hfalse p).2
      | _ => rfl
    | _ => cases h
  · cases b with
    | null =>
      cases a with
      | null => rfl
      | _ => exact (hfalse _).2
    | bool q =>
      cases a with
      | null => exact (hfalse q).1
      | bool p => rfl
      | _ => exact Bool.beq_comm
    | _ => cases h

/-- Null and booleans are ordered by truth, except against collections. -/
theorem looseCompare_of_isTruth {a b : Value} (h : a.isTruth = true ∨ b.isTruth = true)
    (ha : a.kind ≠ .collection) (hb : b.kind ≠ .collection) :
    looseCompare a b = some (compareTruths a.truth b.truth) := by
  cases a with
  | collection c => exact absurd rfl ha
  | null =>
    cases b with
    | collection d => exact absurd rfl hb
    | _ => rfl
  | bool p =>
    cases b with
    | collection d => exact absurd rfl hb
    | _ => rfl
  | number x =>
    cases b with
    | collection d => exact absurd rfl hb
    | null => rfl
    | bool q => rfl
    | _ => rcases h with h | h <;> cases h
  | str s =>
    cases b with
    | collection d => exact absurd rfl hb
    | null => rfl
    | bool q => rfl
    | _ => rcases h with h | h <;> cases h

/-- Numbers, strings and collections that are equal are neither less nor greater. -/
theorem looseCompare_of_looseEq {a b : Value} (ha : a.isTruth = false) (hb : b.isTruth = false)
    (h : looseEq a b = true) : looseCompare a b = some .eq := by
  cases a with
  | null => cases ha
  | bool p => cases ha
  | collection c =>
    cases b with
    | collection d =>
      have hlength := ((looseEq_collection_iff c d).1 h).1
      exact congrArg some (Nat.compare_eq_eq.2 hlength)
    | null => cases hb
    | bool q => cases hb
    | _ => cases h
  | _ =>
    cases b with
    | null => cases hb
    | bool q => cases hb
    | collection d => cases h
    | _ => exact beq_iff_eq.1 h

/-- A collection is neither null nor a boolean. -/
theorem isTruth_of_kind {v : Value} (h : v.kind = .collection) : v.isTruth = false := by
  cases v with
  | collection c => rfl
  | _ => cases h

/-- A collection is greater than null and the booleans. -/
theorem looseCompare_of_kind {a b : Value} (ha : a.isTruth = true) (hb : b.kind = .collection) :
    looseCompare a b = some .lt := by
  cases b with
  | collection d =>
    cases a with
    | collection c => cases ha
    | _ => rfl
  | _ => cases hb

/-- **What is equal is neither less nor greater**, except for null or a boolean beside a collection
of the same truth: equality goes by truth there, but the order puts the collection above. -/
theorem equal_and_ordered_iff (a b : Value) :
    (looseEq a b = true ∧ (looseCompare a b = some .lt ∨ looseCompare a b = some .gt)) ↔
      TruthBesideCollection a b := by
  constructor
  · rintro ⟨heq, hcompare⟩
    by_cases htruth : a.isTruth = true ∨ b.isTruth = true
    · have hsame : a.truth = b.truth := by
        rw [looseEq_of_isTruth htruth] at heq
        exact beq_iff_eq.1 heq
      refine ⟨hsame, ?_⟩
      by_cases ha : a.kind = .collection
      · exact .inr ⟨ha, htruth.resolve_left (by simp [isTruth_of_kind ha])⟩
      · by_cases hb : b.kind = .collection
        · exact .inl ⟨htruth.resolve_right (by simp [isTruth_of_kind hb]), hb⟩
        · rw [looseCompare_of_isTruth htruth ha hb, hsame] at hcompare
          cases hq : b.truth <;> simp [hq, compareTruths] at hcompare
    · simp only [not_or, Bool.not_eq_true] at htruth
      rw [looseCompare_of_looseEq htruth.1 htruth.2 heq] at hcompare
      rcases hcompare with h | h <;> cases h
  · rintro ⟨hsame, ⟨ha, hb⟩ | ⟨ha, hb⟩⟩
    · exact ⟨by simp [looseEq_of_isTruth (.inl ha), hsame], .inl (looseCompare_of_kind ha hb)⟩
    · refine ⟨by simp [looseEq_of_isTruth (.inr hb), hsame], .inr ?_⟩
      rw [looseCompare_swap b a, looseCompare_of_kind hb ha]
      rfl

end Value

namespace Operator

/-- The operator gives `true` for the two values. -/
def Holds (op : Operator) (a b : Value) : Prop :=
  op.apply a b = .ok (.bool true)

/-- `==` holds for loosely equal values. -/
theorem holds_eq_iff (a b : Value) : eq.Holds a b ↔ a.looseEq b = true := by
  simp [Holds, apply]

/-- `<` holds for values in ascending order. -/
theorem holds_lt_iff (a b : Value) : lt.Holds a b ↔ a.looseCompare b = some .lt := by
  simp [Holds, apply]

/-- `>` holds for values in descending order. -/
theorem holds_gt_iff (a b : Value) : gt.Holds a b ↔ a.looseCompare b = some .gt := by
  simp [Holds, apply]

end Operator

namespace Value

/-- **Less, equal and greater exclude each other** for any two values, unless one of them is a
collection and the other is null or a boolean of the same truth. On exactly these pairs, equality
goes together with one of the other two.

**Proof sketch.** Null and booleans are equal to what has their truth (`looseEq_of_isTruth`), and
against anything but collections their order says the same (`looseCompare_of_isTruth`). Equality of
numbers and strings is read off their order, and equal collections have equally many entries
(`looseCompare_of_looseEq`). -/
theorem comparisons_exclude_each_other (a b : Value) :
    ((¬(Operator.lt.Holds a b ∧ Operator.eq.Holds a b) ∧
        ¬(Operator.eq.Holds a b ∧ Operator.gt.Holds a b) ∧
          ¬(Operator.lt.Holds a b ∧ Operator.gt.Holds a b)) ↔ ¬TruthBesideCollection a b) ∧
      ((looseEq a b = true ∧ (looseCompare a b = some .lt ∨ looseCompare a b = some .gt)) ↔
        TruthBesideCollection a b) := by
  have hordered := equal_and_ordered_iff a b
  have hboth : ¬(Operator.lt.Holds a b ∧ Operator.gt.Holds a b) := by
    rw [Operator.holds_lt_iff, Operator.holds_gt_iff]
    rintro ⟨hlt, hgt⟩
    cases hlt.symm.trans hgt
  refine ⟨?_, hordered⟩
  rw [← hordered, ← Operator.holds_eq_iff, ← Operator.holds_lt_iff, ← Operator.holds_gt_iff]
  constructor
  · rintro ⟨hless, hgreater, -⟩ ⟨heq, hlt | hgt⟩
    · exact hless ⟨hlt, heq⟩
    · exact hgreater ⟨heq, hgt⟩
  · intro hnot
    refine ⟨?_, ?_, hboth⟩
    · rintro ⟨hlt, heq⟩
      exact hnot ⟨heq, .inl hlt⟩
    · rintro ⟨heq, hgt⟩
      exact hnot ⟨heq, .inr hgt⟩

/-- Null is equal to the empty collection, and at the same time it is less. -/
theorem equal_and_less_null_empty :
    Operator.eq.Holds .null (.collection .empty) ∧ Operator.lt.Holds .null (.collection .empty) :=
  ⟨rfl, rfl⟩

end Value

end LineScript
