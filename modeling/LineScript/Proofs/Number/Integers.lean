import Mathlib
import LineScript.Number.Decimal

set_option relaxedAutoImplicit false
set_option autoImplicit false

/-!
# Exact integers

Integers of at most 53 bits are numbers, and arithmetic on them is exact: their sums, negatives and
absolute values are the numbers of the integer results, they compare as the integers do, decimal
digits denote them, and truncation gives counts back.

## Main definitions

* `LineScript.Number.IsExact` — the integers of at most 53 bits.
* `LineScript.Number.unpacked` — the canonical form of such an integer.

## Main results

* `LineScript.Number.unpack_ofInt` — the number of an integer, taken apart.
* `LineScript.Number.ofInt_add`, `LineScript.Number.neg_ofInt`, `LineScript.Number.abs_ofInt` —
  arithmetic on integers is exact.
* `LineScript.Number.ofInt_lt`, `LineScript.Number.ofInt_le`, `LineScript.Number.ofInt_beq` — so are
  comparisons.
* `LineScript.Number.ofDigits_toDigits` — decimal digits denote their integer.
* `LineScript.Number.truncate_ofNat` — truncation gives a count back.
-/

namespace LineScript.Number

open Float.Model (Format UnpackedFloat totalExponent)
open Float.Model.UnpackedFloat

/-! ## Canonical forms -/

/-- Whether an integer has at most 53 bits. -/
def IsExact (n : Int) : Prop :=
  n.natAbs < 2 ^ 53

/-- Whether an integer has at most 53 bits can be decided. -/
instance (n : Int) : Decidable (IsExact n) :=
  inferInstanceAs (Decidable (_ < _))

/-- How far a positive number has to be moved to the left to fill 53 bits. -/
def padding (m : Nat) : Nat :=
  52 - m.log2

/-- A positive number stays positive when it is moved to the left. -/
theorem scaled_pos {m : Nat} (hm : 0 < m) (j : Nat) : 0 < m * 2 ^ j :=
  Nat.mul_pos hm (Nat.two_pow_pos j)

/-- The canonical form of a positive number with a sign. -/
def unpackedNat (sign : Sign) (m : Nat) (hm : 0 < m) : UnpackedFloat :=
  .finite sign (m * 2 ^ padding m) (-(padding m : Int)) (scaled_pos hm _)

/-- The sign of an integer, for which zero is positive. -/
def signOf (n : Int) : Sign :=
  if n < 0 then .negative else .positive

/-- The canonical form of an integer. -/
def unpacked (n : Int) : UnpackedFloat :=
  if h : n = 0 then .zero .positive else unpackedNat (signOf n) n.natAbs (Int.natAbs_pos.2 h)

/-- Moving a number to the left by `j` places makes it `j` bits longer. -/
theorem log2_scaled {m : Nat} (hm : 0 < m) (j : Nat) : (m * 2 ^ j).log2 = m.log2 + j := by
  induction j with
  | zero => rw [Nat.pow_zero, Nat.mul_one, Nat.add_zero]
  | succ j ih =>
    have hne : m * 2 ^ j ≠ 0 := (scaled_pos hm j).ne'
    rw [Nat.pow_succ, ← Nat.mul_assoc, Nat.mul_comm _ 2, Nat.log2_two_mul hne, ih]
    rfl

variable {m : Nat}

/-- The leading bit of a number of at most 53 bits is among the 53 lowest ones. -/
theorem log2_le (hm : 0 < m) (h : m < 2 ^ 53) : m.log2 ≤ 52 :=
  Nat.le_of_lt_succ ((Nat.log2_lt hm.ne').2 h)

/-- A number that is moved to the left by its padding has exactly 53 bits. -/
theorem log2_padded (hm : 0 < m) (h : m < 2 ^ 53) : (m * 2 ^ padding m).log2 = 52 := by
  have hle := log2_le hm h
  rw [log2_scaled hm, padding]
  omega

/-- The bounds of a number with exactly 53 bits. -/
theorem padded_bounds (hm : 0 < m) (h : m < 2 ^ 53) :
    2 ^ 52 ≤ m * 2 ^ padding m ∧ m * 2 ^ padding m < 2 ^ 53 :=
  (Nat.log2_eq_iff (scaled_pos hm _).ne').1 (log2_padded hm h)

/-! ## Rounding -/

/-- The exponent that a number is brought to does not depend on how it is written. -/
theorem targetExponent_scaled (hm : 0 < m) (h : m < 2 ^ 53) (j : Nat) :
    Format.binary64.targetExponent (totalExponent (m * 2 ^ j) (-(j : Int))) =
      -(padding m : Int) := by
  have hle := log2_le hm h
  simp only [Format.targetExponent, totalExponent, log2_scaled hm, Format.mantissaBits,
    Format.minExponent, padding]
  omega

/-- Zeros that are shifted out leave nothing behind. -/
theorem shiftRight_scaled (m j : Nat) :
    (⟨m * 2 ^ j, false, false⟩ : ExtendedMantissa) >>> j = ⟨m, false, false⟩ := by
  change Nat.repeat ExtendedMantissa.shiftRightOne j _ = _
  induction j generalizing m with
  | zero => rw [Nat.pow_zero, Nat.mul_one, Nat.repeat]
  | succ j ih =>
    have hscaled : m * 2 ^ (j + 1) = (m * 2) * 2 ^ j := by
      rw [Nat.pow_succ, Nat.mul_assoc, Nat.mul_comm 2]
    rw [Nat.repeat, hscaled, ih]
    simp [ExtendedMantissa.shiftRightOne]

/-- A number with enough zeros after it is brought to its canonical exponent by shifting out zeros
alone: nothing is rounded. -/
theorem shiftToTargetExponent_scaled (hm : 0 < m) (h : m < 2 ^ 53) {j : Nat} (hj : padding m ≤ j) :
    shiftToTargetExponent Format.binary64 (m * 2 ^ j) (-(j : Int)) .exact =
      (⟨m * 2 ^ padding m, false, false⟩, -(padding m : Int)) := by
  have hshift : (-(padding m : Int) - -(j : Int)).toNat = j - padding m := by omega
  have hexponent : -(j : Int) + ((j - padding m : Nat) : Int) = -(padding m : Int) := by omega
  have hsplit : m * 2 ^ j = m * 2 ^ padding m * 2 ^ (j - padding m) := by
    rw [Nat.mul_assoc, ← Nat.pow_add, Nat.add_sub_cancel' hj]
  simp only [shiftToTargetExponent, targetExponent_scaled hm h, shiftToExponent, hshift, hexponent,
    ExtendedMantissa.ofMantissaAndAccuracy]
  rw [hsplit, shiftRight_scaled]

/-- **Rounding is exact** on a number of at most 53 bits, however many zeros follow them. -/
theorem roundWithAccuracy_scaled (sign : Sign) (hm : 0 < m) (h : m < 2 ^ 53) {j : Nat}
    (hj : padding m ≤ j) :
    roundWithAccuracy Format.binary64 sign (m * 2 ^ j) (-(j : Int)) .exact =
      unpackedNat sign m hm := by
  have hfirst := shiftToTargetExponent_scaled hm h hj
  have hsecond := shiftToTargetExponent_scaled hm h (Nat.le_refl (padding m))
  simp only [roundWithAccuracy, hfirst, ExtendedMantissa.roundedMantissa, ExtendedMantissa.accuracy,
    Accuracy.roundToNearestEven, hsecond]
  exact dif_neg (scaled_pos hm _).ne'

/-- **Rounding is exact** on a number of at most 53 bits, also if zeros have to be appended. -/
theorem round_scaled (sign : Sign) (hm : 0 < m) (h : m < 2 ^ 53) (j : Nat) :
    UnpackedFloat.round Format.binary64 sign (m * 2 ^ j) (-(j : Int)) = unpackedNat sign m hm := by
  have hshift : (-(j : Int) - -(padding m : Int)).toNat = padding m - j := by omega
  have hexponent : -(j : Int) - ((padding m - j : Nat) : Int) =
      -((j + (padding m - j) : Nat) : Int) := by
    omega
  simp only [UnpackedFloat.round, targetExponent_scaled hm h, decreaseExponent, hshift, hexponent,
    Nat.shiftLeft_eq]
  rw [Nat.mul_assoc, ← Nat.pow_add]
  exact roundWithAccuracy_scaled sign hm h (by omega)

/-- The canonical form of a positive integer. -/
theorem unpacked_natCast (hm : 0 < m) : unpacked m = unpackedNat .positive m hm := by
  have hne : (m : Int) ≠ 0 := by omega
  have hsign : signOf m = .positive := if_neg (by omega)
  rw [unpacked, dif_neg hne, hsign]
  rfl

/-- The canonical form of a negative integer. -/
theorem unpacked_neg_natCast (hm : 0 < m) : unpacked (-m) = unpackedNat .negative m hm := by
  have hne : (-m : Int) ≠ 0 := by omega
  have hsign : signOf (-m) = .negative := if_pos (by omega)
  have habs : (-m : Int).natAbs = m := by omega
  rw [unpacked, dif_neg hne, hsign]
  simp only [habs]

/-- The canonical form of zero is positive zero. -/
theorem unpacked_zero : unpacked 0 = .zero .positive := rfl

/-- A natural number is exact below 2^53. -/
theorem isExact_natCast : IsExact m ↔ m < 2 ^ 53 := Iff.rfl

/-- An integer has as many bits as its negative. -/
theorem isExact_neg {n : Int} : IsExact (-n) ↔ IsExact n := by
  rw [IsExact, Int.natAbs_neg, IsExact]

/-- An integer is zero, or a positive number with a sign. -/
theorem eq_zero_or_natCast (n : Int) :
    n = 0 ∨ (∃ m : Nat, 0 < m ∧ n = m) ∨ ∃ m : Nat, 0 < m ∧ n = -m := by
  rcases Int.lt_trichotomy n 0 with hneg | hzero | hpos
  · exact .inr (.inr ⟨n.natAbs, by omega, by omega⟩)
  · exact .inl hzero
  · exact .inr (.inl ⟨n.natAbs, by omega, by omega⟩)

/-- **An integer is brought to its canonical form**, with whatever power of two it is written. -/
theorem normalize_scaled {n : Int} (h : IsExact n) (j : Nat) :
    UnpackedFloat.normalize Format.binary64 (n * 2 ^ j) (-(j : Int)) .positive = unpacked n := by
  obtain rfl | ⟨m, hm, rfl⟩ | ⟨m, hm, rfl⟩ := eq_zero_or_natCast n
  · rw [zero_mul]
    rfl
  · have hscaled : (m : Int) * 2 ^ j = ((m * 2 ^ j : Nat) : Int) := by push_cast; rfl
    have hcompare : compare ((m * 2 ^ j : Nat) : Int) 0 = .gt :=
      compare_gt_iff_gt.2 (Int.natCast_pos.2 (scaled_pos hm j))
    rw [hscaled, UnpackedFloat.normalize, hcompare, unpacked_natCast hm]
    exact round_scaled .positive hm h j
  · have hscaled : -(m : Int) * 2 ^ j = -((m * 2 ^ j : Nat) : Int) := by
      rw [neg_mul]
      push_cast
      rfl
    have hcompare : compare (-((m * 2 ^ j : Nat) : Int)) 0 = .lt :=
      compare_lt_iff_lt.2 (Int.neg_neg_of_pos (Int.natCast_pos.2 (scaled_pos hm j)))
    rw [isExact_neg, isExact_natCast] at h
    rw [hscaled, UnpackedFloat.normalize, hcompare, unpacked_neg_natCast hm, Int.neg_neg]
    exact round_scaled .negative hm h j

/-! ## Packing -/

/-- The sign bit is the first one. -/
theorem unpackSign_packComponents (sign : Sign) (exponent : BitVec 11) (mantissa : BitVec 52) :
    unpackSign (packComponents Format.binary64 sign exponent mantissa) = sign.toBitVec := by
  change (sign.toBitVec ++ exponent ++ mantissa).extractLsb' 63 1 = _
  rw [BitVec.extractLsb'_append_eq_of_le (by decide),
    BitVec.extractLsb'_append_eq_of_le (by decide)]
  cases sign <;> rfl

/-- A sign comes back from its bit. -/
theorem ofBitVec_toBitVec (sign : Sign) : Sign.ofBitVec sign.toBitVec = sign := by
  cases sign <;> rfl

/-- The leading bit, which is not packed, comes back. -/
theorem toNat_leading_append {k : Nat} (hlow : 2 ^ 52 ≤ k) (hhigh : k < 2 ^ 53) :
    (1#1 ++ BitVec.ofNat 52 k).toNat = k := by
  have hrest : k % 2 ^ 52 = k - 2 ^ 52 := by
    rw [Nat.mod_eq_sub_mod hlow, Nat.mod_eq_of_lt (by omega)]
  rw [BitVec.toNat_append, BitVec.toNat_ofNat k, hrest, ← Nat.shiftLeft_add_eq_or_of_lt (by omega),
    Nat.shiftLeft_eq]
  change 1 * 2 ^ 52 + (k - 2 ^ 52) = k
  omega

/-- The encoding of a canonical form. -/
theorem pack_unpackedNat (sign : Sign) (hm : 0 < m) (h : m < 2 ^ 53) :
    pack Format.binary64 (unpackedNat sign m hm) =
      packComponents Format.binary64 sign (BitVec.ofNat 11 (1075 - padding m))
        (BitVec.ofNat 52 (m * 2 ^ padding m)) := by
  have hpadding : padding m ≤ 52 := Nat.sub_le _ _
  -- 1075 is the bias of the exponent and the 52 bits that are packed
  have hbiased : (-(padding m : Int) + Format.binary64.exponentBias + (52 : Nat)).toNat =
      1075 - padding m := by
    change (-(padding m : Int) + (1023 : Nat) + (52 : Nat)).toNat = _
    omega
  have hfits : ¬ 2 ^ 11 ≤ 1075 - padding m + 1 := by omega
  simp only [pack, unpackedNat, log2_padded hm h, hbiased]
  rw [if_neg hfits]
  exact if_pos rfl

/-- A canonical form is kept when it is packed. -/
theorem unpack_pack_unpackedNat (sign : Sign) (hm : 0 < m) (h : m < 2 ^ 53) :
    unpack Format.binary64 (pack Format.binary64 (unpackedNat sign m hm)) =
      unpackedNat sign m hm := by
  obtain ⟨hlow, hhigh⟩ := padded_bounds hm h
  have hpadding : padding m ≤ 52 := Nat.sub_le _ _
  have hexponent : (BitVec.ofNat 11 (1075 - padding m)).toNat = 1075 - padding m := by
    rw [BitVec.toNat_ofNat, Nat.mod_eq_of_lt (by omega)]
  have hfinite : BitVec.ofNat 11 (1075 - padding m) ≠ -1#11 := fun heq => by
    have hnat := congrArg BitVec.toNat heq
    rw [hexponent] at hnat
    change 1075 - padding m = 2047 at hnat
    omega
  have hnormal : BitVec.ofNat 11 (1075 - padding m) ≠ 0#11 := fun heq => by
    have hnat := congrArg BitVec.toNat heq
    rw [hexponent] at hnat
    change 1075 - padding m = 0 at hnat
    omega
  have hunbiased : ((1075 - padding m : Nat) : Int) - (Format.binary64.exponentBias + (52 : Nat)) =
      -(padding m : Int) := by
    change ((1075 - padding m : Nat) : Int) - ((1023 : Nat) + (52 : Nat)) = _
    omega
  rw [pack_unpackedNat sign hm h]
  simp only [unpack, unpackMantissa_packComponents, unpackExponent_packComponents,
    unpackSign_packComponents, ofBitVec_toBitVec, if_neg hfinite, if_neg hnormal, hexponent,
    toNat_leading_append hlow hhigh, hunbiased, unpackedNat]

/-- **Packing is exact** on integers of at most 53 bits. -/
theorem unpack_pack_unpacked {n : Int} (h : IsExact n) :
    (Float.Model.pack (unpacked n)).unpack = unpacked n := by
  obtain rfl | ⟨m, hm, rfl⟩ | ⟨m, hm, rfl⟩ := eq_zero_or_natCast n
  · rfl
  · rw [unpacked_natCast hm]
    exact unpack_pack_unpackedNat .positive hm h
  · rw [isExact_neg, isExact_natCast] at h
    rw [unpacked_neg_natCast hm]
    exact unpack_pack_unpackedNat .negative hm h

/-! ## The numbers of integers -/

/-- The unit by which digits are multiplied. -/
theorem unpack_one : (Float.ofBits 0x3FF0000000000000).toModel.unpack =
    .finite .positive (1 * 2 ^ 52) (-(52 : Nat)) (by decide) := by
  rfl

/-- An integer times one is that integer: rounding the product brings it back to its canonical form.
-/
theorem mul_one_unpacked (h : m < 2 ^ 53) :
    UnpackedFloat.mul Format.binary64 (unpacked m)
      (.finite .positive (1 * 2 ^ 52) (-(52 : Nat)) (by decide)) = unpacked m := by
  rcases Nat.eq_zero_or_pos m with rfl | hm
  · rfl
  · have hmantissa : m * 2 ^ padding m * (1 * 2 ^ 52) = m * 2 ^ (padding m + 52) := by
      rw [Nat.one_mul, Nat.mul_assoc, ← Nat.pow_add]
    have hexponent : -(padding m : Int) + -((52 : Nat) : Int) =
        -((padding m + 52 : Nat) : Int) := by
      omega
    rw [unpacked_natCast hm]
    change roundWithAccuracy Format.binary64 .positive _ (-(padding m : Int) + -((52 : Nat) : Int))
      .exact = _
    rw [hmantissa, hexponent]
    exact roundWithAccuracy_scaled .positive hm h (by omega)

/-- The negative of a canonical form, but for zero, whose negative has another form. -/
theorem neg_unpacked {n : Int} (hn : n ≠ 0) : (unpacked n).neg = unpacked (-n) := by
  obtain rfl | ⟨m, hm, rfl⟩ | ⟨m, hm, rfl⟩ := eq_zero_or_natCast n
  · exact absurd rfl hn
  · rw [unpacked_natCast hm, unpacked_neg_natCast hm]
    rfl
  · rw [unpacked_neg_natCast hm, Int.neg_neg, unpacked_natCast hm]
    rfl

/-- The absolute value of a canonical form. -/
theorem abs_unpacked (n : Int) : (unpacked n).abs = unpacked n.natAbs := by
  obtain rfl | ⟨m, hm, rfl⟩ | ⟨m, hm, rfl⟩ := eq_zero_or_natCast n
  · rfl
  · rw [unpacked_natCast hm, Int.natAbs_natCast, unpacked_natCast hm]
    rfl
  · rw [unpacked_neg_natCast hm, Int.natAbs_neg, Int.natAbs_natCast, unpacked_natCast hm]
    rfl

/-- The number of a natural number. The literal is read as a machine word, which is normalized,
times one. -/
theorem ofNat_eq (h : m < 2 ^ 53) : Float.ofNat m = .ofModel (.pack (unpacked m)) := by
  have hword : m.toUInt64.toNat = m := by
    rw [Nat.toUInt64_eq, UInt64.toNat_ofNat', Nat.mod_eq_of_lt (by omega)]
  have hfloat : m.toUInt64.toFloat = .ofModel (.pack (unpacked m)) := by
    have hnormal := normalize_scaled (n := m) h 0
    rw [Int.pow_zero, Int.mul_one] at hnormal
    change Float.ofModel
      (.pack (UnpackedFloat.normalize Format.binary64 (m.toUInt64.toNat : Int) 0 .positive)) = _
    rw [hword]
    exact congrArg (fun u => Float.ofModel (.pack u)) hnormal
  -- without decimal places, an integer is read as a word times one
  have hscientific : Float.ofNat m = m.toUInt64.toFloat * Float.ofBits 0x3FF0000000000000 := by
    change Float.ofScientific m false 0 = _
    rw [Float.ofScientific, dif_pos ⟨h, Nat.zero_le _⟩]
    rfl
  rw [hscientific, hfloat]
  change Float.ofModel (.pack (UnpackedFloat.mul Format.binary64
    (Float.Model.pack (unpacked m)).unpack (Float.ofBits 0x3FF0000000000000).toModel.unpack)) = _
  rw [unpack_pack_unpacked (n := m) h, unpack_one, mul_one_unpacked h]

/-- **The number of an integer.** -/
theorem ofInt_eq {n : Int} (h : IsExact n) : ofInt n = .ofModel (.pack (unpacked n)) := by
  cases n with
  | ofNat k => exact ofNat_eq h
  | negSucc k =>
    have hk : k + 1 < 2 ^ 53 := h
    have hne : ((k + 1 : Nat) : Int) ≠ 0 := by omega
    change Float.neg (Float.ofNat (k + 1)) = _
    rw [ofNat_eq hk]
    change Float.ofModel (.pack (Float.Model.pack (unpacked ((k + 1 : Nat) : Int))).unpack.neg) = _
    rw [unpack_pack_unpacked (n := ((k + 1 : Nat) : Int)) hk, neg_unpacked hne]
    rfl

/-- **The number of an integer, taken apart**, is its canonical form. -/
theorem unpack_ofInt {n : Int} (h : IsExact n) : (ofInt n).toModel.unpack = unpacked n := by
  rw [ofInt_eq h]
  exact unpack_pack_unpacked h

/-! ## Arithmetic -/

/-- A sign and an absolute value make up the integer, also times a natural number. -/
theorem signOf_apply (n : Int) (k : Nat) :
    (signOf n).apply ((n.natAbs * k : Nat) : Int) = n * k := by
  unfold signOf
  split
  · change -((n.natAbs * k : Nat) : Int) = n * k
    rw [Int.natCast_mul, ← neg_mul]
    congr 1
    omega
  · change ((n.natAbs * k : Nat) : Int) = n * k
    rw [Int.natCast_mul]
    congr 1
    omega

/-- The mantissa of a canonical form, at a smaller exponent. -/
theorem decreaseExponent_padded {j : Nat} (hj : padding m ≤ j) :
    (decreaseExponent (m * 2 ^ padding m) (-(padding m : Int)) (-(j : Int))).1 = m * 2 ^ j := by
  have hshift : (-(padding m : Int) - -(j : Int)).toNat = j - padding m := by omega
  rw [decreaseExponent, hshift, Nat.shiftLeft_eq, Nat.mul_assoc, ← Nat.pow_add,
    Nat.add_sub_cancel' hj]

/-- The sum of canonical forms is that of the sum. Zero is a case of its own, as it has no exponent.
-/
theorem add_unpacked {a b : Int} (h : IsExact (a + b)) :
    UnpackedFloat.add Format.binary64 (unpacked a) (unpacked b) = unpacked (a + b) := by
  by_cases ha : a = 0
  · subst ha
    rw [Int.zero_add, unpacked_zero]
    unfold unpacked
    split <;> rfl
  by_cases hb : b = 0
  · subst hb
    rw [Int.add_zero, unpacked_zero]
    unfold unpacked
    split <;> rfl
  -- both mantissas are brought to the smaller exponent, where they are the integers times one power
  -- of two
  obtain ⟨j, hj⟩ : ∃ j : Nat, j = max (padding a.natAbs) (padding b.natAbs) := ⟨_, rfl⟩
  have hexponent : min (-(padding a.natAbs : Int)) (-(padding b.natAbs : Int)) = -(j : Int) := by
    omega
  have hpow : ((2 ^ j : Nat) : Int) = 2 ^ j := by push_cast; rfl
  rw [unpacked, dif_neg ha, unpacked, dif_neg hb, unpackedNat, unpackedNat]
  simp only [UnpackedFloat.add, hexponent]
  rw [decreaseExponent_padded (by omega), decreaseExponent_padded (by omega), signOf_apply,
    signOf_apply, ← add_mul, hpow]
  exact normalize_scaled h j

/-- **Sums are exact.** -/
theorem ofInt_add {a b : Int} (ha : IsExact a) (hb : IsExact b) (h : IsExact (a + b)) :
    ofInt a + ofInt b = ofInt (a + b) := by
  change Float.ofModel (.pack (UnpackedFloat.add Format.binary64 (ofInt a).toModel.unpack
    (ofInt b).toModel.unpack)) = _
  rw [unpack_ofInt ha, unpack_ofInt hb, add_unpacked h, ofInt_eq h]

/-- **Negatives are exact**, but for the negative of zero. -/
theorem neg_ofInt {n : Int} (h : IsExact n) (hn : n ≠ 0) : -ofInt n = ofInt (-n) := by
  change Float.ofModel (.pack (ofInt n).toModel.unpack.neg) = _
  rw [unpack_ofInt h, neg_unpacked hn, ofInt_eq (isExact_neg.2 h)]

/-- **Absolute values are exact.** -/
theorem abs_ofInt {n : Int} (h : IsExact n) : (ofInt n).abs = ofInt n.natAbs := by
  change Float.ofModel (.pack (ofInt n).toModel.unpack.abs) = _
  rw [unpack_ofInt h, abs_unpacked, ofInt_eq (isExact_natCast.2 h)]

/-! ## Comparisons -/

/-- Canonical forms of positive numbers compare like the numbers: one with more bits is larger. -/
theorem compare_padded {k : Nat} (hm : 0 < m) (hk : 0 < k) (h : m < 2 ^ 53) (h' : k < 2 ^ 53) :
    (compare (-(padding m : Int)) (-(padding k : Int))).then
      (compare (m * 2 ^ padding m) (k * 2 ^ padding k)) = compare m k := by
  have hle := log2_le hm h
  have hle' := log2_le hk h'
  have hlarger : ∀ {i j : Nat}, 0 < i → 0 < j → i.log2 < j.log2 → i < j := fun {i j} hi hj hlt =>
    Nat.lt_of_lt_of_le ((Nat.log2_lt hi.ne').1 hlt) (Nat.log2_self_le hj.ne')
  rcases Nat.lt_trichotomy m.log2 k.log2 with hlt | heq | hgt
  · have hexponent : compare (-(padding m : Int)) (-(padding k : Int)) = .lt :=
      compare_lt_iff_lt.2 (by unfold padding; omega)
    rw [hexponent, compare_lt_iff_lt.2 (hlarger hm hk hlt)]
    rfl
  · have hpadding : padding m = padding k := by rw [padding, padding, heq]
    have hexponent : compare (-(padding k : Int)) (-(padding k : Int)) = .eq :=
      compare_eq_iff_eq.2 rfl
    rw [hpadding, hexponent]
    change compare (m * 2 ^ padding k) (k * 2 ^ padding k) = _
    have hpos := Nat.two_pow_pos (padding k)
    rcases Nat.lt_trichotomy m k with hmk | rfl | hmk
    · rw [compare_lt_iff_lt.2 hmk, compare_lt_iff_lt.2 (Nat.mul_lt_mul_of_pos_right hmk hpos)]
    · rw [compare_eq_iff_eq.2 rfl, compare_eq_iff_eq.2 rfl]
    · rw [compare_gt_iff_gt.2 hmk, compare_gt_iff_gt.2 (Nat.mul_lt_mul_of_pos_right hmk hpos)]
  · have hexponent : compare (-(padding m : Int)) (-(padding k : Int)) = .gt :=
      compare_gt_iff_gt.2 (by unfold padding; omega)
    rw [hexponent, compare_gt_iff_gt.2 (hlarger hk hm hgt)]
    rfl

/-- Natural numbers compare like the integers that they are. -/
theorem compare_natCast (m k : Nat) : compare (m : Int) k = compare m k := by
  rcases Nat.lt_trichotomy m k with hlt | rfl | hgt
  · rw [compare_lt_iff_lt.2 hlt, compare_lt_iff_lt.2 (Int.ofNat_lt.2 hlt)]
  · rw [compare_eq_iff_eq.2 rfl, compare_eq_iff_eq.2 rfl]
  · rw [compare_gt_iff_gt.2 hgt, compare_gt_iff_gt.2 (Int.ofNat_lt.2 hgt)]

/-- Negatives compare the other way round. -/
theorem compare_neg_natCast (m k : Nat) : compare (-(m : Int)) (-k) = (compare m k).swap := by
  rcases Nat.lt_trichotomy m k with hlt | rfl | hgt
  · rw [compare_lt_iff_lt.2 hlt, compare_gt_iff_gt.2 (by omega)]
    rfl
  · rw [compare_eq_iff_eq.2 rfl, compare_eq_iff_eq.2 rfl]
    rfl
  · rw [compare_gt_iff_gt.2 hgt, compare_lt_iff_lt.2 (by omega)]
    rfl

/-- **Canonical forms compare like the integers.** -/
theorem compare_unpacked {a b : Int} (ha : IsExact a) (hb : IsExact b) :
    (unpacked a).compare (unpacked b) = some (compare a b) := by
  obtain rfl | ⟨m, hm, rfl⟩ | ⟨m, hm, rfl⟩ := eq_zero_or_natCast a
  · obtain rfl | ⟨k, hk, rfl⟩ | ⟨k, hk, rfl⟩ := eq_zero_or_natCast b
    · rfl
    · rw [unpacked_zero, unpacked_natCast hk, compare_lt_iff_lt.2 (by omega)]
      rfl
    · rw [unpacked_zero, unpacked_neg_natCast hk, compare_gt_iff_gt.2 (by omega)]
      rfl
  · obtain rfl | ⟨k, hk, rfl⟩ | ⟨k, hk, rfl⟩ := eq_zero_or_natCast b
    · rw [unpacked_zero, unpacked_natCast hm, compare_gt_iff_gt.2 (by omega)]
      rfl
    · rw [unpacked_natCast hm, unpacked_natCast hk, compare_natCast, ← compare_padded hm hk ha hb]
      rfl
    · rw [unpacked_natCast hm, unpacked_neg_natCast hk, compare_gt_iff_gt.2 (by omega)]
      rfl
  · rw [isExact_neg, isExact_natCast] at ha
    obtain rfl | ⟨k, hk, rfl⟩ | ⟨k, hk, rfl⟩ := eq_zero_or_natCast b
    · rw [unpacked_zero, unpacked_neg_natCast hm, compare_lt_iff_lt.2 (by omega)]
      rfl
    · rw [unpacked_neg_natCast hm, unpacked_natCast hk, compare_lt_iff_lt.2 (by omega)]
      rfl
    · rw [isExact_neg, isExact_natCast] at hb
      rw [unpacked_neg_natCast hm, unpacked_neg_natCast hk, compare_neg_natCast,
        ← compare_padded hm hk ha hb]
      rfl

section Comparison

variable {a b : Int} (ha : IsExact a) (hb : IsExact b)
include ha hb

/-- **Numbers of integers are ordered like the integers.** -/
theorem ofInt_lt : ofInt a < ofInt b ↔ a < b := by
  change decide ((ofInt a).toModel < (ofInt b).toModel) = true ↔ _
  rw [decide_eq_true_iff]
  change ((ofInt a).toModel.unpack.compare (ofInt b).toModel.unpack == some .lt) = true ↔ _
  rw [unpack_ofInt ha, unpack_ofInt hb, compare_unpacked ha hb, beq_iff_eq, Option.some.injEq,
    compare_lt_iff_lt]

/-- Numbers of integers are ordered like the integers, where equality counts. -/
theorem ofInt_le : ofInt a ≤ ofInt b ↔ a ≤ b := by
  change decide ((ofInt a).toModel ≤ (ofInt b).toModel) = true ↔ _
  rw [decide_eq_true_iff]
  change ((ofInt a).toModel.unpack.compare (ofInt b).toModel.unpack).any (·.isLE) = true ↔ _
  rw [unpack_ofInt ha, unpack_ofInt hb, compare_unpacked ha hb]
  exact Ordering.isLE_iff_ne_gt.trans (compare_gt_iff_gt.not.trans not_lt)

/-- Numbers of integers are equal only if the integers are. -/
theorem ofInt_beq : (ofInt a == ofInt b) = true ↔ a = b := by
  change ((ofInt a).toModel.unpack.compare (ofInt b).toModel.unpack == some .eq) = true ↔ _
  rw [unpack_ofInt ha, unpack_ofInt hb, compare_unpacked ha hb, beq_iff_eq, Option.some.injEq,
    compare_eq_iff_eq]

end Comparison

/-- The number of an integer is a number. -/
theorem isNaN_ofInt {n : Int} (h : IsExact n) : (ofInt n).isNaN = false := by
  change (ofInt n).toModel.unpack.isNaN = false
  rw [unpack_ofInt h, unpacked]
  split <;> rfl

/-- The literal for zero. -/
theorem ofInt_zero : (0.0 : Float) = ofInt 0 := by
  rfl

/-! ## Decimal digits -/

/-- **Decimal digits denote their integer.** -/
theorem ofDigits_toDigits (h : m < 2 ^ 53) : ofDigits (Nat.toDigits 10 m) [] = ofInt m := by
  have hvalue : digitsValue (Nat.toDigits 10 m ++ []) = m := by
    rw [List.append_nil]
    exact Nat.ofDigitChars_ten_toDigits
  have hcount : digitCount m ≤ 16 :=
    (Nat.length_toDigits_le_iff (by decide) (by decide)).2 (Nat.lt_trans h (by decide))
  rw [ofDigits, hvalue, ofDecimal]
  rcases Nat.eq_zero_or_pos m with rfl | hm
  · rfl
  · have hsmall : ¬ (decide (m = 0) ||
        decide (-(([] : List Char).length : Int) + digitCount m < -400)) =
        true := by
      simp only [List.length_nil, Bool.or_eq_true, decide_eq_true_eq]
      omega
    have hlarge : ¬ 310 < -(([] : List Char).length : Int) + digitCount m := by
      simp only [List.length_nil]
      omega
    rw [if_neg hsmall, if_neg hlarge]
    rfl

/-! ## Truncation -/

/-- The powers of two in the definition of truncation are powers of two. -/
theorem twoPow_eq (n : Nat) : twoPow n = 2 ^ n := rfl

/-- The encoding of a positive number: its exponent, and its mantissa without the leading bit. -/
theorem toNat_toBits_ofNat (hm : 0 < m) (h : m < 2 ^ 53) :
    (ofNat m).toBits.toNat = (1075 - padding m) * 2 ^ 52 + (m * 2 ^ padding m - 2 ^ 52) := by
  obtain ⟨hlow, hhigh⟩ := padded_bounds hm h
  have hbits : (ofNat m).toBits.toNat = (pack Format.binary64 (unpacked m)).toNat := by
    rw [ofNat, ofNat_eq h]
    rfl
  have hrest : m * 2 ^ padding m % 2 ^ 52 = m * 2 ^ padding m - 2 ^ 52 := by
    rw [Nat.mod_eq_sub_mod hlow, Nat.mod_eq_of_lt (by omega)]
  have hexponent : (1075 - padding m) % 2 ^ 11 = 1075 - padding m := Nat.mod_eq_of_lt (by omega)
  rw [hbits, unpacked_natCast hm, pack_unpackedNat .positive hm h]
  change (0#1 ++ BitVec.ofNat 11 (1075 - padding m) ++ BitVec.ofNat 52 (m * 2 ^ padding m)).toNat =
    _
  rw [BitVec.toNat_append, BitVec.toNat_append, BitVec.toNat_ofNat (1075 - padding m),
    BitVec.toNat_ofNat (m * 2 ^ padding m), hrest, hexponent, BitVec.toNat_zero, Nat.zero_shiftLeft,
    Nat.zero_or, ← Nat.shiftLeft_add_eq_or_of_lt (by omega), Nat.shiftLeft_eq]

/-- **Truncation is exact** on a count of at most 53 bits.

**Proof sketch.** A positive count is stored as `m * 2 ^ padding m` with the exponent `-padding m`,
since padded it has 53 bits. The whole part divides by the same power again, and the result is far
from both ends of the integers. -/
theorem truncate_ofNat (h : m < 2 ^ 53) : truncate (ofNat m) = m := by
  rcases Nat.eq_zero_or_pos m with rfl | hm
  · decide +kernel
  · obtain ⟨hlow, hhigh⟩ := padded_bounds hm h
    have hpadding : padding m ≤ 52 := Nat.sub_le _ _
    have hparts : parts (ofNat m) = .finite false (m * 2 ^ padding m) (-(padding m : Int)) := by
      rw [parts, toNat_toBits_ofNat hm h]
      generalize m * 2 ^ padding m = k at hlow hhigh
      generalize padding m = p at hpadding
      have hpositive : ¬ twoPow 63 ≤ (1075 - p) * 2 ^ 52 + (k - 2 ^ 52) := by
        rw [twoPow_eq]
        omega
      have hbiased : ((1075 - p) * 2 ^ 52 + (k - 2 ^ 52)) / twoPow 52 % twoPow 11 = 1075 - p := by
        rw [twoPow_eq, twoPow_eq]
        omega
      have hfraction : ((1075 - p) * 2 ^ 52 + (k - 2 ^ 52)) % twoPow 52 = k - 2 ^ 52 := by
        rw [twoPow_eq]
        omega
      have hmantissa : twoPow 52 + (k - 2 ^ 52) = k := by
        rw [twoPow_eq]
        omega
      have hexponent : ((1075 - p : Nat) : Int) - 1075 = -(p : Int) := by omega
      simp only [Parts.ofBits, hbiased, hfraction, hmantissa, hexponent, decide_eq_false hpositive]
      rw [if_neg (by omega), if_neg (by omega)]
    have hwhole : wholePart (m * 2 ^ padding m) (-(padding m : Int)) = m := by
      rw [wholePart]
      by_cases hzero : 0 ≤ -(padding m : Int)
      · have hnone : padding m = 0 := by omega
        simp [hnone, twoPow]
      · rw [if_neg hzero, Int.neg_neg, Int.toNat_natCast]
        exact Nat.mul_div_cancel _ (Nat.two_pow_pos _)
    rw [truncate, hparts]
    simp only [hwhole, Bool.false_eq_true, if_false]
    exact clamp_of_mem (by unfold minInteger; omega) (by unfold maxInteger; omega)

end LineScript.Number
