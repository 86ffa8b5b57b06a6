set_option relaxedAutoImplicit false
set_option autoImplicit false

/-!
# Binary floating-point numbers, taken apart

Numbers are 64-bit binary floating-point numbers. What depends on their exact value — their decimal
text and the integer they truncate to — is computed in integers from their encoding.

## Main definitions

* `LineScript.Number.twoPow`, `LineScript.Number.tenPow` — powers of the two bases.
* `LineScript.Number.Parts` — what an encoding stands for: not a number, an infinity, or a signed
  `mantissa · 2 ^ exponent`.
* `LineScript.Number.parts` — the parts of a number.
* `LineScript.Number.truncate` — a number cut toward zero to a signed 64-bit integer.
* `LineScript.Number.ofInt` — the number nearest to an integer.
-/

namespace LineScript.Number

/-- A power of two. -/
def twoPow (n : Nat) : Nat :=
  Nat.pow 2 n

/-- A power of ten. -/
def tenPow (n : Nat) : Nat :=
  Nat.pow 10 n

/-- What the encoding of a number stands for. A finite number is `mantissa · 2 ^ exponent`, with
its sign apart so that both zeros are kept. -/
inductive Parts where
  | nan
  | infinite (negative : Bool)
  | finite (negative : Bool) (mantissa : Nat) (exponent : Int)
  deriving Repr, DecidableEq

/-- The parts of an encoding of one sign bit, eleven exponent bits and fifty-two fraction bits. -/
def Parts.ofBits (bits : Nat) : Parts :=
  let negative := twoPow 63 ≤ bits
  let biased := bits / twoPow 52 % twoPow 11
  let fraction := bits % twoPow 52
  if biased = 2047 then
    if fraction = 0 then .infinite negative else .nan
  else if biased = 0 then .finite negative fraction (-1074)
  else .finite negative (twoPow 52 + fraction) ((biased : Int) - 1075)

/-- The parts of a number. -/
def parts (x : Float) : Parts :=
  Parts.ofBits x.toBits.toNat

/-- The largest signed 64-bit integer. -/
def maxInteger : Int := 9223372036854775807

/-- The smallest signed 64-bit integer. -/
def minInteger : Int := -9223372036854775808

/-- The nearest integer that fits in 64 signed bits. -/
def clamp (n : Int) : Int :=
  max minInteger (min maxInteger n)

/-- The integer part of `mantissa · 2 ^ exponent`. -/
def wholePart (mantissa : Nat) (exponent : Int) : Nat :=
  if 0 ≤ exponent then mantissa * twoPow exponent.toNat else mantissa / twoPow (-exponent).toNat

/-- The number without its fraction, as the nearest signed 64-bit integer. What is not a number
gives zero. -/
def truncate (x : Float) : Int :=
  match parts x with
  | .nan => 0
  | .infinite negative => if negative then minInteger else maxInteger
  | .finite negative mantissa exponent =>
    let whole : Int := wholePart mantissa exponent
    clamp (if negative then -whole else whole)

/-- The number nearest to an integer; of two that are equally near, the one with an even
mantissa. -/
def ofInt (n : Int) : Float :=
  Float.ofInt n

/-- The number nearest to a count. -/
def ofNat (n : Nat) : Float :=
  Float.ofNat n

/-- A truncated number fits in 64 signed bits. -/
theorem clamp_mem (n : Int) : minInteger ≤ clamp n ∧ clamp n ≤ maxInteger := by
  unfold clamp minInteger maxInteger
  omega

/-- An integer that fits is left as it is. -/
theorem clamp_of_mem {n : Int} (h₁ : minInteger ≤ n) (h₂ : n ≤ maxInteger) : clamp n = n := by
  unfold clamp
  omega

end LineScript.Number
