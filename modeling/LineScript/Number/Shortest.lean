import LineScript.Number.Binary64

set_option relaxedAutoImplicit false
set_option autoImplicit false

/-!
# Shortest decimal digits

A positive finite number is written with the fewest decimal digits that still read back as that
number, and with the nearest such digits. All reals of an interval around the number read back as
it; the search looks, for one digit, two digits and so on, at the two neighbours of the number on
the decimal grid of that many digits, and takes the first that lies in the interval. Seventeen
digits always suffice.

## Main definitions

* `LineScript.Number.Scaled` — a number and the ends of its interval as integers over one unit.
* `LineScript.Number.shortest` — the digits and the position of the decimal point.
-/

namespace LineScript.Number

/-- A positive number `value / unit` with the interval `[low / unit, high / unit]` of the reals
that read back as it. The two ends belong to the interval when `closed` holds. -/
structure Scaled where
  value : Nat
  low : Nat
  high : Nat
  unit : Nat
  closed : Bool
  deriving Repr

/-- The interval of `mantissa · 2 ^ exponent`: half the gap to the neighbour on each side. Below a
power of two the gap is half as wide as above it, except at the smallest exponent, and a number
with an even mantissa wins the ties at both ends. -/
def Scaled.ofParts (mantissa : Nat) (exponent : Int) : Scaled :=
  let narrow := mantissa = twoPow 52 ∧ -1074 < exponent
  let up := twoPow exponent.toNat
  { value := 4 * mantissa * up
    low := (4 * mantissa - if narrow then 1 else 2) * up
    high := (4 * mantissa + 2) * up
    unit := 4 * twoPow (-exponent).toNat
    closed := mantissa % 2 == 0 }

/-- Whether `grid · 10 ^ place` reads back as the number. -/
def Scaled.contains (s : Scaled) (grid : Nat) (place : Int) : Bool :=
  let point := grid * tenPow place.toNat * s.unit
  let scale := tenPow (-place).toNat
  if s.closed then s.low * scale ≤ point && point ≤ s.high * scale
  else s.low * scale < point && point < s.high * scale

/-- The multiple of `10 ^ place` at or below the number, in units of `10 ^ place`. -/
def Scaled.floor (s : Scaled) (place : Int) : Nat :=
  s.value * tenPow (-place).toNat / (s.unit * tenPow place.toNat)

/-- Whether the upper neighbour of the number on the grid of `10 ^ place` is at least as near as
the lower one. -/
def Scaled.upperNearer (s : Scaled) (place : Int) : Bool :=
  let twice := 2 * (s.value * tenPow (-place).toNat % (s.unit * tenPow place.toNat))
  s.unit * tenPow place.toNat ≤ twice

/-- The neighbour of the number on the grid of `10 ^ place` that reads back as it, the nearer one
if both do. -/
def Scaled.gridPoint? (s : Scaled) (place : Int) : Option Nat :=
  let below := s.floor place
  match s.contains below place, s.contains (below + 1) place with
  | true, true => some (if s.upperNearer place then below + 1 else below)
  | true, false => some below
  | false, true => some (below + 1)
  | false, false => none

/-- The number of decimal digits of a positive integer, one for zero. -/
def digitCount (n : Nat) : Nat :=
  (Nat.toDigits 10 n).length

/-- The position of the decimal point: the least `p` with `value / unit < 10 ^ p`. -/
def Scaled.pointPosition (s : Scaled) : Int :=
  if s.unit ≤ s.value then digitCount (s.value / s.unit)
  else
    let zeros := digitCount (s.unit / s.value) - 1
    if s.unit ≤ s.value * tenPow zeros then 1 - (zeros : Int) else -(zeros : Int)

/-- The first grid of at least `count` digits that has a point which reads back as the number. A
point of one digit more than the grid is the power of ten above it. -/
def Scaled.search (s : Scaled) (position : Int) (count : Nat) : Nat → Nat × Int
  | 0 => (s.floor (position - count), position - count)
  | more + 1 =>
    match s.gridPoint? (position - count) with
    | some grid => if grid = tenPow count then (1, position) else (grid, position - count)
    | none => s.search position (count + 1) more

/-- The shortest decimal `digits · 10 ^ place` that reads back as `mantissa · 2 ^ exponent`. -/
def shortest (mantissa : Nat) (exponent : Int) : Nat × Int :=
  let s := Scaled.ofParts mantissa exponent
  s.search s.pointPosition 1 17

end LineScript.Number
