import LineScript.Number.Shortest

set_option relaxedAutoImplicit false
set_option autoImplicit false

/-!
# Decimal text of numbers

Numbers are written without an exponent: the shortest digits that read back, filled with zeros up
to or after the decimal point, and with no fraction when there is none. They are read in the usual
forms: a sign, digits with an optional point, an optional exponent, and the words for infinity and
not-a-number in any case.

## Main definitions

* `LineScript.Number.decimal` — the text of a number.
* `LineScript.Number.ofDecimal` — the number nearest to `digits · 10 ^ exponent`.
* `LineScript.Number.read?` — the number a text stands for.
-/

namespace LineScript.Number

/-- Decimal digits with the decimal point `place` digits from the right: zeros are added where the
point lies outside the digits. -/
def positional (digits : List Char) (place : Int) : List Char :=
  if 0 ≤ place then digits ++ List.replicate place.toNat '0'
  else
    let after := (-place).toNat
    if after < digits.length then
      digits.take (digits.length - after) ++ '.' :: digits.drop (digits.length - after)
    else '0' :: '.' :: (List.replicate (after - digits.length) '0' ++ digits)

/-- The text of a magnitude `mantissa · 2 ^ exponent`. -/
def magnitude (mantissa : Nat) (exponent : Int) : List Char :=
  if mantissa = 0 then ['0']
  else
    let (digits, place) := shortest mantissa exponent
    positional (Nat.toDigits 10 digits) place

/-- The decimal text of a number. -/
def decimal (x : Float) : String :=
  match parts x with
  | .nan => "NaN"
  | .infinite negative => if negative then "-inf" else "inf"
  | .finite negative mantissa exponent =>
    let text := magnitude mantissa exponent
    String.ofList (if negative then '-' :: text else text)

/-- The value of decimal digits. -/
def digitsValue (digits : List Char) : Nat :=
  digits.foldl (fun n c => 10 * n + (c.toNat - '0'.toNat)) 0

/-- The number nearest to `digits · 10 ^ exponent`. Beyond `10 ^ 310` this is infinity and below
`10 ^ -400` zero, so such exponents are not raised to a power. -/
def ofDecimal (digits : Nat) (exponent : Int) : Float :=
  let size := exponent + digitCount digits
  if digits = 0 || size < -400 then 0.0
  else if 310 < size then 1.0 / 0.0
  else Float.ofScientific digits (exponent < 0) exponent.natAbs

/-- The number written as `whole.fraction`. -/
def ofDigits (whole fraction : List Char) : Float :=
  ofDecimal (digitsValue (whole ++ fraction)) (-(fraction.length : Int))

/-- The sign at the start of a text, and the text after it. -/
def takeSign : List Char → Bool × List Char
  | '-' :: cs => (true, cs)
  | '+' :: cs => (false, cs)
  | cs => (false, cs)

/-- The exponent that ends a number: nothing, or `e` or `E`, an optional sign and digits. -/
def readExponent? : List Char → Option Int
  | [] => some 0
  | c :: cs =>
    if c = 'e' ∨ c = 'E' then
      let (negative, digits) := takeSign cs
      if digits.isEmpty || !digits.all Char.isDigit then none
      else some (if negative then -(digitsValue digits : Int) else digitsValue digits)
    else none

/-- A number without a sign: digits with an optional point, at least one digit, and an optional
exponent. -/
def readMagnitude? (cs : List Char) : Option Float :=
  let whole := cs.takeWhile Char.isDigit
  let rest := cs.dropWhile Char.isDigit
  let (fraction, rest) :=
    match rest with
    | '.' :: rest => (rest.takeWhile Char.isDigit, rest.dropWhile Char.isDigit)
    | rest => ([], rest)
  if whole.isEmpty && fraction.isEmpty then none
  else (readExponent? rest).map fun exponent =>
    ofDecimal (digitsValue (whole ++ fraction)) (exponent - fraction.length)

/-- The number a text stands for in full, if it has the form of one. -/
def read? (cs : List Char) : Option Float :=
  let (negative, cs) := takeSign cs
  let word := String.ofList (cs.map Char.toLower)
  let value :=
    if word = "inf" ∨ word = "infinity" then some (1.0 / 0.0)
    else if word = "nan" then some (0.0 / 0.0)
    else readMagnitude? cs
  value.map fun x => if negative then -x else x

end LineScript.Number
