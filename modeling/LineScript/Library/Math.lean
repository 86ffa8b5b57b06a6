import LineScript.Library.Entry

set_option relaxedAutoImplicit false
set_option autoImplicit false

/-!
# The `math` library

## Main definitions

* `LineScript.Library.math` — elementary functions, rounding and the number π.
-/

namespace LineScript.Library

/-- The function of one number. -/
def unary (name : String) (f : Float → Float) : LibraryEntry :=
  { name := name
    params := ["arg"]
    run := fun args => .ok (.number (f (Arguments.number args 0))) }

/-- The product of `r` and the `n`-th power of `a`, by squaring. -/
def powerTimes (r a : Float) (n : Nat) : Float :=
  if h : n = 0 then r
  else powerTimes (if n % 2 = 1 then r * a else r) (a * a) (n / 2)
termination_by n

/-- A power with an integer exponent, by squaring; a negative one gives the reciprocal. -/
def integerPower (a : Float) (n : Int) : Float :=
  let r := powerTimes 1.0 a n.natAbs
  if n < 0 then 1.0 / r else r

/-- A number rounded to a number of decimal places, with halves away from zero. Of the number of
places the low 32 bits are used. -/
def roundTo (x : Float) (places : Int) : Float :=
  let factor := integerPower 10.0 (Int.bmod places 4294967296)
  Float.round (x * factor) / factor

/-- The `math` library. -/
def math : List LibraryEntry :=
  [ unary "sin" Float.sin,
    unary "sinh" Float.sinh,
    unary "asin" Float.asin,
    unary "asinh" Float.asinh,
    unary "cos" Float.cos,
    unary "cosh" Float.cosh,
    unary "acos" Float.acos,
    unary "acosh" Float.acosh,
    unary "tan" Float.tan,
    unary "tanh" Float.tanh,
    unary "atan" Float.atan,
    unary "atanh" Float.atanh,
    unary "sqrt" Float.sqrt,
    unary "abs" Float.abs,
    unary "exp" Float.exp,
    unary "ln" Float.log,
    unary "log" Float.log10,
    { name := "round"
      params := ["val", "precision"]
      defaults := [("precision", .number 0.0)]
      run := fun args =>
        .ok (.number (roundTo (Arguments.number args 0) (Arguments.integer args 1))) },
    { name := "pi"
      params := []
      run := fun _ => .ok (.number 3.141592653589793) } ]

end LineScript.Library
