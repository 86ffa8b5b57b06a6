import LineScript.Text.Search
import LineScript.Value.Comparison

set_option relaxedAutoImplicit false
set_option autoImplicit false

/-!
# Arithmetic of values

The operators look at the kinds of their operands. A sum concatenates collections, appends to a
collection or concatenates texts unless both operands are numeric; a difference removes equal
values from a collection or a substring from a string; the other operators read both operands as
numbers.

## Main definitions

* `LineScript.Value.plus`, `LineScript.Value.minus`, `LineScript.Value.times`,
  `LineScript.Value.over?`, `LineScript.Value.modulo?`, `LineScript.Value.power`,
  `LineScript.Value.negated` — the arithmetic operators; division by zero has no result.
-/

namespace LineScript.Value

/-- Null, booleans and numbers add as numbers. -/
def isNumeric : Value → Bool
  | .null | .bool _ | .number _ => true
  | .str _ | .collection _ => false

/-- The sum: collections are concatenated, anything else is appended to a collection, numeric values
are added, and all else is concatenated as text. -/
def plus : Value → Value → Value
  | .collection a, .collection b => .collection (a.append b)
  | .collection a, b => .collection (a.push b)
  | a, b =>
    if a.isNumeric && b.isNumeric then .number (a.toNumber + b.toNumber)
    else .str (a.text ++ b.text)

/-- The difference: a collection loses the values of the other, a string that is no number loses
every occurrence of a non-empty one, and all else is subtracted as numbers. -/
def minus : Value → Value → Value
  | .collection a, .collection b => .collection (a.difference looseEq b)
  | .str a, .str b =>
    if (numeral? (.str a)).isNone && b != "" then
      .str (String.ofList (Text.replaceAll b.toList [] a.toList))
    else .number (toNumber (.str a) - toNumber (.str b))
  | a, b => .number (a.toNumber - b.toNumber)

/-- The product of the two numbers. -/
def times (a b : Value) : Value :=
  .number (a.toNumber * b.toNumber)

/-- The quotient of the two numbers, unless the divisor is zero. -/
def over? (a b : Value) : Option Value :=
  if b.toNumber == 0.0 then none else some (.number (a.toNumber / b.toNumber))

/-- The remainder of the two truncated numbers, with the sign of the dividend, unless the truncated
divisor is zero. -/
def modulo? (a b : Value) : Option Value :=
  let divisor := Number.truncate b.toNumber
  if divisor = 0 then none
  else some (.number (Number.ofInt ((Number.truncate a.toNumber).tmod divisor)))

/-- The power of the two numbers. -/
def power (a b : Value) : Value :=
  .number (Float.pow a.toNumber b.toNumber)

/-- The number with its sign changed. -/
def negated (a : Value) : Value :=
  .number (-a.toNumber)

end LineScript.Value
