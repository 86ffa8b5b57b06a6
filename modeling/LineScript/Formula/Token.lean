import LineScript.ScriptError
import LineScript.Value.Arithmetic

set_option relaxedAutoImplicit false
set_option autoImplicit false

/-!
# Operators and tokens

A formula is brought into reverse Polish order before it is evaluated: a list of tokens in which
every operator follows its operands.

## Main definitions

* `LineScript.Operator` — the binary operators, with `LineScript.Operator.tier` and
  `LineScript.Operator.rightAssociative` for their precedence.
* `LineScript.Operator.apply` — what an operator computes.
* `LineScript.Token` — a token; literals keep the text between their delimiters.
-/

namespace LineScript

/-- The binary operators. -/
inductive Operator where
  | add
  | sub
  | mul
  | div
  | rem
  | pow
  | and
  | or
  | xor
  | eq
  | ne
  | identical
  | notIdentical
  | lt
  | le
  | gt
  | ge
  deriving Repr, DecidableEq

namespace Operator

/-- How tightly an operator binds: logic and comparison least, then sums, products and powers. -/
def tier : Operator → Nat
  | .or | .xor | .and | .eq | .ne | .identical | .notIdentical | .lt | .le | .gt | .ge => 0
  | .add | .sub => 1
  | .mul | .div | .rem => 2
  | .pow => 3

/-- The tier of the unary minus, that of a product. -/
def negationTier : Nat := 2

/-- Whether a chain of the operator groups to the right. Only powers do. -/
def rightAssociative : Operator → Bool
  | .pow => true
  | _ => false

/-- The written form of an operator. -/
def symbol : Operator → String
  | .add => "+"
  | .sub => "-"
  | .mul => "*"
  | .div => "/"
  | .rem => "%"
  | .pow => "^"
  | .and => "&"
  | .or => "|"
  | .xor => "~"
  | .eq => "=="
  | .ne => "!="
  | .identical => "==="
  | .notIdentical => "!=="
  | .lt => "<"
  | .le => "<="
  | .gt => ">"
  | .ge => ">="

/-- The operators, each once. -/
def all : List Operator :=
  [.add, .sub, .mul, .div, .rem, .pow, .and, .or, .xor, .eq, .ne, .identical, .notIdentical, .lt,
    .le, .gt, .ge]

/-- The value of an operator at two operands. Only division and remainder can fail, by a zero
divisor. -/
def apply (op : Operator) (lhs rhs : Value) : Except ScriptError Value :=
  match op with
  | .add => .ok (lhs.plus rhs)
  | .sub => .ok (lhs.minus rhs)
  | .mul => .ok (lhs.times rhs)
  | .div => (lhs.over? rhs).elim (.error .divisionByZero) .ok
  | .rem => (lhs.modulo? rhs).elim (.error .divisionByZero) .ok
  | .pow => .ok (lhs.power rhs)
  | .and => .ok (.bool (lhs.truth && rhs.truth))
  | .or => .ok (.bool (lhs.truth || rhs.truth))
  | .xor => .ok (.bool (lhs.truth != rhs.truth))
  | .eq => .ok (.bool (lhs.looseEq rhs))
  | .ne => .ok (.bool (!lhs.looseEq rhs))
  | .identical => .ok (.bool (lhs.identical rhs))
  | .notIdentical => .ok (.bool (!lhs.identical rhs))
  | .lt => .ok (.bool (lhs.looseCompare rhs == some .lt))
  | .le => .ok (.bool (lhs.looseCompare rhs == some .lt || lhs.looseCompare rhs == some .eq))
  | .gt => .ok (.bool (lhs.looseCompare rhs == some .gt))
  | .ge => .ok (.bool (lhs.looseCompare rhs == some .gt || lhs.looseCompare rhs == some .eq))

end Operator

/-- A token of a formula. The literals `singleQuoted`, `doubleQuoted`, `collection` and `call` hold
the text between their delimiters as it was written, and a `reference` the path after its `$`. -/
inductive Token where
  | number (x : Float)
  | bool (b : Bool)
  | null
  | word (s : String)
  | singleQuoted (s : String)
  | doubleQuoted (s : String)
  | collection (s : String)
  | call (s : String)
  | reference (path : String)
  | operator (op : Operator)
  | negation
  deriving Repr, Inhabited

end LineScript
