import LineScript.Value.Basic

set_option relaxedAutoImplicit false
set_option autoImplicit false

/-!
# Comparing values

Three comparisons are offered to scripts. *Identity* asks for the same kind and the same content,
entry by entry. *Loose equality* and *loose order* convert first: a string that looks like a number
compares with numbers as one, null and booleans compare by truth, and a collection is larger than
anything else.

## Main definitions

* `LineScript.Value.identical` — identity.
* `LineScript.Value.looseCompare` — loose order, absent when a number is not comparable.
* `LineScript.Value.looseEq` — loose equality.
-/

namespace LineScript.Value

/-- The order of two numbers; none if one of them is not a number. -/
def compareNumbers (x y : Float) : Option Ordering :=
  if x < y then some .lt
  else if y < x then some .gt
  else if x == y then some .eq
  else none

/-- The order of two texts by code point. -/
def compareTexts (a b : String) : Ordering :=
  if a < b then .lt else if a = b then .eq else .gt

/-- The order of two truth values, false before true. -/
def compareTruths : Bool → Bool → Ordering
  | false, true => .lt
  | true, false => .gt
  | _, _ => .eq

/-- The order of a number and a string: by number if the string looks like one, else by text. -/
def compareNumberWithText (x : Float) (s : String) : Option Ordering :=
  match numeral? (.str s) with
  | some y => compareNumbers x y
  | none => some (compareTexts (numberText x) s)

/-- The loose order of two values. -/
def looseCompare : Value → Value → Option Ordering
  | .str a, .str b =>
    match numeral? (.str a), numeral? (.str b) with
    | some x, some y => compareNumbers x y
    | _, _ => some (compareTexts a b)
  | .collection a, .collection b => some (compare a.size b.size)
  | .collection _, _ => some .gt
  | _, .collection _ => some .lt
  | .number x, .number y => compareNumbers x y
  | .number x, .str s => compareNumberWithText x s
  | .str s, .number y => (compareNumberWithText y s).map Ordering.swap
  | a, b => some (compareTruths a.truth b.truth)

mutual

/-- Whether two values are loosely equal. -/
def looseEq : Value → Value → Bool
  | .null, b => !b.truth
  | a, .null => !a.truth
  | .bool a, b => a == b.truth
  | a, .bool b => b == a.truth
  | .collection ⟨a⟩, .collection b => a.length == b.size && entriesLooseEq a b
  | .collection _, _ => false
  | _, .collection _ => false
  | .number x, b => looseCompare (.number x) b == some .eq
  | .str s, b => looseCompare (.str s) b == some .eq

/-- Whether every entry has a loosely equal value under its key in `b`. -/
def entriesLooseEq : List (Key × Value) → Collection Value → Bool
  | [], _ => true
  | (k, v) :: rest, b =>
    (match b.get? k with
      | some w => v.looseEq w
      | none => false) && entriesLooseEq rest b

end

mutual

/-- Whether two values are of one kind and of the same content. -/
def identical : Value → Value → Bool
  | .null, .null => true
  | .bool a, .bool b => a == b
  | .number x, .number y => x == y
  | .str a, .str b => a == b
  | .collection ⟨a⟩, .collection ⟨b⟩ => entriesIdentical a b
  | _, _ => false

/-- Whether two lists of entries agree entry by entry. -/
def entriesIdentical : List (Key × Value) → List (Key × Value) → Bool
  | [], [] => true
  | (k, v) :: a, (l, w) :: b => decide (k = l) && v.identical w && entriesIdentical a b
  | _, _ => false

end

end LineScript.Value
