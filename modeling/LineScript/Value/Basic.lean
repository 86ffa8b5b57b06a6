import LineScript.Collection
import LineScript.Number.Decimal
import LineScript.Text.Blank

set_option relaxedAutoImplicit false
set_option autoImplicit false

/-!
# Values

Scripts are dynamically typed: every value can be read as a truth value, as a number and as text.

## Main definitions

* `LineScript.Value` — null, booleans, numbers, strings and collections of values.
* `LineScript.Value.kind` — which of these a value is.
* `LineScript.Value.truth`, `LineScript.Value.toNumber`, `LineScript.Value.text` — the three
  readings.
* `LineScript.Value.numeral?` — the number a string looks like, if it does.
* `LineScript.Value.count` — the number of entries, nested ones included if wished.
-/

namespace LineScript

/-- A value of a script. -/
inductive Value where
  | null
  | bool (b : Bool)
  | number (x : Float)
  | str (s : String)
  | collection (c : Collection Value)
  deriving Repr, Inhabited

/-- The kinds of values. -/
inductive ValueKind where
  | null
  | bool
  | number
  | string
  | collection
  deriving Repr, DecidableEq

/-- The name of a kind in messages. -/
def ValueKind.name : ValueKind → String
  | .null => "null"
  | .bool => "bool"
  | .number => "number"
  | .string => "string"
  | .collection => "collection"

namespace Value

/-- The kind of a value. -/
def kind : Value → ValueKind
  | .null => .null
  | .bool _ => .bool
  | .number _ => .number
  | .str _ => .string
  | .collection _ => .collection

/-- The value as a condition: null, `false`, zero, the empty string, the string `0` and the empty
collection are false. -/
def truth : Value → Bool
  | .null => false
  | .bool b => b
  | .number x => x != 0.0
  | .str s => s != "" && s != "0"
  | .collection c => !c.isEmpty

/-- One for true and zero for false. -/
def unitNumber (b : Bool) : Float :=
  if b then 1.0 else 0.0

/-- The number a string stands for, blanks at its ends apart, if it has the form of one. -/
def numeral? : Value → Option Float
  | .str s => Number.read? (Text.trimChars s.toList)
  | _ => none

/-- The value as a number. A string that is no number is zero, and a collection counts as one
unless it is empty. -/
def toNumber : Value → Float
  | .null => 0.0
  | .bool b => unitNumber b
  | .number x => x
  | .str s => (numeral? (.str s)).getD 0.0
  | .collection c => unitNumber (!c.isEmpty)

/-- The text of a number: its decimal text, with no sign on zero. -/
def numberText (x : Float) : String :=
  if x == 0.0 then "0" else Number.decimal x

mutual

/-- The value as text. A collection shows its values between brackets, with the names of its named
entries but without indices. -/
def text : Value → String
  | .null => ""
  | .bool true => "true"
  | .bool false => "false"
  | .number x => numberText x
  | .str s => s
  | .collection ⟨entries⟩ => "[" ++ String.intercalate ", " (entryTexts entries) ++ "]"

/-- The texts of the entries of a collection. -/
def entryTexts : List (Key × Value) → List String
  | [] => []
  | (.index _, v) :: rest => v.text :: entryTexts rest
  | (.name s, v) :: rest => (s ++ ": " ++ v.text) :: entryTexts rest

end

mutual

/-- The number of entries in a value, those of nested collections included. -/
def deepCount : Value → Nat
  | .collection ⟨entries⟩ => deepCountEntries entries
  | _ => 0

/-- The number of entries in a list of entries, those of nested collections included. -/
def deepCountEntries : List (Key × Value) → Nat
  | [] => 0
  | (_, v) :: rest => 1 + v.deepCount + deepCountEntries rest

end

/-- The number of entries of a collection, those of nested collections included when `recursive`
holds. -/
def count (recursive : Bool) (c : Collection Value) : Nat :=
  if recursive then deepCountEntries c.entries else c.size

/-- The value of a key. -/
def ofKey : Key → Value
  | .index n => .number (Number.ofInt n)
  | .name s => .str s

/-- The list of the values. -/
def list (vs : List Value) : Value :=
  .collection (Collection.ofValues vs)

end Value

end LineScript
