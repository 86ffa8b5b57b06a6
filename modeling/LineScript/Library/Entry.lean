import LineScript.Function

set_option relaxedAutoImplicit false
set_option autoImplicit false

/-!
# Entries of libraries

A library is a table of host functions. Each of them reads its arguments by position; an argument
that was not given reads as null.

## Main definitions

* `LineScript.LibraryEntry` — a function of a library.
* `LineScript.Arguments.value`, `number`, `integer`, `text`, `collection` — an argument, read in
  one of the ways that a value can be read.
* `LineScript.span` — the part of a sequence that an offset and a length select.
-/

namespace LineScript

/-- A function of a library. -/
structure LibraryEntry where
  name : String
  params : List String
  defaults : List (String × Value) := []
  run : Native

/-- The function of an entry. -/
def LibraryEntry.toFunction (e : LibraryEntry) : Function :=
  { name := e.name, params := e.params, defaults := Assoc.ofPairs e.defaults,
    body := .native e.run }

namespace Arguments

/-- The argument at a position. -/
def value (args : List Value) (i : Nat) : Value :=
  args.getD i .null

/-- The argument at a position as a number. -/
def number (args : List Value) (i : Nat) : Float :=
  (value args i).toNumber

/-- The argument at a position as a signed 64-bit integer. -/
def integer (args : List Value) (i : Nat) : Int :=
  Number.truncate (number args i)

/-- The argument at a position as text. -/
def text (args : List Value) (i : Nat) : String :=
  (value args i).text

/-- The argument at a position, which must be a collection, of the function `function`. -/
def collection (function : String) (args : List Value) (i : Nat) :
    Except ScriptError (Collection Value) :=
  match value args i with
  | .collection c => .ok c
  | v => .error (.badArgument function ("expected a collection, got " ++ v.kind.name))

end Arguments

/-- The first position and the position after the last one that an offset and a length select from
`size` items. A negative offset counts from the end. A length of zero reaches to the end, and a
negative one stops that many items before it. Sums stop at the ends of the signed 64-bit
integers. -/
def span (size : Nat) (offset length : Int) : Nat × Nat :=
  let start : Int := if offset < 0 then max 0 (Number.clamp (size + offset)) else min offset size
  let stop : Int :=
    if length = 0 then size
    else if length < 0 then max start (Number.clamp (size + length))
    else min (Number.clamp (start + length)) size
  (start.toNat, stop.toNat)

end LineScript
