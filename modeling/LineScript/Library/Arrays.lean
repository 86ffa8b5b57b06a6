import LineScript.Library.Entry

set_option relaxedAutoImplicit false
set_option autoImplicit false

/-!
# The `array` library

## Main definitions

* `LineScript.Library.arrays` — sums, products, slices, joins and sizes of collections.
-/

namespace LineScript.Library

/-- The sum of the values as numbers, from left to right. The sum of no values is negative zero. -/
def sum (c : Collection Value) : Float :=
  c.values.foldl (fun total v => total + v.toNumber) (-0.0)

/-- The product of the values as numbers, from left to right. -/
def product (c : Collection Value) : Float :=
  c.values.foldl (fun total v => total * v.toNumber) 1.0

/-- The entries that an offset and a length select. -/
def sliceEntries (c : Collection Value) (offset length : Int) : Collection Value :=
  let (start, stop) := span c.size offset length
  c.slice start stop

/-- The texts of the values with a delimiter between them. -/
def join (delimiter : String) (c : Collection Value) : String :=
  String.intercalate delimiter (c.values.map Value.text)

/-- The `array` library. -/
def arrays : List LibraryEntry :=
  [ { name := "sum"
      params := ["array"]
      run := fun args => do
        let c ← Arguments.collection "array:sum" args 0
        pure (.number (sum c)) },
    { name := "product"
      params := ["array"]
      run := fun args => do
        let c ← Arguments.collection "array:product" args 0
        pure (.number (product c)) },
    { name := "slice"
      params := ["array", "offset", "length"]
      defaults := [("length", .number 0.0)]
      run := fun args => do
        let c ← Arguments.collection "array:slice" args 0
        pure (.collection (sliceEntries c (Arguments.integer args 1) (Arguments.integer args 2))) },
    { name := "join"
      params := ["delimiter", "array"]
      run := fun args => do
        let c ← Arguments.collection "array:join" args 1
        pure (.str (join (Arguments.text args 0) c)) },
    { name := "length"
      params := ["array", "recursive"]
      defaults := [("recursive", .bool false)]
      run := fun args => do
        let c ← Arguments.collection "array:length" args 0
        pure (.number (Number.ofNat (Value.count (Arguments.value args 1).truth c))) } ]

end LineScript.Library
