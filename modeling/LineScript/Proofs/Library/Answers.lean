import LineScript.Library

set_option relaxedAutoImplicit false
set_option autoImplicit false

/-!
# What the functions of the libraries answer

A function of a library is found by the name of the library and its own, and is run on arguments by
position. What it answers depends on the arguments only.

## Main definitions

* `LineScript.Library.answer?` — what a function of a library answers.
* `LineScript.Number.IsInteger64` — the signed 64-bit integers.

## Main results

* `LineScript.Library.answer?_string_slice` and its siblings — the functions behind the names.
* `LineScript.Arguments.isInteger64_integer` — an argument that is read as an integer fits in 64
  signed bits, whatever it is.
-/

namespace LineScript

namespace Number

/-- Whether an integer fits in 64 signed bits. -/
def IsInteger64 (n : Int) : Prop :=
  minInteger ≤ n ∧ n ≤ maxInteger

/-- Whether an integer has 64 bits can be decided. -/
instance (n : Int) : Decidable (IsInteger64 n) :=
  inferInstanceAs (Decidable (_ ∧ _))

/-- A number that has been truncated fits, also one that was infinite or not a number. -/
theorem isInteger64_truncate (x : Float) : IsInteger64 (truncate x) := by
  unfold truncate
  split
  · decide
  · split <;> decide
  · exact clamp_mem _

end Number

/-- An argument read as an integer has 64 bits: it is truncated to that range. -/
theorem Arguments.isInteger64_integer (args : List Value) (i : Nat) :
    Number.IsInteger64 (Arguments.integer args i) :=
  Number.isInteger64_truncate _

namespace Library

/-- What the function `name` of a library answers to arguments. -/
def answer? (library name : String) (args : List Value) : Option (Except ScriptError Value) :=
  (find? library).bind fun entries =>
    (entries.find? fun e => e.name = name).map fun e => e.run args

variable (args : List Value)

/-- A slice of a text, with the arguments read as a text and two integers. -/
theorem answer?_string_slice :
    answer? "string" "slice" args = some (.ok (.str (sliceText (Arguments.text args 0)
      (Arguments.integer args 1) (Arguments.integer args 2)))) := rfl

/-- A text split up, with the arguments read as two texts and an integer. -/
theorem answer?_string_split :
    answer? "string" "split" args = some (splitText (Arguments.text args 0)
      (Arguments.text args 1) (Arguments.integer args 2)) := rfl

variable {args} {c : Collection Value}

/-- A slice of a collection, with the other arguments read as integers. -/
theorem answer?_array_slice (h : Arguments.value args 0 = .collection c) :
    answer? "array" "slice" args = some (.ok (.collection (sliceEntries c
      (Arguments.integer args 1) (Arguments.integer args 2)))) := by
  have hread : Arguments.collection "array:slice" args 0 = .ok c := by rw [Arguments.collection, h]
  change some (Arguments.collection "array:slice" args 0 >>= _) = _
  rw [hread]
  rfl

/-- The values of a collection joined, with the first argument read as a text. -/
theorem answer?_array_join (h : Arguments.value args 1 = .collection c) :
    answer? "array" "join" args = some (.ok (.str (join (Arguments.text args 0) c))) := by
  have hread : Arguments.collection "array:join" args 1 = .ok c := by rw [Arguments.collection, h]
  change some (Arguments.collection "array:join" args 1 >>= _) = _
  rw [hread]
  rfl

end Library

end LineScript
