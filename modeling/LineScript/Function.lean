import LineScript.ScriptError

set_option relaxedAutoImplicit false
set_option autoImplicit false

/-!
# Functions

A function is either computed by the host or has a body of source text. Functions are known by
their qualified names; once defined, a name is never defined anew.

## Main definitions

* `LineScript.FunctionBody`, `LineScript.Function` — a function.
* `LineScript.Function.bind` — arguments matched with parameters.
* `LineScript.FunctionTable` — the defined functions, with `LineScript.FunctionTable.define`.
-/

namespace LineScript

/-- A computation of the host: a value for each parameter, in order, to a result. -/
abbrev Native : Type :=
  List Value → Except ScriptError Value

/-- What a function does. -/
inductive FunctionBody where
  | native (run : Native)
  | source (code : String)

/-- The source of a body, if it has one. -/
def FunctionBody.source? : FunctionBody → Option String
  | .native _ => none
  | .source code => some code

/-- A function with its parameters and the default values of some of them. -/
structure Function where
  name : String
  params : List String
  defaults : List (String × Value) := []
  body : FunctionBody

/-- A parameter with the value bound to it. -/
structure Binding where
  param : String
  value : Value
  deriving Repr

/-- Parameters bound to arguments in order, and after these to their defaults. A parameter with
neither is null and is reported as missing; further arguments are dropped. -/
def Function.bindParams (f : Function) : List String → List Value →
    List Binding × List ScriptError
  | [], _ => ([], [])
  | param :: params, v :: args =>
    let (bound, missing) := f.bindParams params args
    (⟨param, v⟩ :: bound, missing)
  | param :: params, [] =>
    let (bound, missing) := f.bindParams params []
    match Assoc.get? param f.defaults with
    | some v => (⟨param, v⟩ :: bound, missing)
    | none => (⟨param, .null⟩ :: bound, .missingArgument f.name param :: missing)

/-- The parameters of a function bound to arguments. -/
def Function.bind (f : Function) (args : List Value) : List Binding × List ScriptError :=
  f.bindParams f.params args

/-- A name inside a namespace. -/
def qualify (scope : Option String) (name : String) : String :=
  match scope with
  | some scope => scope ++ ":" ++ name
  | none => name

/-- The defined functions by qualified name, in the order of their definition. -/
structure FunctionTable where
  functions : List (String × Function) := []

namespace FunctionTable

/-- No function is defined. -/
def empty : FunctionTable := {}

/-- The function of a qualified name. -/
def get? (t : FunctionTable) (name : String) : Option Function :=
  Assoc.get? name t.functions

/-- Whether a qualified name is defined. -/
def contains (t : FunctionTable) (name : String) : Bool :=
  (t.get? name).isSome

/-- The number of functions. -/
def size (t : FunctionTable) : Nat :=
  t.functions.length

/-- Whether no function is defined. -/
def isEmpty (t : FunctionTable) : Bool :=
  t.functions.isEmpty

/-- The table with one more function, inside a namespace. A name that is taken is an error. -/
def define (t : FunctionTable) (scope : Option String) (f : Function) :
    Except ScriptError FunctionTable :=
  let name := qualify scope f.name
  if t.contains name then .error (.redefine name)
  else .ok ⟨t.functions ++ [(name, { f with name := name })]⟩

end FunctionTable

end LineScript
