import LineScript.Library.Arrays
import LineScript.Library.Math
import LineScript.Library.Strings

set_option relaxedAutoImplicit false
set_option autoImplicit false

/-!
# Libraries

## Main definitions

* `LineScript.Library.find?` — a library by name.
* `LineScript.FunctionTable.addLibrary` — the functions of a library defined inside a namespace.
-/

namespace LineScript

/-- The library of a name. -/
def Library.find? (name : String) : Option (List LibraryEntry) :=
  match name with
  | "math" => some Library.math
  | "string" => some Library.strings
  | "array" => some Library.arrays
  | _ => none

/-- The table with the functions of a library, inside a namespace. The first name that is taken ends
it; the functions defined before stay. -/
def FunctionTable.addLibrary (scope : String) :
    List LibraryEntry → FunctionTable → Except ScriptError Unit × FunctionTable
  | [], t => (.ok (), t)
  | e :: rest, t =>
    match t.define (some scope) e.toFunction with
    | .error err => (.error err, t)
    | .ok t => addLibrary scope rest t

end LineScript
