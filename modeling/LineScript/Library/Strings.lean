import LineScript.Library.Entry
import LineScript.Text.Search

set_option relaxedAutoImplicit false
set_option autoImplicit false

/-!
# The `string` library

Positions and lengths count characters.

## Main definitions

* `LineScript.Library.strings` — searching, measuring, replacing, slicing and splitting text.
-/

namespace LineScript.Library

/-- The position of the first occurrence, or `false`. -/
def findIn (needle haystack : String) : Value :=
  match Text.indexOf? needle.toList haystack.toList with
  | some i => .number (Number.ofNat i)
  | none => .bool false

/-- Every occurrence of a non-empty text replaced; an empty one is found nowhere. -/
def replaceIn (needle new subject : String) : String :=
  if needle = "" then subject
  else String.ofList (Text.replaceAll needle.toList new.toList subject.toList)

/-- The characters that an offset and a length select. -/
def sliceText (subject : String) (offset length : Int) : String :=
  let chars := subject.toList
  let (start, stop) := span chars.length offset length
  String.ofList ((chars.take stop).drop start)

/-- The pieces of a text between the occurrences of a non-empty delimiter. A positive limit bounds
their number, so that the last piece keeps the rest; a negative one drops that many pieces from the
end. -/
def splitPieces (delimiter subject : String) (limit : Int) : List String :=
  let pieces :=
    if 0 < limit then Text.piecesUpTo limit.toNat delimiter.toList subject.toList
    else
      let all := Text.pieces delimiter.toList subject.toList
      all.take (all.length - limit.natAbs)
  pieces.map String.ofList

/-- The list of the pieces of a text, for a delimiter that is not empty. -/
def splitText (delimiter subject : String) (limit : Int) : Except ScriptError Value :=
  if delimiter = "" then .error (.badArgument "string:split" "empty delimiter")
  else .ok (.list ((splitPieces delimiter subject limit).map .str))

/-- The `string` library. -/
def strings : List LibraryEntry :=
  [ { name := "find"
      params := ["find", "string"]
      run := fun args => .ok (findIn (Arguments.text args 0) (Arguments.text args 1)) },
    { name := "length"
      params := ["string"]
      run := fun args => .ok (.number (Number.ofNat (Arguments.text args 0).length)) },
    { name := "replace"
      params := ["find", "replace", "string"]
      run := fun args =>
        .ok (.str (replaceIn (Arguments.text args 0) (Arguments.text args 1)
          (Arguments.text args 2))) },
    { name := "slice"
      params := ["string", "offset", "length"]
      defaults := [("length", .number 0.0)]
      run := fun args =>
        .ok (.str (sliceText (Arguments.text args 0) (Arguments.integer args 1)
          (Arguments.integer args 2))) },
    { name := "split"
      params := ["delimiter", "string", "limit"]
      defaults := [("limit", .number 0.0)]
      run := fun args =>
        splitText (Arguments.text args 0) (Arguments.text args 1) (Arguments.integer args 2) } ]

end LineScript.Library
