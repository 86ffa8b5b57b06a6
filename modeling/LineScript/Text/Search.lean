set_option relaxedAutoImplicit false
set_option autoImplicit false

/-!
# Searching a text

Positions, lengths and cuts count characters. Occurrences are taken from the left and do not
overlap.

## Main definitions

* `LineScript.Text.cutAt?` — the text before and after the first occurrence of a pattern.
* `LineScript.Text.indexOf?` — the position of the first occurrence.
* `LineScript.Text.pieces` — the pieces between all occurrences.
* `LineScript.Text.piecesUpTo` — the same with a bound on the number of pieces.
* `LineScript.Text.replaceAll` — every occurrence replaced.
-/

namespace LineScript.Text

/-- The text after `pat`, if the text starts with it. -/
def dropPattern? : List Char → List Char → Option (List Char)
  | [], cs => some cs
  | _ :: _, [] => none
  | p :: pat, c :: cs => if p = c then dropPattern? pat cs else none

/-- The first cut of `seen.reverse ++ cs` around `pat` at or after the start of `cs`. -/
def cutFrom (pat : List Char) (seen : List Char) : List Char → Option (List Char × List Char)
  | [] => (dropPattern? pat []).map fun rest => (seen.reverse, rest)
  | c :: cs =>
    match dropPattern? pat (c :: cs) with
    | some rest => some (seen.reverse, rest)
    | none => cutFrom pat (c :: seen) cs

/-- The text before and the text after the first occurrence of `pat`. -/
def cutAt? (pat cs : List Char) : Option (List Char × List Char) :=
  cutFrom pat [] cs

/-- The number of characters before the first occurrence of `pat`. -/
def indexOf? (pat cs : List Char) : Option Nat :=
  (cutAt? pat cs).map fun cut => cut.1.length

/-- At most `bound + 1` pieces of a text, cut at the first `bound` occurrences of `pat`; the last
piece keeps the rest. -/
def piecesWithin (pat : List Char) : Nat → List Char → List (List Char)
  | 0, cs => [cs]
  | bound + 1, cs =>
    match cutAt? pat cs with
    | some (before, rest) => before :: piecesWithin pat bound rest
    | none => [cs]

/-- The pieces of a text between all occurrences of a non-empty `pat`. There are no more
occurrences than characters, so the length of the text bounds the number of cuts. -/
def pieces (pat cs : List Char) : List (List Char) :=
  piecesWithin pat cs.length cs

/-- At most `count` pieces of a text, for a positive `count`; the last piece keeps the rest. -/
def piecesUpTo (count : Nat) (pat cs : List Char) : List (List Char) :=
  piecesWithin pat (min (count - 1) cs.length) cs

/-- The text with every occurrence of the non-empty `pat` replaced by `new`. -/
def replaceAll (pat new cs : List Char) : List Char :=
  new.intercalate (pieces pat cs)

end LineScript.Text
