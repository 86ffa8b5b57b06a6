import LineScript.Text.WordChar

set_option relaxedAutoImplicit false
set_option autoImplicit false

/-!
# Text between quotes

Between single quotes a backslash stands for itself except before a quote or another backslash.
Between double quotes it also stands before a dollar sign and for line feeds and tabs, and `$path`
refers to a variable. A path ends before its trailing dots, so that `"$name."` ends a sentence.

## Main definitions

* `LineScript.Quoted.unescape` — the text of a single-quoted literal.
* `LineScript.Quoted.Segment`, `LineScript.Quoted.segments` — a double-quoted literal as characters
  and references.
-/

namespace LineScript.Quoted

/-- The text between single quotes, with `\'` and `\\` replaced by their second character. -/
def unescape : List Char → List Char
  | [] => []
  | '\\' :: '\'' :: cs => '\'' :: unescape cs
  | '\\' :: '\\' :: cs => '\\' :: unescape cs
  | c :: cs => c :: unescape cs

/-- A part of a double-quoted literal. -/
inductive Segment where
  | char (c : Char)
  | reference (path : String)
  deriving Repr, DecidableEq

/-- What a backslash and the character after it stand for between double quotes. -/
def escape? : Char → Option Char
  | '"' => some '"'
  | '\'' => some '\''
  | '\\' => some '\\'
  | '$' => some '$'
  | 'n' => some '\n'
  | 't' => some '\t'
  | _ => none

/-- The path at the start of a text, without trailing dots; none if no name starts there. -/
def path? : List Char → Option (List Char)
  | [] => none
  | c :: cs =>
    if Text.isNameStart c then
      some (((c :: cs).takeWhile Text.isPathChar).reverse.dropWhile (· == '.')).reverse
    else none

/-- The parts of the text between double quotes. -/
def segments : List Char → List Segment
  | [] => []
  | '\\' :: [] => [.char '\\']
  | '\\' :: e :: cs =>
    match escape? e with
    | some c => .char c :: segments cs
    | none => .char '\\' :: segments (e :: cs)
  | c :: cs =>
    if c = '$' then
      match path? cs with
      | some path => .reference (String.ofList path) :: segments (cs.drop path.length)
      | none => .char c :: segments cs
    else .char c :: segments cs
termination_by cs => cs.length
decreasing_by
  all_goals simp only [List.length_cons, List.length_drop]
  all_goals omega

end LineScript.Quoted
