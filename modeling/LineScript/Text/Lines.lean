set_option relaxedAutoImplicit false
set_option autoImplicit false

/-!
# Lines of a text

A source text is run line by line. A line ends at a line feed; one carriage return right before
that line feed belongs to the line end, any other carriage return is an ordinary character. A text
that ends with a line feed has no further, empty line after it.

## Main definitions

* `LineScript.Text.lines` — the lines of a text, in order.
-/

namespace LineScript.Text

/-- A line read up to its line feed, without the carriage return before the line feed. The line is
given back to front, as it was gathered. -/
def endLine : List Char → String
  | '\r' :: rest => String.ofList rest.reverse
  | gathered => String.ofList gathered.reverse

/-- The lines of a text whose current line has been gathered, back to front, in `gathered`. -/
def linesFrom (gathered : List Char) : List Char → List String
  | [] => if gathered.isEmpty then [] else [String.ofList gathered.reverse]
  | '\n' :: rest => endLine gathered :: linesFrom [] rest
  | c :: rest => linesFrom (c :: gathered) rest

/-- The lines of a text, without their line ends. -/
def lines (s : String) : List String :=
  linesFrom [] s.toList

end LineScript.Text
