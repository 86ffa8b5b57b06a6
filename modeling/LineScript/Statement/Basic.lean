import LineScript.Nesting
import LineScript.Pattern
import LineScript.Store

set_option relaxedAutoImplicit false
set_option autoImplicit false

/-!
# Statements

Every line of a source that is neither blank nor a comment is one statement, recognised by its
first word. A word that is no keyword calls the function of that name. Formulas inside a statement
are kept as text: they are read each time the statement runs.

## Main definitions

* `LineScript.Statement` — the statements.
* `LineScript.LineShape`, `LineScript.LineShape.ofLine` — whether a line opens or ends a block,
  told from its first word alone.
* `LineScript.Assignment.parseList` — a list of names with optional initial values.
-/

namespace LineScript

/-- What a `set` statement does with the value it computes. -/
inductive AssignMode where
  | replace
  | add
  | sub
  | mul
  | div
  deriving Repr, DecidableEq

/-- A statement. -/
inductive Statement where
  | giveBack (src : Option String)
  | echo (src : String)
  | eval (src : String)
  | load (src : String)
  | enterNamespace (src : Option String)
  | declare (lifetime : Lifetime) (list : String)
  | set (path : String) (mode : AssignMode) (src : String)
  | branch (condition : String)
  | otherwiseIf (condition : String)
  | otherwise
  | loop (condition : String)
  | count (name start stop : String) (step : Option String)
  | each (name src : String)
  | function (name : String) (params : Option String)
  | close
  | call (name : String) (args : Option String)
  deriving Repr, DecidableEq

/-- What a line means for the nesting of blocks. -/
inductive LineShape where
  | opener
  | closer
  | other
  deriving Repr, DecidableEq

/-- The first words that open a block. -/
def openerWords : List String :=
  ["if", "while", "for", "foreach", "function", "macro"]

/-- The shape of a line, by the characters before its first blank. -/
def LineShape.ofLine (line : String) : LineShape :=
  let word := String.ofList (Text.firstWord line.toList)
  if openerWords.contains word then .opener
  else if word = "end" then .closer
  else .other

/-- The name and the initial value, as text, of an item of a list of declarations or
parameters. -/
structure Assignment where
  name : String
  init : Option String
  deriving Repr, DecidableEq

namespace Assignment

/-- An item of a list of declarations or parameters. -/
def parse (item : String) : Except ScriptError Assignment :=
  match Pattern.assignment? item.toList with
  | some (name, init) => .ok ⟨name, init⟩
  | none => .error (.invalidSyntax .assignmentList)

/-- The items of a list of declarations or parameters. -/
def parseList (list : String) : Except ScriptError (List Assignment) :=
  match splitList list with
  | .error e => .error e
  | .ok items => items.mapM parse

/-- An item is read off an assignment. -/
theorem assignment?_of_parse {text : String} {item : Assignment} (h : parse text = .ok item) :
    Pattern.assignment? text.toList = some (item.name, item.init) := by
  rw [parse] at h
  cases hassignment : Pattern.assignment? text.toList with
  | none => simp [hassignment] at h
  | some found =>
    simp only [hassignment] at h
    cases h
    rfl

/-- A list of assignments is split into its items, each of which is read. -/
theorem exists_of_parseList {list : String} {items : List Assignment}
    (h : parseList list = .ok items) :
    ∃ texts, splitList list = .ok texts ∧ texts.mapM parse = .ok items := by
  rw [parseList] at h
  cases hsplit : splitList list with
  | error e => simp [hsplit] at h
  | ok texts => exact ⟨texts, rfl, by simpa only [hsplit] using h⟩

end Assignment

end LineScript
