import LineScript.Action
import LineScript.Formula.Polish
import LineScript.Pattern
import LineScript.Quoted

set_option relaxedAutoImplicit false
set_option autoImplicit false

/-!
# Evaluation of formulas

The tokens of a formula are evaluated from left to right on a stack of values. Reading a variable
and calling a function is left to a *host*, over whose state the evaluation runs. The text of a
collection or call literal holds formulas of its own, which are evaluated when the literal is
reached; they are shorter than the formula around them, so the length of a formula bounds how deep
they nest.

## Main definitions

* `LineScript.Host` — reading variables and calling functions.
* `LineScript.Formula.stepToken` — the stack after one more token.
* `LineScript.Formula.evaluateTokens`, `LineScript.Formula.evaluate`,
  `LineScript.Formula.evaluateList` — the value of a token list, of a formula and of each item of a
  list of formulas.
* `LineScript.Formula.interpolate` — the text of a double-quoted literal.
-/

namespace LineScript

/-- What formulas need from their surroundings. -/
structure Host (σ : Type) where
  readVariable : String → Action σ Value
  callFunction : String → List Value → Action σ Value

namespace Formula

variable {σ : Type}

/-- The text of a part of a double-quoted literal. -/
def segmentText (host : Host σ) : Quoted.Segment → Action σ String
  | .char c => pure c.toString
  | .reference path => do
    let v ← host.readVariable path
    pure v.text

/-- The text of a double-quoted literal, with every reference replaced by the text of its
variable. -/
def interpolate (host : Host σ) (s : String) : Action σ String := do
  let texts ← (Quoted.segments s.toList).mapM (segmentText host)
  pure (String.join texts)

/-- The values of the items of a list, from left to right. -/
def evaluateItems (inner : String → Action σ Value) (src : String) : Action σ (List Value) := do
  let items ← Action.ofExcept (splitList src)
  items.mapM inner

/-- A collection with one more item, named or pushed. -/
def addItem (inner : String → Action σ Value) (c : Collection Value) (item : String) :
    Action σ (Collection Value) :=
  match Pattern.keyed? item.toList with
  | some (name, src) => do
    let v ← inner src
    pure (c.insert (.name name) v)
  | none => do
    let v ← inner item
    pure (c.push v)

/-- The collection of a collection literal. -/
def evaluateCollection (inner : String → Action σ Value) (src : String) :
    Action σ (Collection Value) := do
  let items ← Action.ofExcept (splitList src)
  items.foldlM (addItem inner) Collection.empty

/-- The result of a call literal: its arguments are evaluated, then its function is called. -/
def evaluateCall (host : Host σ) (inner : String → Action σ Value) (src : String) :
    Action σ Value :=
  match Pattern.command? Pattern.isQualifiedChar true (Text.trimChars src.toList) with
  | none => throw (.invalidSyntax .functionCall)
  | some (name, none) => host.callFunction name []
  | some (name, some args) => do
    let vs ← evaluateItems inner args
    host.callFunction name vs

/-- The stack after one more token. An operator takes its operands from the stack. -/
def stepToken (host : Host σ) (inner : String → Action σ Value) (stack : List Value) :
    Token → Action σ (List Value)
  | .operator op =>
    match stack with
    | rhs :: lhs :: rest => do
      let v ← Action.ofExcept (op.apply lhs rhs)
      pure (v :: rest)
    | _ => throw .missingOperand
  | .negation =>
    match stack with
    | v :: rest => pure (v.negated :: rest)
    | [] => throw .missingOperand
  | .number x => pure (.number x :: stack)
  | .bool b => pure (.bool b :: stack)
  | .null => pure (.null :: stack)
  | .word s => throw (.invalidValue s)
  | .singleQuoted s => pure (.str (String.ofList (Quoted.unescape s.toList)) :: stack)
  | .doubleQuoted s => do
    let text ← interpolate host s
    pure (.str text :: stack)
  | .collection src => do
    let c ← evaluateCollection inner src
    pure (.collection c :: stack)
  | .call src => do
    let v ← evaluateCall host inner src
    pure (v :: stack)
  | .reference path => do
    let v ← host.readVariable path
    pure (v :: stack)

/-- The value of a token list, where `inner` evaluates the formulas inside literals. -/
def evaluateTokensWith (host : Host σ) (inner : String → Action σ Value) (tokens : List Token) :
    Action σ Value := do
  let stack ← tokens.foldlM (stepToken host inner) []
  match stack with
  | [v] => pure v
  | _ => throw .internal

/-- The value of a formula whose literals nest less than `depth` deep. -/
def evaluateWithin (host : Host σ) : Nat → String → Action σ Value
  | 0, _ => Action.stop .outOfSteps
  | depth + 1, src => do
    let tokens ← Action.ofExcept (tokens src)
    evaluateTokensWith host (evaluateWithin host depth) tokens

/-- The value of a formula. -/
def evaluate (host : Host σ) (src : String) : Action σ Value :=
  evaluateWithin host (src.length + 1) src

/-- The value of a token list. -/
def evaluateTokens (host : Host σ) (tokens : List Token) : Action σ Value :=
  evaluateTokensWith host (evaluate host) tokens

/-- The values of a list of formulas, from left to right. -/
def evaluateList (host : Host σ) (src : String) : Action σ (List Value) :=
  evaluateItems (evaluate host) src

end Formula

end LineScript
