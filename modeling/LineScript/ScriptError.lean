import LineScript.Message
import LineScript.Value.Basic

set_option relaxedAutoImplicit false
set_option autoImplicit false

/-!
# Errors of scripts

Every failure is a `ScriptError`: a cause, from which its kind, its level and its text follow. Below
the level of an error the statement that failed is skipped and the run goes on.

## Main definitions

* `LineScript.Delimiter`, `LineScript.Construct`, `LineScript.BranchWord` — what a cause refers to.
* `LineScript.ScriptError` — the causes.
* `LineScript.ScriptError.kind`, `LineScript.ScriptError.level`, `LineScript.ScriptError.text` —
  classification, severity and wording.
-/

namespace LineScript

/-- The delimited literals of formulas. -/
inductive Delimiter where
  | string
  | collection
  | call
  deriving Repr, DecidableEq

/-- The name of a delimiter in messages. -/
def Delimiter.name : Delimiter → String
  | .string => "string"
  | .collection => "collection"
  | .call => "function call"

/-- The constructs whose form can be wrong. -/
inductive Construct where
  | declaration
  | setStatement
  | forBlock
  | foreachBlock
  | functionDefinition
  | assignmentList
  | functionCall
  deriving Repr, DecidableEq

/-- The name of a construct in messages. -/
def Construct.name : Construct → String
  | .declaration => "declaration"
  | .setStatement => "set statement"
  | .forBlock => "for block"
  | .foreachBlock => "foreach block"
  | .functionDefinition => "function definition"
  | .assignmentList => "assignment list"
  | .functionCall => "function call"

/-- The statements that continue an `if` block. -/
inductive BranchWord where
  | otherwise
  | otherwiseIf
  deriving Repr, DecidableEq

/-- The keyword of a branch. -/
def BranchWord.keyword : BranchWord → String
  | .otherwise => "else"
  | .otherwiseIf => "elseif"

/-- The causes of failure. -/
inductive ScriptError where
  | invalidCommand
  | invalidSyntax (construct : Construct)
  | unexpectedChar (c : Char)
  | unexpectedOperator (c : Char)
  | unexpectedCloseParen
  | missingCloseParen
  | unexpectedCloser (delimiter : Delimiter)
  | unterminated (delimiter : Delimiter)
  | missingOperand
  | danglingBranch (word : BranchWord)
  | unexpectedBlockEnd
  | missingBlockEnd
  | invalidStep
  | undefinedVariable (name : String)
  | undefinedKey (path : String)
  | undefinedFunction (name : String)
  | redeclare (name : String)
  | redefine (name : String)
  | invalidValue (word : String)
  | missingArgument (function param : String)
  | invalidKey (path segment : String)
  | subvalueDeclaration (path : String)
  | notIndexable (path : String) (found : ValueKind)
  | notACollection
  | badArgument (function detail : String)
  | divisionByZero
  | assignConst (name : String)
  | load (file reason : String)
  | internal
  | raised (message : Message)
  deriving Repr, DecidableEq

namespace ScriptError

/-- What a failure is about. An error that was raised keeps the kind of its message. -/
def kind : ScriptError → ErrorKind
  | .invalidCommand | .invalidSyntax _ | .unexpectedChar _ | .unexpectedOperator _
  | .unexpectedCloseParen | .missingCloseParen | .unexpectedCloser _ | .unterminated _
  | .missingOperand | .danglingBranch _ | .unexpectedBlockEnd | .missingBlockEnd
  | .invalidStep => .malformed
  | .undefinedVariable _ | .undefinedKey _ | .undefinedFunction _ | .redeclare _ | .redefine _
  | .invalidValue _ | .missingArgument _ _ => .naming
  | .invalidKey _ _ | .subvalueDeclaration _ | .notIndexable _ _ | .notACollection
  | .badArgument _ _ => .typing
  | .divisionByZero => .arithmetic
  | .assignConst _ => .scoping
  | .load _ _ => .loading
  | .internal => .internal
  | .raised message => message.kind.getD .internal

/-- How severe a failure is. -/
def level : ScriptError → Level
  | .undefinedKey _ => .notice
  | .redeclare _ | .assignConst _ | .invalidKey _ _ | .subvalueDeclaration _ | .invalidValue _
  | .missingArgument _ _ | .divisionByZero | .notIndexable _ _ | .badArgument _ _ => .warning
  | _ => .error

/-- Whether the run goes on after the failure. -/
def recoverable (e : ScriptError) : Bool :=
  e.level != .error

/-- A name between the braces of a call. -/
def braced (name : String) : String :=
  "\x7b" ++ name ++ "\x7d"

/-- The wording of a failure. -/
def text : ScriptError → String
  | .invalidCommand => "Invalid command"
  | .invalidSyntax construct => "Invalid syntax in " ++ construct.name
  | .unexpectedChar c => "Unexpected character '" ++ c.toString ++ "'"
  | .unexpectedOperator c => "Unexpected operator '" ++ c.toString ++ "'"
  | .unexpectedCloseParen => "Unexpected closing parenthesis"
  | .missingCloseParen => "Missing closing parenthesis"
  | .unexpectedCloser delimiter => "Unexpected closing " ++ delimiter.name ++ " delimiter"
  | .unterminated delimiter => "Missing closing " ++ delimiter.name ++ " delimiter"
  | .missingOperand => "Invalid or missing operand"
  | .danglingBranch word => "Unexpected " ++ word.keyword ++ " without an open if block"
  | .unexpectedBlockEnd => "Unexpected block end"
  | .missingBlockEnd => "Missing block end"
  | .invalidStep => "Invalid step in for block"
  | .undefinedVariable name => "Undefined variable $" ++ name
  | .undefinedKey path => "Undefined key in $" ++ path
  | .undefinedFunction name => "Call to undefined function " ++ braced name
  | .redeclare name => "Cannot redeclare variable $" ++ name
  | .redefine name => "Cannot redefine function " ++ braced name
  | .invalidValue word => "Invalid value '" ++ word ++ "'"
  | .missingArgument function param =>
    "No default value for argument $" ++ param ++ " of " ++ braced function
  | .invalidKey path segment =>
    "Invalid key name '" ++ segment ++ "' for variable $" ++ path
  | .subvalueDeclaration path => "Declaring a variable's subvalue is illegal ($" ++ path ++ ")"
  | .notIndexable path found => "Cannot use " ++ found.name ++ " $" ++ path ++ " as a collection"
  | .notACollection => "Invalid argument supplied for foreach block"
  | .badArgument function detail => function ++ ": " ++ detail
  | .divisionByZero => "Division by zero"
  | .assignConst name => "Cannot set constant $" ++ name
  | .load file reason => "Could not open script file '" ++ file ++ "': " ++ reason
  | .internal => "Unexpected internal error"
  | .raised message => "hades: " ++ message.render

end ScriptError

end LineScript
