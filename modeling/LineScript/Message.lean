set_option relaxedAutoImplicit false
set_option autoImplicit false

/-!
# Messages

What goes wrong while a script runs is recorded in a log of messages, each with the place where it
happened.

## Main definitions

* `LineScript.Level` — how severe a message is, in increasing order.
* `LineScript.ErrorKind` — what a problem is about.
* `LineScript.Message` — one recorded message, and `LineScript.Message.render` its text.
-/

namespace LineScript

/-- The severity of a message. Only errors end the run of a source. -/
inductive Level where
  | notice
  | warning
  | error
  deriving Repr, DecidableEq

/-- The rank of a level, in order of severity. -/
def Level.rank : Level → Nat
  | .notice => 0
  | .warning => 1
  | .error => 2

/-- The name of a level in messages. -/
def Level.name : Level → String
  | .notice => "NOTICE"
  | .warning => "WARNING"
  | .error => "ERROR"

/-- A coarse classification of problems. -/
inductive ErrorKind where
  | malformed
  | naming
  | typing
  | arithmetic
  | scoping
  | loading
  | internal
  deriving Repr, DecidableEq

/-- A recorded message. Messages that carry silenced output have no kind. -/
structure Message where
  level : Level
  kind : Option ErrorKind
  text : String
  zone : Option String
  line : Nat
  deriving Repr, DecidableEq

/-- The message with its level and place. -/
def Message.render (m : Message) : String :=
  let place := match m.zone with
    | some zone => " in " ++ zone
    | none => ""
  m.level.name ++ ": " ++ m.text ++ place ++ " on line " ++ toString m.line

end LineScript
