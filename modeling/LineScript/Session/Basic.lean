import LineScript.Action
import LineScript.Library
import LineScript.Settings
import LineScript.Store

set_option relaxedAutoImplicit false
set_option autoImplicit false

/-!
# Sessions

A session is what lasts from one source to the next: the variables, the functions, the output and
the log. It also knows the place, a zone and a line, that messages carry.

Problems below the level of an error are logged, and the statement they arose in is skipped. An
error is logged once, where it happened, and from then on passes outwards as *raised*.

## Main definitions

* `LineScript.Loaded`, `LineScript.Loader` — how the source of an import is found.
* `LineScript.Session` — the state; `LineScript.Session.ofSettings` starts one.
* `LineScript.Session.record`, `report`, `raise`, `recover` — the ways into the log.
* `LineScript.Session.readVariable` — a variable as formulas read it.
* `LineScript.Session.settle` — what an error becomes at the end of a source.
-/

namespace LineScript

/-- The answer to a request for a source: its text, the reason why there is none, or the path of a
file that has not been read. -/
inductive Loaded where
  | text (code : String)
  | missing (reason : String)
  | unread (path : String)
  deriving Repr, DecidableEq

/-- How the source of an import is found. -/
abbrev Loader : Type :=
  String → Loaded

/-- The state that lasts from one source to the next. -/
structure Session where
  store : Store := Store.empty
  functions : FunctionTable := FunctionTable.empty
  output : Array String := #[]
  settings : Settings := {}
  scope : Option String := none
  zone : Option String := none
  line : Nat := 0
  log : Array Message := #[]
  loader : Option Loader := none

namespace Session

/-- The table with the named libraries. Names of no library, and functions whose names are taken,
are left out. -/
def addLibraries (t : FunctionTable) (names : List String) : FunctionTable :=
  names.foldl (fun t name =>
    match Library.find? name with
    | some entries => (FunctionTable.addLibrary name entries t).2
    | none => t) t

/-- A new session with the libraries that the settings ask for. -/
def ofSettings (settings : Settings) (loader : Option Loader) : Session :=
  { settings := settings
    functions := addLibraries FunctionTable.empty settings.libs
    loader := loader }

/-- A message at the current place. -/
def message (s : Session) (level : Level) (kind : Option ErrorKind) (text : String) : Message :=
  { level := level, kind := kind, text := text, zone := s.zone, line := s.line }

/-- The session with one more message in its log. -/
def logged (s : Session) (m : Message) : Session :=
  { s with log := s.log.push m }

/-- A message is logged, and given back. -/
def record (level : Level) (kind : Option ErrorKind) (text : String) : Action Session Message := do
  let s ← get
  let m := s.message level kind text
  set (s.logged m)
  pure m

/-- A failure is logged at its own level. -/
def report (e : ScriptError) : Action Session Unit := do
  let _ ← record e.level (some e.kind) e.text
  pure ()

/-- A failure is logged as an error and raised. One that was raised before is passed on. -/
def raise {α : Type} (e : ScriptError) : Action Session α :=
  match e with
  | .raised m => throw (.raised m)
  | e => do
    let m ← record .error (some e.kind) e.text
    throw (.raised m)

/-- A failed statement is logged. Below the level of an error this is all; an error is raised. -/
def recover (e : ScriptError) : Action Session Unit :=
  match e with
  | .raised m => throw (.raised m)
  | e => if e.recoverable then report e else raise e

/-- A variable as formulas read it: a missing key is logged and reads as null. -/
def readVariable (path : String) : Action Session Value := do
  let s ← get
  match s.store.get path with
  | .ok v => pure v
  | .error e =>
    if e.recoverable then do
      report e
      pure .null
    else throw e

/-- The outcome of a source. Unless errors are to be thrown, an error that was raised ends the
source with `false`. -/
def settle (settings : Settings) : Except ScriptError Value → Except ScriptError Value
  | .error (.raised m) => if settings.throwErrors then .error (.raised m) else .ok (.bool false)
  | outcome => outcome

/-- The session with the variables changed, unless the change fails. -/
def updateStore (change : Store → Except ScriptError Store) : Action Session Unit := do
  let s ← get
  match change s.store with
  | .ok store => set { s with store := store }
  | .error e => throw e

end Session

end LineScript
