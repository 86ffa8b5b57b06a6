import LineScript.Formula.Evaluation
import LineScript.Session.Basic

set_option relaxedAutoImplicit false
set_option autoImplicit false

/-!
# Calling functions and loading sources

Calls and imports run further sources. How a source is run is a parameter here, so that these
actions can be used by the run of a source itself.

## Main definitions

* `LineScript.SourceRunner` — how a source is run in a zone.
* `LineScript.Session.callFunction` — a call; a source body runs with the local variables of its
  caller hidden.
* `LineScript.Session.loadSource` — an import.
* `LineScript.Session.host` — the session as the host of formulas.
-/

namespace LineScript

/-- How a source is run, in a zone that its messages name. -/
abbrev SourceRunner : Type :=
  String → Option String → Action Session Value

namespace Session

/-- A parameter becomes a local variable. If it cannot, this is logged. -/
def bindParameter (b : Binding) : Action Session Unit := do
  let outcome ← Action.attempt (updateStore fun st => st.bind b.param b.value .localScope)
  match outcome with
  | .ok () => pure ()
  | .error e => report e

/-- A body runs with fresh local variables, one for each parameter. Those of the caller come back
afterwards, whatever happened. -/
def runProtected (run : SourceRunner) (code zone : String) (bound : List Binding) :
    Action Session Value := do
  let s ← get
  let (stash, store) := s.store.detach
  set { s with store := store }
  bound.forM bindParameter
  let outcome ← Action.attempt (run code (some zone))
  modify fun s => { s with store := s.store.restore stash }
  Action.ofExcept outcome

/-- The function of a qualified name is called. Parameters without a value are logged. -/
def callFunction (run : SourceRunner) (name : String) (args : List Value) :
    Action Session Value := do
  let s ← get
  match s.functions.get? name with
  | none => throw (.undefinedFunction name)
  | some f =>
    let (bound, missing) := f.bind args
    missing.forM report
    match f.body with
    | .native native => Action.ofExcept (native (bound.map Binding.value))
    | .source code => runProtected run code (ScriptError.braced name) bound

/-- The session as the host of formulas. -/
def host (run : SourceRunner) : Host Session :=
  { readVariable := readVariable, callFunction := callFunction run }

/-- The value of a formula. -/
def evaluateWith (run : SourceRunner) (src : String) : Action Session Value :=
  Formula.evaluate (host run) src

/-- A failure to load a source is raised, and settled as the outcome of that source. -/
def refuseSource (id reason : String) : Action Session Value := do
  let outcome ← Action.attempt (raise (.load id reason))
  let s ← get
  Action.ofExcept (settle s.settings outcome)

/-- The source of an import is loaded and run in a zone of its name. -/
def loadSource (run : SourceRunner) (id : String) : Action Session Value := do
  let s ← get
  match s.loader with
  | none => refuseSource id "no source loader configured"
  | some load =>
    match load id with
    | .text code => run code (some id)
    | .missing reason => refuseSource id reason
    | .unread path => Action.stop (.awaiting path)

end Session

end LineScript
