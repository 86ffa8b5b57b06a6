import LineScript.Session.Statements
import LineScript.Text.Lines

set_option relaxedAutoImplicit false
set_option autoImplicit false

/-!
# Running sources

A source is run line by line. One step takes the line at the cursor: it is gathered into a function
body, skipped if it is blank or a comment, or read and run as a statement. Steps are repeated until
the source returns, fails or ends. Sources run from within a step take part in the same bound on the
number of steps.

## Main definitions

* `LineScript.Activation.step` — one step; it gives the result of the source once there is one.
* `LineScript.Activation.run` — the steps of a source, at most as many as allowed.
* `LineScript.Session.runSource` — a source run in its zone.
* `LineScript.Session.execute`, `executeIn`, `executeFile`, `evaluate`, `evaluateList`, `call` —
  what a host can ask of a session.
-/

namespace LineScript

namespace Activation

/-- The statement on a trimmed line is read and run. -/
def runLine (run : SourceRunner) (index : Nat) (line : String) : Action Activation Flow := do
  let st ← Action.ofExcept (Statement.parse line)
  runStatement run index st

/-- A line that belongs to the body of a function. The last one defines it. -/
def gatherLine (line : String) : Action Activation Unit := do
  let a ← get
  let (finished, blocks) := a.blocks.captureLine line
  set { a with blocks := blocks }
  match finished with
  | none => pure ()
  | some capture => do
    let outcome ← Action.attempt (onSession (Session.defineCaptured capture))
    match outcome with
    | .ok () => pure ()
    | .error e => onSession (Session.recover e)

/-- The line with index `index` is run as a statement. -/
def runOutside (run : SourceRunner) (index : Nat) (line : String) :
    Action Activation (Option Value) := do
  let outcome ← Action.attempt (runLine run index line)
  match outcome with
  | .ok .next => pure none
  | .ok (.jump header) => do
    modify fun a => { a with next := header }
    pure none
  | .ok (.finish v) => pure (some v)
  | .error e => do
    onSession (Session.recover e)
    pure none

/-- Whether a trimmed line holds no statement: if it is blank or a comment. -/
def isIdle (line : String) : Bool :=
  line = "" || line.toList.head? == some ';'

/-- The end of the source. All blocks must have ended. -/
def finish : Action Activation (Option Value) := do
  let a ← get
  if 0 < a.blocks.depth then onSession (Session.raise .missingBlockEnd)
  else pure (some (.bool true))

/-- One step: the line at the cursor. The answer is the result of the source, if it is known. -/
def step (run : SourceRunner) (lines : Array String) : Action Activation (Option Value) := do
  let a ← get
  match lines[a.next]? with
  | none => finish
  | some raw => do
    let line := Text.trim raw
    set { a with next := a.next + 1, session := { a.session with line := a.next + 1 } }
    if a.blocks.isCapturing then do
      gatherLine line
      pure none
    else if isIdle line then pure none
    else runOutside run a.next line

end Activation

namespace Session

/-- A source run in its zone by `go`. The place of the surrounding source comes back afterwards. -/
def runSource
    (go : Array String → Activation → Except Stop (Except ScriptError Value × Session)) :
    SourceRunner :=
  fun code zone => ExceptT.mk fun s =>
    match go (Text.lines code).toArray { session := { s with zone := zone } } with
    | .error reason => .error reason
    | .ok (outcome, ended) =>
      .ok (settle ended.settings outcome, { ended with zone := s.zone, line := s.line })

end Session

/-- The steps of a source, from a given point on, with at most `steps` of them. Sources run from
within a step have the steps that are left. -/
def Activation.run :
    Nat → Array String → Activation → Except Stop (Except ScriptError Value × Session)
  | 0, _, _ => .error .outOfSteps
  | steps + 1, lines, a =>
    match (step (Session.runSource (run steps)) lines).runFrom a with
    | .error reason => .error reason
    | .ok (.error e, a) => .ok (.error e, a.session)
    | .ok (.ok (some v), a) => .ok (.ok v, a.session)
    | .ok (.ok none, a) => run steps lines a

namespace Session

/-- How sources are run with at most `steps` steps. -/
def runner (steps : Nat) : SourceRunner :=
  runSource (Activation.run steps)

/-- A source is run. Its result is the value it returns, or `true` at its end. -/
def execute (steps : Nat) (code : String) : Action Session Value :=
  runner steps code none

/-- A source is run in a named zone. -/
def executeIn (steps : Nat) (code zone : String) : Action Session Value :=
  runner steps code (some zone)

/-- A source is loaded by its name and run. -/
def executeFile (steps : Nat) (id : String) : Action Session Value :=
  loadSource (runner steps) id

/-- A formula is evaluated. Its failure is not logged. -/
def evaluate (steps : Nat) (src : String) : Action Session Value :=
  evaluateWith (runner steps) src

/-- A list of formulas is evaluated. -/
def evaluateList (steps : Nat) (src : String) : Action Session (List Value) :=
  Formula.evaluateList (host (runner steps)) src

/-- A function is called. -/
def call (steps : Nat) (name : String) (args : List Value) : Action Session Value :=
  callFunction (runner steps) name args

/-- A library is added inside a namespace. -/
def addLibrary (scope : String) (entries : List LibraryEntry) : Action Session Unit := do
  let s ← get
  let (outcome, functions) := s.functions.addLibrary scope entries
  set { s with functions := functions }
  Action.ofExcept outcome

/-- A function of the host is added. -/
def addNative (scope : Option String) (f : Function) : Action Session Unit := do
  let s ← get
  match s.functions.define scope f with
  | .ok functions => set { s with functions := functions }
  | .error e => throw e

end Session

end LineScript
