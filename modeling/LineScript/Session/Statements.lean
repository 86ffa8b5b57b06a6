import LineScript.Block
import LineScript.Session.Call
import LineScript.Statement.Parser

set_option relaxedAutoImplicit false
set_option autoImplicit false

/-!
# Running statements

What each statement does to a session, and the headers of blocks to the open blocks. Headers of
blocks count for the nesting even where statements are skipped.

## Main definitions

* `LineScript.Activation` — a source being run: the session, its open blocks and the next line.
* `LineScript.Flow` — where the run goes on after a statement.
* `LineScript.Session.runSimple` — the statements that have nothing to do with blocks.
* `LineScript.Activation.runStatement` — any statement.
-/

namespace LineScript

/-- A source being run. -/
structure Activation where
  session : Session
  blocks : BlockStack := BlockStack.start
  next : Nat := 0

/-- Where the run goes on: at the next line, at another line, or with a result. -/
inductive Flow where
  | next
  | jump (line : Nat)
  | finish (v : Value)

/-- The value that an assignment writes over `current`. -/
def AssignMode.combine : AssignMode → Value → Value → Except ScriptError Value
  | .replace, _, rhs => .ok rhs
  | .add, current, rhs => .ok (current.plus rhs)
  | .sub, current, rhs => .ok (current.minus rhs)
  | .mul, current, rhs => .ok (current.times rhs)
  | .div, current, rhs => (current.over? rhs).elim (.error .divisionByZero) .ok

namespace Session

/-- The output of `echo`: a line of output, or a notice if output is silenced. -/
def echo (text : String) : Action Session Unit := do
  let s ← get
  if s.settings.silent then do
    let _ ← record .notice none text
    pure ()
  else set { s with output := s.output.push text }

/-- The initial value of a declaration or parameter; null if there is none. -/
def initialValue (run : SourceRunner) : Option String → Action Session Value
  | some src => evaluateWith run src
  | none => pure .null

/-- One item of a declaration. A name that cannot be declared is logged. -/
def declareItem (run : SourceRunner) (lifetime : Lifetime) (item : Assignment) :
    Action Session Unit := do
  let v ← initialValue run item.init
  let outcome ← Action.attempt (updateStore fun st => st.declare item.name v lifetime)
  match outcome with
  | .ok () => pure ()
  | .error e => recover e

/-- The value that an assignment starts from: that at the path, or null if there is no such
variable. A plain assignment reads nothing. -/
def currentValue (path : String) (mode : AssignMode) : Action Session Value := do
  let s ← get
  if mode = .replace then pure .null
  else if s.store.contains (Path.baseName path) then readVariable path
  else pure .null

/-- An assignment. A constant is refused before anything is evaluated. -/
def assign (run : SourceRunner) (path : String) (mode : AssignMode) (src : String) :
    Action Session Unit := do
  let s ← get
  if s.store.lifetime? (Path.baseName path) = some .constant then
    throw (.assignConst (Path.baseName path))
  else do
    let rhs ← evaluateWith run src
    let current ← currentValue path mode
    let v ← Action.ofExcept (mode.combine current rhs)
    updateStore fun st => st.set path v

/-- A counting loop is opened: its bounds are evaluated and its variable starts at the first. The
step follows the direction from start to stop. -/
def openCount (run : SourceRunner) (name start stop : String) (step : Option String) :
    Action Session ForRange := do
  let first ← evaluateWith run start
  let last ← evaluateWith run stop
  let width ←
    match step with
    | some src => do
      let v ← evaluateWith run src
      pure v.toNumber.abs
    | none => pure 1.0
  if width == 0.0 || width.isNaN then throw .invalidStep
  else do
    let low := first.toNumber
    let high := last.toNumber
    let signed := if low < high then width else if high < low then -width else 0.0
    updateStore fun st => st.bind name (.number low) .localScope
    pure ⟨name, high, signed⟩

/-- A counting loop comes round: its variable moves by one step, unless that passes the stop. The
answer tells whether the body runs again. -/
def advanceCount (range : ForRange) : Action Session Bool :=
  if range.step == 0.0 then pure false
  else do
    let s ← get
    let v ← Action.ofExcept (s.store.get range.name)
    let next := v.toNumber + range.step
    let more : Bool := if 0.0 < range.step then next ≤ range.stop else range.stop ≤ next
    if more then do
      updateStore fun st => st.set range.name (.number next)
      pure true
    else pure false

/-- The definition with one more parameter, whose default is evaluated. -/
def addParameter (run : SourceRunner) (capture : Capture) (item : Assignment) :
    Action Session Capture :=
  match item.init with
  | none => pure { capture with params := capture.params ++ [item.name] }
  | some src => do
    let v ← evaluateWith run src
    pure { capture with
      params := capture.params ++ [item.name]
      defaults := Assoc.insert item.name v capture.defaults }

/-- The header of a function: its name must be free, and the defaults are evaluated. -/
def prepareCapture (run : SourceRunner) (name : String) (params : Option String) :
    Action Session Capture := do
  let s ← get
  if s.functions.contains name then throw (.redefine name)
  else do
    let items ← Action.ofExcept (Assignment.parseList (params.getD ""))
    items.foldlM (addParameter run) { name := name, register := true }

/-- A gathered function is defined, if it is to be registered. -/
def defineCaptured (capture : Capture) : Action Session Unit :=
  if capture.register then do
    let s ← get
    let f : Function :=
      { name := capture.name
        params := capture.params
        defaults := capture.defaults
        body := .source capture.body }
    match s.functions.define none f with
    | .ok functions => set { s with functions := functions }
    | .error e => throw e
  else pure ()

/-- The statements that neither open nor end a block, in an active block. -/
def runSimple (run : SourceRunner) : Statement → Action Session Flow
  | .giveBack src => do
    let v ← initialValue run src
    pure (.finish v)
  | .echo src => do
    let v ← evaluateWith run src
    echo v.text
    pure .next
  | .eval src => do
    let v ← evaluateWith run src
    let s ← get
    let _ ← run v.text s.zone
    pure .next
  | .load src => do
    let v ← evaluateWith run src
    let _ ← loadSource run v.text
    pure .next
  | .enterNamespace none => do
    modify fun s => { s with scope := none }
    pure .next
  | .enterNamespace (some src) => do
    let v ← evaluateWith run src
    modify fun s => { s with scope := some v.text }
    pure .next
  | .declare lifetime list => do
    let items ← Action.ofExcept (Assignment.parseList list)
    items.forM (declareItem run lifetime)
    pure .next
  | .set path mode src => do
    assign run path mode src
    pure .next
  | .call name none => do
    let _ ← callFunction run name []
    pure .next
  | .call name (some args) => do
    let vs ← Formula.evaluateList (host run) args
    let _ ← callFunction run name vs
    pure .next
  | _ => pure .next

end Session

namespace Activation

/-- An action on the session. -/
def onSession {α : Type} (act : Action Session α) : Action Activation α :=
  Action.zoom Activation.session (fun s a => { a with session := s }) act

/-- A block is entered. -/
def enter (kind : BlockKind) (header : Nat) : Action Activation Entry := do
  let a ← get
  let (entry, blocks) := a.blocks.enter kind header
  set { a with blocks := blocks }
  pure entry

/-- The innermost frame is changed. -/
def modifyFrame (f : Frame → Frame) : Action Activation Unit :=
  modify fun a => { a with blocks := a.blocks.modifyCurrent f }

/-- The header of an `if` block. -/
def openBranch (run : SourceRunner) (condition : String) (header : Nat) :
    Action Activation Unit := do
  let entry ← enter .branch header
  if entry.outerActive then do
    let v ← onSession (Session.evaluateWith run condition)
    modifyFrame fun frame => { frame with active := v.truth, branchTaken := v.truth }
  else pure ()

/-- An `elseif`: its condition is evaluated only if no branch has been taken. -/
def continueBranch (run : SourceRunner) (condition : String) : Action Activation Unit := do
  let a ← get
  let (frame, outerActive) ← Action.ofExcept (a.blocks.branchFrame .otherwiseIf)
  if outerActive && !frame.branchTaken then do
    let v ← onSession (Session.evaluateWith run condition)
    modifyFrame fun frame => { frame with active := v.truth, branchTaken := v.truth }
  else modifyFrame fun frame => { frame with active := false }

/-- An `else`. -/
def lastBranch : Action Activation Unit := do
  let a ← get
  let (frame, outerActive) ← Action.ofExcept (a.blocks.branchFrame .otherwise)
  modifyFrame fun _ =>
    { frame with active := outerActive && !frame.branchTaken, branchTaken := true }

/-- The header of a `while` block. -/
def openLoop (run : SourceRunner) (condition : String) (header : Nat) : Action Activation Unit := do
  let entry ← enter .loop header
  if entry.outerActive then do
    let v ← onSession (Session.evaluateWith run condition)
    modifyFrame fun frame => { frame with active := v.truth }
  else pure ()

/-- The header of a counting loop, reached from above or coming round. -/
def openCount (run : SourceRunner) (name start stop : String) (step : Option String)
    (header : Nat) : Action Activation Unit := do
  let entry ← enter (.count none) header
  if entry.outerActive then
    if entry.revisit then do
      let a ← get
      match a.blocks.current?.map Frame.kind with
      | some (.count (some range)) => do
        let more ← onSession (Session.advanceCount range)
        modifyFrame fun frame => { frame with active := more }
      | _ => throw .internal
    else do
      let range ← onSession (Session.openCount run name start stop step)
      modifyFrame fun frame => { frame with kind := .count (some range), active := true }
  else pure ()

/-- The record of an entry that a `foreach` block sees. -/
def entryRecord (key : Key) (v : Value) : Value :=
  .collection (Collection.ofEntries [(.name "key", .ofKey key), (.name "value", v)])

/-- The header of a `foreach` block. The collection is evaluated anew for every pass. -/
def openEach (run : SourceRunner) (name src : String) (header : Nat) : Action Activation Unit := do
  let entry ← enter .each header
  if entry.outerActive then do
    let v ← onSession (Session.evaluateWith run src)
    match v with
    | .collection items => do
      let a ← get
      let offset := (a.blocks.current?.map Frame.iteration).getD 0
      modifyFrame fun frame => { frame with iteration := frame.iteration + frame.step }
      match items.entryAt? offset with
      | none => pure ()
      | some (key, item) => do
        onSession (Session.updateStore fun st => st.bind name (entryRecord key item) .localScope)
        modifyFrame fun frame => { frame with active := true }
    | _ => throw .notACollection
  else pure ()

/-- From here on the body of a function is gathered. -/
def beginCapture (capture : Capture) (header : Nat) : Action Activation Unit :=
  modify fun a => { a with blocks := a.blocks.beginCapture capture header }

/-- The header of a function. Where statements are skipped, or if the header fails, the body is
gathered without being registered. -/
def openFunction (run : SourceRunner) (name : String) (params : Option String) (header : Nat) :
    Action Activation Unit := do
  let a ← get
  let qualified := qualify a.session.scope name
  if a.blocks.active then do
    let outcome ← Action.attempt (onSession (Session.prepareCapture run qualified params))
    match outcome with
    | .ok capture => beginCapture capture header
    | .error e => do
      beginCapture { name := qualified } header
      throw e
  else beginCapture { name := qualified } header

/-- The end of a block: a loop goes back to its header. -/
def close : Action Activation Flow := do
  let a ← get
  let (jump, blocks) ← Action.ofExcept a.blocks.close
  set { a with blocks := blocks }
  match jump with
  | some line => pure (.jump line)
  | none => pure .next

/-- A statement on the line with index `index`. -/
def runStatement (run : SourceRunner) (index : Nat) (st : Statement) : Action Activation Flow :=
  match st with
  | .branch condition => do
    openBranch run condition index
    pure .next
  | .otherwiseIf condition => do
    continueBranch run condition
    pure .next
  | .otherwise => do
    lastBranch
    pure .next
  | .loop condition => do
    openLoop run condition index
    pure .next
  | .count name start stop step => do
    openCount run name start stop step index
    pure .next
  | .each name src => do
    openEach run name src index
    pure .next
  | .function name params => do
    openFunction run name params index
    pure .next
  | .close => close
  | st => do
    let a ← get
    if a.blocks.active then onSession (Session.runSimple run st) else pure .next

end Activation

end LineScript
