import LineScript.Statement.Basic

set_option relaxedAutoImplicit false
set_option autoImplicit false

/-!
# Blocks

Control flow is decided line by line. Every open block has a frame, and the frames stand in the
order of nesting, with that of the whole source first. Opening a block goes one frame deeper; ending
it goes back, and either drops the frame or, for a loop whose body just ran, keeps it above the
current depth and asks to go on at the header. A header that finds the frame it left there comes
round again.

While the body of a function is gathered, lines only move the depth, so that the `end` of the
function is told from those inside it.

## Main definitions

* `LineScript.BlockKind`, `LineScript.Frame` — an open block.
* `LineScript.Capture` — a function definition being gathered.
* `LineScript.BlockStack` — the frames, with `enter`, `branchFrame`, `close`, `beginCapture` and
  `captureLine`.
-/

namespace LineScript

/-- The evaluated bounds of a counting loop. The step is positive upwards, negative downwards, and
zero where start and stop agree. -/
structure ForRange where
  name : String
  stop : Float
  step : Float
  deriving Repr

/-- The kinds of blocks. A counting loop has no range until its header has been evaluated. -/
inductive BlockKind where
  | main
  | branch
  | loop
  | count (range : Option ForRange)
  | each
  | function
  deriving Repr

namespace BlockKind

/-- Whether the end of the block leads back to its header. -/
def isLoop : BlockKind → Bool
  | .loop | .count _ | .each => true
  | .main | .branch | .function => false

/-- Whether the block can have branches. -/
def isBranch : BlockKind → Bool
  | .branch => true
  | _ => false

/-- Only an `if` can have branches. -/
theorem eq_branch_of_isBranch {kind : BlockKind} (h : kind.isBranch = true) : kind = .branch := by
  cases kind with
  | branch => rfl
  | _ => cases h

/-- A loop cannot have branches. -/
theorem isBranch_of_isLoop {kind : BlockKind} (h : kind.isLoop = true) : kind.isBranch = false := by
  cases kind with
  | branch => cases h
  | _ => rfl

end BlockKind

/-- A function definition being gathered. One that is not to be registered, because its header was
skipped or failed, is gathered all the same. -/
structure Capture where
  name : String := ""
  params : List String := []
  defaults : List (String × Value) := []
  register : Bool := false
  lines : List String := []
  deriving Repr

/-- The source of the gathered body. -/
def Capture.body (c : Capture) : String :=
  String.intercalate "\n" c.lines

/-- An open block: whether its statements run, the line of its header, and the progress of its
loop or branches. -/
structure Frame where
  kind : BlockKind
  active : Bool := false
  header : Nat
  iteration : Nat := 0
  step : Nat := 1
  branchTaken : Bool := false
  capture : Option Capture := none
  deriving Repr

/-- The frame of a whole source. -/
def Frame.main : Frame :=
  { kind := .main, active := true, header := 0 }

/-- What is known when a block is entered: whether a loop comes round again, and whether the block
around it is active. -/
structure Entry where
  revisit : Bool
  outerActive : Bool
  deriving Repr, DecidableEq

/-- The frames, outermost first, the depth of the current one, and the depth of the function that
is being gathered. Frames above the current depth are those of loops on their way to the
header. -/
structure BlockStack where
  frames : List Frame := [Frame.main]
  depth : Nat := 0
  capturing : Option Nat := none
  deriving Repr

namespace BlockStack

/-- Only the source itself is open. -/
def start : BlockStack := {}

/-- The frame of the innermost block. -/
def current? (b : BlockStack) : Option Frame :=
  b.frames[b.depth]?

/-- Whether the frame at a depth is active. -/
def activeAt (b : BlockStack) (depth : Nat) : Bool :=
  match b.frames[depth]? with
  | some frame => frame.active
  | none => false

/-- Whether statements at the current depth run. -/
def active (b : BlockStack) : Bool :=
  b.activeAt b.depth

/-- Whether a function is being gathered. -/
def isCapturing (b : BlockStack) : Bool :=
  b.capturing.isSome

/-- The stack with the innermost frame changed. -/
def modifyCurrent (b : BlockStack) (f : Frame → Frame) : BlockStack :=
  { b with frames := b.frames.modify b.depth f }

/-- Whether a frame is that of a loop of this kind whose header stands on line `header`. -/
def comesRound (kind : BlockKind) (header : Nat) (frame : Frame) : Bool :=
  frame.header == header && frame.kind.isLoop && kind.isLoop

/-- A block opened by the header on line `header`. It is inactive until its condition is known. -/
def enter (b : BlockStack) (kind : BlockKind) (header : Nat) : Entry × BlockStack :=
  let depth := b.depth + 1
  let revisit := (b.frames[depth]?).any (comesRound kind header)
  let frames :=
    if revisit then b.frames.modify depth fun frame => { frame with active := false }
    else b.frames.take depth ++ [{ kind := kind, header := header }]
  ({ revisit := revisit, outerActive := b.active }, { b with frames := frames, depth := depth })

/-- The frame that a branch continues, and whether the block around it is active. -/
def branchFrame (b : BlockStack) (word : BranchWord) : Except ScriptError (Frame × Bool) :=
  match b.depth, b.current? with
  | outer + 1, some frame =>
    if frame.kind.isBranch then .ok (frame, b.activeAt outer) else .error (.danglingBranch word)
  | _, _ => .error (.danglingBranch word)

/-- The innermost block ended: the line of the header to go on at, if an active loop comes round
again, and the stack without the block. -/
def close (b : BlockStack) : Except ScriptError (Option Nat × BlockStack) :=
  match b.depth with
  | 0 => .error .unexpectedBlockEnd
  | outer + 1 =>
    match b.current? with
    | some frame =>
      if frame.kind.isLoop && frame.active then
        .ok (some frame.header, { b with depth := outer })
      else .ok (none, { b with frames := b.frames.take b.depth, depth := outer })
    | none => .ok (none, { b with depth := outer })

/-- A function opened by the header on line `header`, whose body is gathered from here on. -/
def beginCapture (b : BlockStack) (capture : Capture) (header : Nat) : BlockStack :=
  let (_, b) := b.enter .function header
  let b := b.modifyCurrent fun frame => { frame with capture := some capture }
  { b with capturing := some b.depth }

/-- The stack with a line added to the body that is gathered at depth `target`. -/
def keepLine (b : BlockStack) (target : Nat) (line : String) : BlockStack :=
  let keep (capture : Capture) : Capture := { capture with lines := capture.lines ++ [line] }
  { b with
    frames := b.frames.modify target fun frame =>
      { frame with capture := frame.capture.map keep } }

/-- A line taken in while a function is gathered. The `end` of the function gives the finished
definition; every other line becomes a part of the body. -/
def captureLine (b : BlockStack) (line : String) : Option Capture × BlockStack :=
  match b.capturing with
  | none => (none, b)
  | some target =>
    match LineShape.ofLine line with
    | .closer =>
      if b.depth = target then
        ((b.frames[target]?).bind Frame.capture,
          { frames := b.frames.take target, depth := b.depth - 1, capturing := none })
      else (none, { b with depth := b.depth - 1 }.keepLine target line)
    | .opener => (none, { b with depth := b.depth + 1 }.keepLine target line)
    | .other => (none, b.keepLine target line)

end BlockStack

end LineScript
