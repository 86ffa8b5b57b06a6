import LineScript.Block

set_option relaxedAutoImplicit false
set_option autoImplicit false

/-!
# Stacks of blocks, one block deeper

A structured program only ever works on the innermost frame. So the operations on a stack are told
for a settled stack with one frame on top: what is below stays as it is, and comes back when the
block ends.

## Main definitions

* `LineScript.BlockStack.Settled` — no frame stands above the current depth, and no function is
  gathered.
* `LineScript.BlockStack.push` — a block inside those of a stack.
* `LineScript.BlockStack.returning` — a loop on its way back to its header.
* `LineScript.BlockStack.gathering` — a function being gathered.

## Main results

* `LineScript.BlockStack.Settled.enter`, `LineScript.BlockStack.Settled.enter_returning` — a header
  reached from above, and one that a loop comes back to.
* `LineScript.BlockStack.Settled.close_push_of_loop`, `LineScript.BlockStack.Settled.close_push` —
  the end of a block.
* `LineScript.BlockStack.Settled.captureLine_gathering_of_opener` and its siblings — a line taken in
  while a function is gathered.
-/

namespace LineScript

namespace BlockStack

/-- The frames are those of the open blocks, and no function is gathered. -/
structure Settled (b : BlockStack) : Prop where
  length : b.frames.length = b.depth + 1
  capturing : b.capturing = none

/-- The stack with a block inside. -/
def push (b : BlockStack) (f : Frame) : BlockStack :=
  { b with frames := b.frames ++ [f], depth := b.depth + 1 }

/-- The stack with the frame of a loop that goes back to its header. -/
def returning (b : BlockStack) (f : Frame) : BlockStack :=
  { b with frames := b.frames ++ [f] }

/-- The stack while a function is gathered, with `nested` blocks open in its body. -/
def gathering (b : BlockStack) (header : Nat) (capture : Capture) (nested : Nat) : BlockStack :=
  { frames := b.frames ++ [{ kind := .function, header := header, capture := some capture }]
    depth := b.depth + 1 + nested
    capturing := some (b.depth + 1) }

/-- While a function is gathered, the stack says so. -/
theorem isCapturing_gathering (b : BlockStack) (header : Nat) (capture : Capture) (nested : Nat) :
    (b.gathering header capture nested).isCapturing = true :=
  rfl

/-- The stack before the first line is settled. -/
theorem settled_start : Settled start :=
  ⟨rfl, rfl⟩

/-- The last item of a list is changed alone. -/
theorem modify_concat {α : Type} (l : List α) (a : α) (f : α → α) :
    (l ++ [a]).modify l.length f = l ++ [f a] := by
  induction l with
  | nil => rfl
  | cons x l ih => simpa using ih

namespace Settled

variable {b : BlockStack} (h : b.Settled)

include h

/-! ## The innermost block -/

/-- A settled stack with a further block is settled. -/
theorem push (f : Frame) : (b.push f).Settled :=
  ⟨by simp [BlockStack.push, h.length], h.capturing⟩

/-- The further block is the current one. -/
@[simp]
theorem current?_push (f : Frame) : (b.push f).current? = some f := by
  simp [current?, BlockStack.push, ← h.length]

/-- A stack is active if its current block is. -/
@[simp]
theorem active_push (f : Frame) : (b.push f).active = f.active := by
  simp [active, activeAt, BlockStack.push, ← h.length]

/-- Frames below the innermost one are found as before. -/
theorem activeAt_concat (f : Frame) (depth : Nat) :
    activeAt ⟨b.frames ++ [f], depth, b.capturing⟩ b.depth = b.active := by
  simp [activeAt, active, List.getElem?_append_left (show b.depth < b.frames.length by
    rw [h.length]; exact Nat.lt_succ_self _)]

/-- Changing the current block leaves those around it. -/
@[simp]
theorem modifyCurrent_push (f : Frame) (g : Frame → Frame) :
    (b.push f).modifyCurrent g = b.push (g f) := by
  simp only [modifyCurrent, BlockStack.push, ← h.length, modify_concat]

/-- A further branch may stand in a branching block, and is active only if the blocks around that
are. -/
theorem branchFrame_push {f : Frame} (hf : f.kind = .branch) (word : BranchWord) :
    (b.push f).branchFrame word = .ok (f, b.active) := by
  have hdepth : (b.push f).depth = b.depth + 1 := rfl
  unfold branchFrame
  rw [h.current?_push, hdepth]
  simp only [hf, BlockKind.isBranch, if_true]
  rw [← h.activeAt_concat f (b.depth + 1)]
  rfl

/-! ## Headers and ends -/

/-- A header reached from above opens a new block. -/
theorem enter (kind : BlockKind) (header : Nat) :
    b.enter kind header =
      (⟨false, b.active⟩, b.push { kind := kind, header := header }) := by
  have hnone : b.frames[b.depth + 1]? = none := by simp [h.length]
  have htake : b.frames.take (b.depth + 1) = b.frames := by simp [← h.length]
  simp [BlockStack.enter, hnone, htake, BlockStack.push]

/-- A header that a loop comes back to finds its frame again. -/
theorem enter_returning {kind : BlockKind} {header : Nat} {f : Frame}
    (hf : comesRound kind header f = true) :
    (b.returning f).enter kind header =
      (⟨true, b.active⟩, b.push { f with active := false }) := by
  have hsome : (b.returning f).frames[(b.returning f).depth + 1]? = some f := by
    simp [returning, ← h.length]
  have hactive : (b.returning f).active = b.active := h.activeAt_concat f b.depth
  have hmodify := modify_concat b.frames f fun frame => { frame with active := false }
  rw [h.length] at hmodify
  simp only [BlockStack.enter, hsome, Option.any_some, hf, if_true, hactive]
  simp only [returning, BlockStack.push, hmodify]

/-- The end of a loop that is active leads back to its header. -/
theorem close_push_of_loop {f : Frame} (hloop : f.kind.isLoop = true) (hactive : f.active = true) :
    (b.push f).close = .ok (some f.header, b.returning f) := by
  have hdepth : (b.push f).depth = b.depth + 1 := rfl
  unfold close
  rw [hdepth, h.current?_push]
  simp [hloop, hactive, BlockStack.push, returning]

/-- The end of any other block leaves the blocks around it. -/
theorem close_push {f : Frame} (hf : (f.kind.isLoop && f.active) = false) :
    (b.push f).close = .ok (none, b) := by
  have hdepth : (b.push f).depth = b.depth + 1 := rfl
  unfold close
  rw [hdepth, h.current?_push]
  have htake : (b.frames ++ [f]).take (b.depth + 1) = b.frames := by
    rw [← h.length, List.take_left]
  simp [hf, BlockStack.push, htake]

/-! ## Gathering functions -/

/-- The header of a function, where no frame stands above the depth. -/
theorem beginCapture (capture : Capture) (header : Nat) :
    b.beginCapture capture header = b.gathering header capture 0 := by
  simp only [BlockStack.beginCapture, h.enter, h.modifyCurrent_push]
  rfl

/-- A line is added to the function that is gathered. -/
theorem keepLine_gathering (header : Nat) (capture : Capture) (nested depth : Nat) (line : String) :
    { b.gathering header capture nested with depth := b.depth + 1 + depth }.keepLine
        (b.depth + 1) line =
      b.gathering header { capture with lines := capture.lines ++ [line] } depth := by
  simp only [keepLine, gathering, ← h.length, modify_concat, Option.map_some]

/-- A line that neither opens nor ends a block is kept. -/
theorem captureLine_gathering_of_other {line : String} (hline : LineShape.ofLine line = .other)
    (header : Nat) (capture : Capture) (nested : Nat) :
    (b.gathering header capture nested).captureLine line =
      (none, b.gathering header { capture with lines := capture.lines ++ [line] } nested) := by
  rw [← h.keepLine_gathering header capture nested nested line]
  simp only [captureLine, gathering, hline]

/-- A line that opens a block is kept, and one more block is open in the body. -/
theorem captureLine_gathering_of_opener {line : String} (hline : LineShape.ofLine line = .opener)
    (header : Nat) (capture : Capture) (nested : Nat) :
    (b.gathering header capture nested).captureLine line =
      (none, b.gathering header { capture with lines := capture.lines ++ [line] }
        (nested + 1)) := by
  rw [← h.keepLine_gathering header capture nested (nested + 1) line]
  simp only [captureLine, gathering, hline, Nat.add_assoc]

/-- A line that ends a block of the body is kept, and one block less is open in it. -/
theorem captureLine_gathering_of_closer {line : String} (hline : LineShape.ofLine line = .closer)
    (header : Nat) (capture : Capture) (nested : Nat) :
    (b.gathering header capture (nested + 1)).captureLine line =
      (none, b.gathering header { capture with lines := capture.lines ++ [line] } nested) := by
  rw [← h.keepLine_gathering header capture (nested + 1) nested line]
  have hcapturing : (b.gathering header capture (nested + 1)).capturing = some (b.depth + 1) := rfl
  have hne : (b.gathering header capture (nested + 1)).depth ≠ b.depth + 1 := by
    simp only [gathering]
    omega
  simp only [captureLine, hcapturing, hline]
  rw [if_neg hne]
  rfl

/-- The end of the function gives the definition and leaves the blocks around it. -/
theorem captureLine_gathering_last {line : String} (hline : LineShape.ofLine line = .closer)
    (header : Nat) (capture : Capture) :
    (b.gathering header capture 0).captureLine line = (some capture, b) := by
  have htake (f : Frame) : (b.frames ++ [f]).take (b.depth + 1) = b.frames := by
    rw [← h.length, List.take_left]
  have hget (f : Frame) : (b.frames ++ [f])[b.depth + 1]? = some f := by
    rw [← h.length, List.getElem?_concat_length]
  simp only [captureLine, gathering, hline, Nat.add_zero, if_true, htake, hget, Nat.add_sub_cancel]
  rw [← h.capturing]
  rfl

end Settled

end BlockStack

end LineScript
