import LineScript.Proofs.Block.Openers
import LineScript.Proofs.Structured.Blocks

set_option relaxedAutoImplicit false
set_option autoImplicit false

/-!
# Stacks of blocks that follow a source

The stacks that arise while a source is run are built from the start by one block after another.
Each frame stands for an opener of the source: it was made where exactly the openers of the frames
below it were unmatched, and it is active only inside an active block. Besides these *nested* stacks
there are only two kinds more: a loop on its way back to its header, and a function being gathered.

## Main definitions

* `LineScript.Frame.Fits` — a frame that may stand inside a block.
* `LineScript.BlockStack.Nests` — the nested stacks of a source, with the openers of their frames.
* `LineScript.BlockStack.At` — the stacks that can be met at a line of a source.
* `LineScript.BlockStack.Outside`, `LineScript.BlockStack.Gathers` — what can be relied on outside
  the bodies of functions, and inside.
* `LineScript.BlockStack.Tracks` — a stack that can be met, at a line before which no block is ended
  that is not open.

## Main results

* `LineScript.BlockStack.At.outside`, `LineScript.BlockStack.At.gathers` — all of it holds of the
  stacks that can be met.
* `LineScript.BlockStack.At.exists_enters` — a header enters a nested stack, whether it is reached
  from above or a loop comes round.
* `LineScript.BlockStack.Tracks.opener`, `LineScript.BlockStack.Tracks.closer`,
  `LineScript.BlockStack.Tracks.captureLine` and their siblings — the stack after one more line.
-/

namespace LineScript

/-- A frame inside a block that is active or not: it is active only if the block is, and an active
branch has been taken. -/
structure Frame.Fits (f : Frame) (outer : Bool) : Prop where
  active : f.active = true → outer = true
  taken : f.kind.isBranch = true → f.active = true → f.branchTaken = true

/-- An inactive frame may stand anywhere. -/
theorem Frame.fits_of_inactive {f : Frame} (h : f.active = false) (outer : Bool) :
    f.Fits outer := by
  constructor
  · intro hactive
    rw [h] at hactive
    cases hactive
  · intro _ hactive
    rw [h] at hactive
    cases hactive

namespace BlockStack

/-- A stack built from the start by the blocks of a source, and the indices of their openers. The
opener of a frame was reached where just the openers of the frames below it were unmatched. -/
inductive Nests (lines : List String) : BlockStack → List Nat → Prop
  | start : Nests lines start []
  | push {b : BlockStack} {f : Frame} :
      Nests lines b (unmatched (lines.take f.header)) →
      lines[f.header]?.map LineShape.ofLine = some .opener → f.Fits b.active →
        Nests lines (b.push f) (unmatched (lines.take f.header) ++ [f.header])

/-- The stacks that can be met at the line with index `i`: nested ones, those of an active loop that
has come back to its header, and those of a function being gathered. -/
inductive At (lines : List String) : BlockStack → Nat → Prop
  | settled {b : BlockStack} {i : Nat} : Nests lines b (unmatched (lines.take i)) → At lines b i
  | returning {b : BlockStack} {f : Frame} :
      Nests lines b (unmatched (lines.take f.header)) →
      lines[f.header]?.map LineShape.ofLine = some .opener → f.Fits b.active →
      f.kind.isLoop = true → f.active = true → At lines (b.returning f) f.header
  | gathering {b : BlockStack} {openers inner : List Nat} {header i : Nat} {capture : Capture} :
      Nests lines b openers → unmatched (lines.take i) = openers ++ header :: inner →
        At lines (b.gathering header capture inner.length) i

/-- Outside the bodies of functions: the current frame exists, the frames up to it are those of the
unmatched openers of the lines before `i`, the source itself is always active, an active block lies
in active blocks only, and an active branch has been taken. -/
structure Outside (lines : List String) (i : Nat) (b : BlockStack) : Prop where
  depth_lt : b.depth < b.frames.length
  headers : (b.frames.tail.take b.depth).map Frame.header = unmatched (lines.take i)
  main : ∃ f, b.frames[0]? = some f ∧ f.kind = .main ∧ f.active = true
  below : ∀ j k, j < k → b.activeAt k = true → b.activeAt j = true
  taken : ∀ f ∈ b.frames, f.kind.isBranch = true → f.active = true → f.branchTaken = true

/-- While a function is gathered at depth `target`: its frame exists and holds what is gathered. -/
structure Gathers (b : BlockStack) (target : Nat) : Prop where
  pos : 0 < target
  le_depth : target ≤ b.depth
  capture : ∃ f, b.frames[target]? = some f ∧ f.capture.isSome = true

/-! ## Nested stacks -/

namespace Nests

variable {lines : List String} {b : BlockStack} {openers : List Nat}

/-- A stack that nests blocks is settled: it has all its frames up to its depth, and gathers no
function. -/
theorem isSettled (h : Nests lines b openers) : b.Settled := by
  induction h with
  | start => exact settled_start
  | push _ _ _ ih => exact ih.push _

/-- Above the bottom frame stand the headers of the open blocks, in their order. -/
theorem headers (h : Nests lines b openers) : b.frames.tail.map Frame.header = openers := by
  induction h with
  | start => rfl
  | @push b f hb _ _ ih =>
    have hne : b.frames ≠ [] := by
      intro hnil
      have hlength := hb.isSettled.length
      simp [hnil] at hlength
    simp [BlockStack.push, List.tail_append_of_ne_nil hne, ih]

/-- The depth is the number of open blocks. -/
theorem depth_eq (h : Nests lines b openers) : b.depth = openers.length := by
  have hlength := h.isSettled.length
  rw [← h.headers, List.length_map, List.length_tail]
  omega

/-- The frame of the source itself is never changed. -/
theorem head (h : Nests lines b openers) : b.frames[0]? = some Frame.main := by
  induction h with
  | start => rfl
  | @push b f hb _ _ ih =>
    have hpos : 0 < b.frames.length := by
      have hlength := hb.isSettled.length
      omega
    rw [BlockStack.push, List.getElem?_append_left hpos, ih]

/-- In a branching block that is running, a branch has been taken. -/
theorem taken (h : Nests lines b openers) :
    ∀ f ∈ b.frames, f.kind.isBranch = true → f.active = true → f.branchTaken = true := by
  induction h with
  | start => simp [BlockStack.start, Frame.main, BlockKind.isBranch]
  | @push b f _ _ hfits ih =>
    intro g hg
    rcases List.mem_append.1 hg with hg | hg
    · exact ih g hg
    · obtain rfl : g = f := by simpa using hg
      exact hfits.taken

/-- Frames below a new one are found as before. -/
theorem activeAt_push_of_le (h : Nests lines b openers) (f : Frame) {j : Nat} (hj : j ≤ b.depth) :
    (b.push f).activeAt j = b.activeAt j := by
  have hlength := h.isSettled.length
  simp only [activeAt, BlockStack.push]
  rw [List.getElem?_append_left (by omega)]

/-- **An active block lies in active blocks only.** -/
theorem active_below (h : Nests lines b openers) :
    ∀ j k, j < k → b.activeAt k = true → b.activeAt j = true := by
  induction h with
  | start =>
    intro j k hjk hk
    have hnone : BlockStack.start.frames[k]? = none := by
      simp only [BlockStack.start, List.getElem?_eq_none_iff, List.length_singleton]
      omega
    simp [activeAt, hnone] at hk
  | @push b f hb _ hfits ih =>
    intro j k hjk hk
    have hlength := hb.isSettled.length
    by_cases hle : k ≤ b.depth
    · rw [hb.activeAt_push_of_le f hle] at hk
      rw [hb.activeAt_push_of_le f (by omega)]
      exact ih j k hjk hk
    · by_cases hlast : k = b.depth + 1
      · subst hlast
        rw [hb.activeAt_push_of_le f (by omega)]
        -- the new frame is active, so the one below it is, and so are all others
        have hactive : b.activeAt b.depth = true := hfits.active (hb.isSettled.active_push f ▸ hk)
        by_cases hj : j = b.depth
        · rwa [hj]
        · exact ih j b.depth (by omega) hactive
      · have hnone : (b.push f).frames[k]? = none := by
          simp only [BlockStack.push, List.getElem?_eq_none_iff, List.length_append,
            List.length_singleton]
          omega
        simp [activeAt, hnone] at hk

/-- The frames of a nested stack, seen from a depth that one of them has. -/
theorem outside_of_le (h : Nests lines b openers) {i depth : Nat} (hdepth : depth ≤ b.depth)
    (hopeners : openers.take depth = unmatched (lines.take i)) :
    Outside lines i { b with depth := depth } where
  depth_lt := by
    have hlength := h.isSettled.length
    change depth < b.frames.length
    omega
  headers := by
    change (b.frames.tail.take depth).map Frame.header = _
    rw [List.map_take, h.headers, hopeners]
  main := ⟨Frame.main, h.head, rfl, rfl⟩
  below := h.active_below
  taken := h.taken

end Nests

/-! ## The stacks at a line -/

namespace At

variable {lines : List String} {b : BlockStack} {i : Nat}

/-- **Outside the bodies of functions.** The frame of a loop that comes back still stands above the
current depth, where it is one frame more of a nested stack. -/
theorem outside (h : At lines b i) (hcapturing : b.capturing = none) : Outside lines i b := by
  cases h with
  | settled hb => exact hb.outside_of_le (Nat.le_refl _) (by simp [hb.depth_eq])
  | @returning b f hb hopener hfits _ _ =>
    have htake : (unmatched (lines.take f.header) ++ [f.header]).take b.depth =
        unmatched (lines.take f.header) := by
      rw [hb.depth_eq, List.take_left]
    exact (hb.push hopener hfits).outside_of_le (Nat.le_succ _) htake
  | gathering hb hopeners => cases hcapturing

/-- **Inside the body of a function.** -/
theorem gathers (h : At lines b i) {target : Nat} (hcapturing : b.capturing = some target) :
    b.Gathers target := by
  cases h with
  | settled hb =>
    rw [hb.isSettled.capturing] at hcapturing
    cases hcapturing
  | returning hb _ _ _ _ =>
    rw [BlockStack.returning, hb.isSettled.capturing] at hcapturing
    cases hcapturing
  | @gathering b openers inner header i capture hb hopeners =>
    obtain rfl : b.depth + 1 = target := Option.some.inj hcapturing
    refine ⟨by omega, ?_, ?_⟩
    · simp only [BlockStack.gathering]
      omega
    · refine ⟨{ kind := .function, header := header, capture := some capture }, ?_, rfl⟩
      rw [BlockStack.gathering, ← hb.isSettled.length, List.getElem?_concat_length]

/-- The depth of the current block is the number of unmatched openers. -/
theorem depth_eq (h : At lines b i) : b.depth = (unmatched (lines.take i)).length := by
  cases h with
  | settled hb => exact hb.depth_eq
  | returning hb _ _ _ _ => exact hb.depth_eq
  | @gathering b openers inner header i capture hb hopeners =>
    have hdepth := hb.depth_eq
    rw [hopeners, List.length_append, List.length_cons]
    simp only [BlockStack.gathering]
    omega

end At

/-! ## Entering blocks -/

/-- At the header on line `i`, the stack `b` enters a block inside `base`: an inactive frame of that
header goes on top of `base`. -/
structure Enters (base b : BlockStack) (i : Nat) : Prop where
  enter : ∀ kind, ∃ revisit f, b.enter kind i = (⟨revisit, base.active⟩, base.push f) ∧
    f.header = i ∧ f.active = false ∧ f.kind.isBranch = kind.isBranch
  beginCapture : ∀ capture, b.beginCapture capture i = base.gathering i capture 0
  active : b.active = base.active

/-- A settled stack is entered as it stands. -/
theorem Settled.enters {b : BlockStack} (h : b.Settled) (i : Nat) : b.Enters b i where
  enter kind := ⟨false, { kind := kind, header := i }, h.enter kind i, rfl, rfl, rfl⟩
  beginCapture capture := h.beginCapture capture i
  active := rfl

/-- A header that does not go on with the loop above the current depth takes its place. -/
theorem Settled.enter_returning_of_not_comesRound {b : BlockStack} (h : b.Settled)
    {kind : BlockKind} {header : Nat} {f : Frame} (hf : comesRound kind header f = false) :
    (b.returning f).enter kind header =
      (⟨false, b.active⟩, b.push { kind := kind, header := header }) := by
  have hsome : (b.returning f).frames[(b.returning f).depth + 1]? = some f := by
    simp [returning, ← h.length]
  have hactive : (b.returning f).active = b.active := h.activeAt_concat f b.depth
  have htake : (b.frames ++ [f]).take (b.depth + 1) = b.frames := by
    rw [← h.length, List.take_left]
  simp only [BlockStack.enter, hsome, Option.any_some, hf, hactive]
  simp [returning, BlockStack.push, htake]

/-- A loop that has come back to its header enters its own frame again. -/
theorem Settled.enters_returning {b : BlockStack} (h : b.Settled) {f : Frame}
    (hloop : f.kind.isLoop = true) : b.Enters (b.returning f) f.header where
  enter kind := by
    have hbranch : f.kind.isBranch = false := BlockKind.isBranch_of_isLoop hloop
    cases hkind : kind.isLoop with
    | true =>
      have hround : comesRound kind f.header f = true := by simp [comesRound, hloop, hkind]
      have hkind' : kind.isBranch = false := BlockKind.isBranch_of_isLoop hkind
      refine ⟨true, { f with active := false }, h.enter_returning hround, rfl, rfl, ?_⟩
      rw [hkind']
      exact hbranch
    | false =>
      have hround : comesRound kind f.header f = false := by simp [comesRound, hkind]
      exact ⟨false, _, h.enter_returning_of_not_comesRound hround, rfl, rfl, rfl⟩
  beginCapture capture := by
    have hround : comesRound .function f.header f = false := by simp [comesRound, BlockKind.isLoop]
    simp only [BlockStack.beginCapture, h.enter_returning_of_not_comesRound hround,
      h.modifyCurrent_push]
    rfl
  active := h.activeAt_concat f b.depth

/-- **A header enters a nested stack**, whether it is reached from above or a loop comes round. -/
theorem At.exists_enters {lines : List String} {b : BlockStack} {i : Nat} (h : At lines b i)
    (hcapturing : b.capturing = none) :
    ∃ base, Nests lines base (unmatched (lines.take i)) ∧ base.Enters b i := by
  cases h with
  | settled hb => exact ⟨b, hb, hb.isSettled.enters i⟩
  | @returning base f hb _ _ hloop _ => exact ⟨base, hb, hb.isSettled.enters_returning hloop⟩
  | gathering hb hopeners => cases hcapturing

/-! ## One line further -/

/-- The stack is one that can be met at line `i`, and the lines before `i` end no block that is not
open. -/
structure Tracks (lines : List String) (i : Nat) (b : BlockStack) : Prop where
  nested : nestAfter (lines.take i) 0 = some b.depth
  stack : At lines b i

/-- Before the first line, the starting stack keeps track of the lines: no block is open. -/
theorem tracks_start (lines : List String) : Tracks lines 0 start where
  nested := rfl
  stack := .settled Nests.start

/-- How deep the lines are nested is known from the stack. -/
theorem At.tracks {lines : List String} {b : BlockStack} {i d : Nat} (h : At lines b i)
    (hnest : nestAfter (lines.take i) 0 = some d) : Tracks lines i b := by
  refine ⟨?_, h⟩
  rw [h.depth_eq, length_unmatched hnest, hnest]

/-- Only openers are reached while a loop comes round. -/
theorem At.nests_of_ne_opener {lines : List String} {b : BlockStack} {i : Nat} (h : At lines b i)
    (hcapturing : b.capturing = none) (hi : lines[i]?.map LineShape.ofLine ≠ some .opener) :
    Nests lines b (unmatched (lines.take i)) := by
  cases h with
  | settled hb => exact hb
  | returning _ hopener _ _ _ => exact absurd hopener hi
  | gathering hb hopeners => cases hcapturing

/-- At line `i` the innermost block is that of the frame `f`, inside those of `base`. -/
structure Innermost (lines : List String) (i : Nat) (base : BlockStack) (f : Frame) : Prop where
  around : Nests lines base (unmatched (lines.take f.header))
  openers : unmatched (lines.take i) = unmatched (lines.take f.header) ++ [f.header]
  opener : lines[f.header]?.map LineShape.ofLine = some .opener
  fits : f.Fits base.active

/-- A nested stack is that of the source alone, or there is an innermost block. -/
theorem Nests.eq_start_or_push {lines : List String} {b : BlockStack} {i : Nat}
    (h : Nests lines b (unmatched (lines.take i))) :
    b = BlockStack.start ∨ ∃ base f, b = base.push f ∧ Innermost lines i base f := by
  generalize hopeners : unmatched (lines.take i) = openers at h
  cases h with
  | start => exact .inl rfl
  | @push base f hbase hopener hfits => exact .inr ⟨base, f, rfl, hbase, hopeners, hopener, hfits⟩

/-- A nested stack with `f` as its innermost frame, whose blocks are those around `base`. -/
theorem Nests.push_of_eq {lines : List String} {base : BlockStack} {i : Nat}
    (h : Nests lines base (unmatched (lines.take i)))
    (hopener : lines[i]?.map LineShape.ofLine = some .opener) {f : Frame} (hheader : f.header = i)
    (hfits : f.Fits base.active) : Nests lines (base.push f) (unmatched (lines.take i) ++ [i]) := by
  subst hheader
  exact h.push hopener hfits

namespace Tracks

variable {lines : List String} {i : Nat} {b base : BlockStack} {line : String}

/-- A line that neither opens nor ends a block leaves the stack as it is. -/
theorem other (h : Tracks lines i b) (hcapturing : b.capturing = none)
    (hline : lines[i]? = some line)
    (hshape : LineShape.ofLine line = .other) : Tracks lines (i + 1) b := by
  have hb := h.stack.nests_of_ne_opener hcapturing (by simp [hline, hshape])
  rw [← unmatched_take_succ_of_other hline hshape] at hb
  refine (At.settled hb).tracks (d := b.depth) ?_
  rw [nestAfter_take_succ hline h.nested]
  simp [nestStep, hshape]

/-- A header adds a frame to the blocks around it. -/
theorem opener (h : Tracks lines i b) (hline : lines[i]? = some line)
    (hshape : LineShape.ofLine line = .opener) (hbase : Nests lines base (unmatched (lines.take i)))
    {f : Frame} (hheader : f.header = i) (hfits : f.Fits base.active) :
    Tracks lines (i + 1) (base.push f) := by
  have hb := hbase.push_of_eq (by simp [hline, hshape]) hheader hfits
  rw [← unmatched_take_succ_of_opener hline hshape] at hb
  refine (At.settled hb).tracks (d := b.depth + 1) ?_
  rw [nestAfter_take_succ hline h.nested]
  simp [nestStep, hshape]

/-- After the header of a function this is gathered. -/
theorem function (h : Tracks lines i b) (hline : lines[i]? = some line)
    (hshape : LineShape.ofLine line = .opener) (hbase : Nests lines base (unmatched (lines.take i)))
    (capture : Capture) : Tracks lines (i + 1) (base.gathering i capture 0) := by
  have hopeners : unmatched (lines.take (i + 1)) = unmatched (lines.take i) ++ i :: [] :=
    unmatched_take_succ_of_opener hline hshape
  refine (At.gathering hbase hopeners).tracks (d := b.depth + 1) ?_
  rw [nestAfter_take_succ hline h.nested]
  simp [nestStep, hshape]

/-- Another branch of the innermost block. -/
theorem branch {f : Frame} (h : Tracks lines i (base.push f)) (hline : lines[i]? = some line)
    (hshape : LineShape.ofLine line = .other) (hf : Innermost lines i base f) {g : Frame}
    (hheader : g.header = f.header) (hfits : g.Fits base.active) :
    Tracks lines (i + 1) (base.push g) := by
  have hb := hf.around.push_of_eq hf.opener hheader hfits
  rw [← hf.openers, ← unmatched_take_succ_of_other hline hshape] at hb
  refine (At.settled hb).tracks (d := base.depth + 1) ?_
  rw [nestAfter_take_succ hline h.nested]
  simp [nestStep, hshape, BlockStack.push]

/-- The end of a block leaves the blocks around it. -/
theorem closer {f : Frame} (h : Tracks lines i (base.push f)) (hline : lines[i]? = some line)
    (hshape : LineShape.ofLine line = .closer) (hf : Innermost lines i base f) :
    Tracks lines (i + 1) base := by
  have hafter : unmatched (lines.take (i + 1)) = unmatched (lines.take f.header) := by
    rw [unmatched_take_succ_of_closer hline hshape, hf.openers, List.dropLast_concat]
  have hbase := hf.around
  rw [← hafter] at hbase
  refine (At.settled hbase).tracks (d := base.depth) ?_
  rw [nestAfter_take_succ hline h.nested]
  simp [nestStep, hshape, BlockStack.push]

/-- The end of a loop that comes round leads back to where its header was reached first. -/
theorem comeRound {f : Frame} (h : Tracks lines i (base.push f)) (hf : Innermost lines i base f)
    (hloop : f.kind.isLoop = true) (hactive : f.active = true) :
    Tracks lines f.header (base.returning f) := by
  have hlt : f.header < (lines.take i).length := lt_length_of_mem_unmatched (by simp [hf.openers])
  obtain ⟨d, hd⟩ := nestAfter_take h.nested f.header
  rw [List.length_take] at hlt
  rw [List.take_take, Nat.min_eq_left (by omega)] at hd
  exact (At.returning hf.around hf.opener hf.fits hloop hactive).tracks hd

/-- **A line taken in while a function is gathered** moves the nesting inside it, or ends it. -/
theorem captureLine (h : Tracks lines i b) {target : Nat} (hcapturing : b.capturing = some target)
    (hline : lines[i]? = some line) : Tracks lines (i + 1) (b.captureLine line).2 := by
  obtain ⟨hnested, hat⟩ := h
  cases hat with
  | settled hb =>
    rw [hb.isSettled.capturing] at hcapturing
    cases hcapturing
  | returning hb _ _ _ _ =>
    rw [BlockStack.returning, hb.isSettled.capturing] at hcapturing
    cases hcapturing
  | @gathering base openers inner header i capture hb hopeners =>
    have hdepth : (base.gathering header capture inner.length).depth =
        base.depth + inner.length + 1 := by
      simp only [BlockStack.gathering]
      omega
    have hnest := nestAfter_take_succ hline hnested
    rw [hdepth] at hnest
    cases hshape : LineShape.ofLine line with
    | other =>
      rw [hb.isSettled.captureLine_gathering_of_other hshape]
      simp only [nestStep, hshape] at hnest
      refine (At.gathering hb ?_).tracks hnest
      rw [unmatched_take_succ_of_other hline hshape, hopeners]
    | opener =>
      rw [hb.isSettled.captureLine_gathering_of_opener hshape]
      simp only [nestStep, hshape] at hnest
      have hinner : inner.length + 1 = (inner ++ [i]).length := by simp
      rw [hinner]
      refine (At.gathering hb ?_).tracks hnest
      rw [unmatched_take_succ_of_opener hline hshape, hopeners]
      simp
    | closer =>
      have hafter := unmatched_take_succ_of_closer hline hshape
      rw [hopeners] at hafter
      simp only [nestStep, hshape] at hnest
      -- the `end` is that of the function, or that of the innermost block in its body
      rcases List.eq_nil_or_concat' inner with rfl | ⟨front, last, rfl⟩
      · rw [List.dropLast_concat] at hafter
        rw [List.length_nil, hb.isSettled.captureLine_gathering_last hshape]
        rw [← hafter] at hb
        exact (At.settled hb).tracks hnest
      · rw [List.length_append, List.length_singleton,
          hb.isSettled.captureLine_gathering_of_closer hshape]
        refine (At.gathering hb ?_).tracks hnest
        rw [hafter, ← List.cons_append, ← List.append_assoc, List.dropLast_concat]

end Tracks

end BlockStack

end LineScript
