import LineScript.Proofs.Block.Bodies

set_option relaxedAutoImplicit false
set_option autoImplicit false

/-!
# Gathering takes exactly the body

From the header of a function on, lines are taken in until the end that belongs to the header.
Openers and ends between them only move the depth of the stack, which then no longer tells where its
frames are. If the lines after the header are balanced, all of them become lines of the definition,
word for word, and the next end gives the definition away and leaves the stack as the header found
it.

## Main definitions

* `LineScript.BlockStack.GathersBody` — lines that are gathered as a body, up to the line that ends
  it.

## Main results

* `LineScript.nestAfter_of_balanced` — balanced lines end all blocks that they open.
* `LineScript.exists_closer_of_excess` — where lines end more blocks than they open, there is a
  first end too many.
* `LineScript.BlockStack.gathered_gathering` — the stack after some lines of a body.
* `LineScript.BlockStack.gathers_body_exactly` — the lines of a definition are those of its body.
-/

namespace LineScript

/-! ## Counting and nesting -/

/-- Lines that nowhere end more blocks than there are nest properly. -/
theorem exists_nestAfter_of_prefixes {lines : List String} {d : Nat}
    (h : ∀ k, closerCount (lines.take k) ≤ d + openerCount (lines.take k)) :
    ∃ e, nestAfter lines d = some e := by
  induction lines generalizing d with
  | nil => exact ⟨d, rfl⟩
  | cons line lines ih =>
    have hstep : ∃ m, nestStep d line = some m := by
      cases hline : LineShape.ofLine line with
      | opener => exact ⟨d + 1, by simp [nestStep, hline]⟩
      | other => exact ⟨d, by simp [nestStep, hline]⟩
      | closer =>
        have hfirst := h 1
        simp [closerCount, openerCount, hline] at hfirst
        exact ⟨d - 1, by cases d <;> simp_all [nestStep]⟩
    obtain ⟨m, hm⟩ := hstep
    have hcount := add_closerCount_of_nestStep hm
    obtain ⟨e, he⟩ : ∃ e, nestAfter lines m = some e := by
      refine ih fun k => ?_
      have hk := h (k + 1)
      simp only [closerCount, openerCount, List.take_succ_cons, List.countP_cons,
        List.countP_nil] at hk hcount ⊢
      omega
    refine ⟨e, ?_⟩
    rw [nestAfter_cons, hm]
    exact he

/-- **Balanced lines end all blocks that they open**, and no others. -/
theorem nestAfter_of_balanced {lines : List String} (h : Balanced lines) :
    nestAfter lines 0 = some 0 := by
  obtain ⟨e, he⟩ := exists_nestAfter_of_prefixes (d := 0) (by simpa using h.prefixes)
  have hcount := add_closerCount_of_nestAfter he
  have hzero : e = 0 := by
    have hbalance := h.count
    omega
  rw [he, hzero]

/-- The first end that ends no block of the lines. -/
theorem exists_closer_of_nestAfter_eq_none {lines : List String} {k : Nat}
    (h : nestAfter (lines.take k) 0 = none) :
    ∃ j line, j < k ∧ lines[j]? = some line ∧ LineShape.ofLine line = .closer ∧
      nestAfter (lines.take j) 0 = some 0 := by
  induction k with
  | zero => cases h
  | succ k ih =>
    cases hbefore : nestAfter (lines.take k) 0 with
    | none =>
      obtain ⟨j, line, hj, hfound⟩ := ih hbefore
      exact ⟨j, line, by omega, hfound⟩
    | some d =>
      cases hline : lines[k]? with
      | none =>
        rw [List.take_add_one, hline, Option.toList_none, List.append_nil, hbefore] at h
        cases h
      | some line =>
        rw [nestAfter_take_succ hline hbefore] at h
        cases hshape : LineShape.ofLine line with
        | opener => simp [nestStep, hshape] at h
        | other => simp [nestStep, hshape] at h
        | closer =>
          cases d with
          | zero => exact ⟨k, line, by omega, hline, hshape, hbefore⟩
          | succ d => simp [nestStep, hshape] at h

/-- **Where lines end more blocks than they open**, there is a first end too many. -/
theorem exists_closer_of_excess {lines : List String} {k : Nat}
    (h : openerCount (lines.take k) < closerCount (lines.take k)) :
    ∃ j line, j < k ∧ lines[j]? = some line ∧ LineShape.ofLine line = .closer ∧
      nestAfter (lines.take j) 0 = some 0 := by
  refine exists_closer_of_nestAfter_eq_none ?_
  cases hnest : nestAfter (lines.take k) 0 with
  | none => rfl
  | some d =>
    have hcount := add_closerCount_of_nestAfter hnest
    omega

/-! ## Stacks -/

namespace BlockStack

/-- The stack without frames above the current depth. -/
def cut (b : BlockStack) : BlockStack :=
  { b with frames := b.frames.take (b.depth + 1) }

/-- From the header of a function on, the lines of `body` are taken in one by one, and none of them
ends the function. Then `line` does: the definition has the lines of the body in addition to those
it began with, and the stack is back at the depth of the header, with the frames up to there, and
gathers nothing. -/
structure GathersBody (b : BlockStack) (capture : Capture) (header : Nat) (body : List String)
    (line : String) : Prop where
  within : ∀ k l, body[k]? = some l →
    (((b.beginCapture capture header).gathered (body.take k)).captureLine l).1 = none
  definition : (((b.beginCapture capture header).gathered body).captureLine line).1 =
    some { capture with lines := capture.lines ++ body }
  depth : (((b.beginCapture capture header).gathered body).captureLine line).2.depth = b.depth
  capturing : (((b.beginCapture capture header).gathered body).captureLine line).2.capturing = none
  frames : (((b.beginCapture capture header).gathered body).captureLine line).2.frames =
    b.frames.take (b.depth + 1)

variable {b : BlockStack}

/-- A stack that gathers nothing is settled once the block above its depth is cut off. -/
theorem settled_cut (hdepth : b.depth < b.frames.length) (hcapturing : b.capturing = none) :
    b.cut.Settled := by
  refine ⟨?_, hcapturing⟩
  simp only [cut, List.length_take]
  omega

/-- The header of a function takes the place of a frame above the current depth. -/
theorem beginCapture_eq (hdepth : b.depth < b.frames.length) (capture : Capture) (header : Nat) :
    b.beginCapture capture header = b.cut.gathering header capture 0 := by
  have hround : (b.frames[b.depth + 1]?).any (comesRound .function header) = false := by
    cases b.frames[b.depth + 1]? with
    | none => rfl
    | some f => simp [comesRound, BlockKind.isLoop]
  have hlength : (b.frames.take (b.depth + 1)).length = b.depth + 1 := by
    rw [List.length_take]
    omega
  have hmodify := modify_concat (b.frames.take (b.depth + 1))
    { kind := .function, header := header } fun frame : Frame =>
      { frame with capture := some capture }
  rw [hlength] at hmodify
  simp only [beginCapture, enter, hround, modifyCurrent, gathering, cut]
  simp [hmodify]

/-- **The stack after some lines of a body**: they have become lines of the definition. -/
theorem gathered_gathering (hb : b.Settled) (header : Nat) {lines : List String} {n m : Nat}
    (h : nestAfter lines n = some m) (capture : Capture) :
    (b.gathering header capture n).gathered lines =
      b.gathering header { capture with lines := capture.lines ++ lines } m := by
  induction lines generalizing n capture with
  | nil =>
    cases h
    simp [gathered]
  | cons line lines ih =>
    rw [nestAfter_cons] at h
    obtain ⟨k, hline, hrest⟩ := Option.bind_eq_some_iff.1 h
    have hstep := Activation.captureLine_of_nestStep hb hline header capture
    change ((b.gathering header capture n).captureLine line).2.gathered lines = _
    rw [hstep, ih hrest]
    simp

/-- **Lines that end all blocks that they open** are gathered as a body, up to the next end. -/
theorem gathersBody_of_nestAfter (hdepth : b.depth < b.frames.length)
    (hcapturing : b.capturing = none)
    {body : List String} (hbody : nestAfter body 0 = some 0) {line : String}
    (hline : LineShape.ofLine line = .closer) (capture : Capture) (header : Nat) :
    b.GathersBody capture header body line := by
  have hb := settled_cut hdepth hcapturing
  have hend : ((b.beginCapture capture header).gathered body).captureLine line =
      (some { capture with lines := capture.lines ++ body }, b.cut) := by
    rw [beginCapture_eq hdepth, gathered_gathering hb header hbody,
      hb.captureLine_gathering_last hline]
  refine ⟨?_, by rw [hend], by rw [hend]; rfl, by rw [hend]; exact hcapturing, by rw [hend]; rfl⟩
  intro k l hl
  -- the lines up to this one and with it stay inside the function
  obtain ⟨d, hd⟩ := nestAfter_take hbody k
  obtain ⟨e, he⟩ := nestAfter_take hbody (k + 1)
  rw [take_succ_of_getElem? hl, nestAfter_concat, hd, Option.bind_some] at he
  rw [beginCapture_eq hdepth, gathered_gathering hb header hd,
    Activation.captureLine_of_nestStep hb he]

/-- **Gathering takes exactly the body.** Where a run stands outside the bodies of functions, the
frame of its current depth is there, and the header of a function, whether it fails or not, begins a
definition without lines. From the header on, balanced lines are all taken in, word for word and in
their order, and whatever line ends a block next gives the definition with just these lines and
leaves the stack as the header found it. Lines that end one block more than they open are taken in
up to the first such end, which is where gathering stops.

**Proof sketch.** While the lines stay inside the function, the depth of the stack is that of the
header and one more, plus the nesting of the lines (`gathered_gathering`), and the frame of the
function stays on top. So the end of the function is met where the nesting would become negative,
which for balanced lines is right after them. -/
theorem gathers_body_exactly :
    (∀ code zone (s : Session) steps,
      ∀ a ∈ Activation.visited steps (Text.lines code).toArray
          { session := { s with zone := zone } },
        a.blocks.capturing = none → a.blocks.depth < a.blocks.frames.length) ∧
    (∀ run name params header (a a' : Activation) o,
      (Activation.openFunction run name params header).runFrom a = .ok (o, a') →
        ∃ capture : Capture, capture.lines = [] ∧
          a'.blocks = a.blocks.beginCapture capture header) ∧
    ∀ b : BlockStack, b.depth < b.frames.length → b.capturing = none → ∀ capture header,
      (∀ body line, Balanced body → LineShape.ofLine line = .closer →
        b.GathersBody capture header body line) ∧
      ∀ (lines : List String) (k : Nat),
        closerCount (lines.take k) = openerCount (lines.take k) + 1 →
        ∃ j line, j < k ∧ lines[j]? = some line ∧ LineShape.ofLine line = .closer ∧
          Balanced (lines.take j) ∧ b.GathersBody capture header (lines.take j) line := by
  refine ⟨?_, ?_, ?_⟩
  · intro code zone s steps a ha hcapturing
    have htracks := Activation.visited_tracks (tracks_start _) ha
    exact (htracks.stack.outside hcapturing).depth_lt
  · intro run name params header a a' o hrun
    exact (Activation.openFunction_begins hrun).2
  · intro b hdepth hcapturing capture header
    refine ⟨?_, ?_⟩
    · intro body line hbody hline
      exact gathersBody_of_nestAfter hdepth hcapturing (nestAfter_of_balanced hbody) hline _ _
    · intro lines k hexcess
      have hlt : openerCount (lines.take k) < closerCount (lines.take k) := by omega
      obtain ⟨j, line, hj, hfound, hline, hnest⟩ := exists_closer_of_excess hlt
      exact ⟨j, line, hj, hfound, hline, balanced_of_nestAfter hnest,
        gathersBody_of_nestAfter hdepth hcapturing hnest hline _ _⟩

/-- A body with a block, and with a function that has a block of its own. -/
def nestedBody : List String :=
  ["if true", "echo 'end'", "end", "function g", "while false", "end", "end", "; end"]

/-- At the header of a function inside a loop, all of the body is gathered; of its lines without the
first one, only those before the end of the `if` are. -/
theorem gathers_body_exactly_nestedBody :
    ∃ a ∈ Activation.visited 12 (Text.lines loopSource).toArray { session := {} },
      a.next = 1 ∧ a.blocks.capturing = none ∧ a.blocks.depth = 1 ∧
        Balanced nestedBody ∧
        a.blocks.GathersBody { name := "f" } 1 nestedBody "end" ∧
        a.blocks.GathersBody { name := "f" } 1 ["echo 'end'"] "end" := by
  have hobserved : (Activation.visited 12 (Text.lines loopSource).toArray { session := {} })[1]?.map
      (fun a => (a.next, a.blocks.capturing, a.blocks.depth)) = some (1, none, 1) := by
    decide +kernel
  have hnest : nestAfter nestedBody 0 = some 0 := by decide +kernel
  have hexcess : closerCount (nestedBody.tail.take 2) =
      openerCount (nestedBody.tail.take 2) + 1 := by
    decide +kernel
  obtain ⟨a, ha, hobserved⟩ := Option.map_eq_some_iff.1 hobserved
  have hmem := List.mem_of_getElem? ha
  obtain ⟨hnext, hrest⟩ := Prod.mk.inj hobserved
  obtain ⟨hcapturing, hdepth⟩ := Prod.mk.inj hrest
  obtain ⟨hframe, -, hgathers⟩ := gathers_body_exactly
  have hlt := hframe loopSource none {} 12 a hmem hcapturing
  obtain ⟨hbody, hstop⟩ := hgathers a.blocks hlt hcapturing { name := "f" } 1
  have hbalanced := balanced_of_nestAfter hnest
  refine ⟨a, hmem, hnext, hcapturing, hdepth, hbalanced,
    hbody _ _ hbalanced (by decide +kernel), ?_⟩
  obtain ⟨j, line, hj, hline, hshape, -, hgathered⟩ := hstop nestedBody.tail 2 hexcess
  obtain rfl | rfl : j = 0 ∨ j = 1 := by omega
  · cases hline
    have hother : LineShape.ofLine "echo 'end'" ≠ .closer := by decide +kernel
    exact absurd hshape hother
  · cases hline
    exact hgathered

end BlockStack

end LineScript
