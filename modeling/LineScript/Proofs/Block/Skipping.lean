import Mathlib.Logic.Relation
import LineScript.Proofs.Block.Run

set_option relaxedAutoImplicit false
set_option autoImplicit false

/-!
# Bodies that have run can be skipped

The lines of an inactive block are not run, but they are read: a line that cannot be read, an `else`
without an `if` or an `end` too many would stop the run there as well. So a body that is skipped
after it has run must have been read before. This is true of every body of a loop that runs to its
end once: whatever its blocks, functions and jumps, the run comes to each of its lines, and reads
from them what a run that skips them reads.

## Main definitions

* `LineScript.Activation.Moves`, `LineScript.Activation.Goes` — a step of a run, and steps at some
  lines.
* `LineScript.BlockStack.Above` — a stack with open blocks on it.
* `LineScript.Activation.Skips` — a run that skips lines comes to a place, with some blocks open.

## Main results

* `LineScript.Activation.runOutside_cases` — what a line that the run goes on after has done.
* `LineScript.Activation.Invariant.step` — at every step in a body, skipping comes to the same
  place.
* `LineScript.Activation.passes_of_goes` — a body that has run to its end is skipped to its end.
-/

namespace LineScript

/-- The kind of the block that a statement opens, except for functions. -/
def Statement.opens? : Statement → Option BlockKind
  | .branch _ => some .branch
  | .loop _ => some .loop
  | .count .. => some (.count none)
  | .each .. => some .each
  | _ => none

/-- The stack is `base` with a branch on it, whose header is on line `header`. -/
def BlockStack.AsBranch (base : BlockStack) (header : Nat) (b : BlockStack) : Prop :=
  ∃ f : Frame, b = base.push f ∧ f.header = header ∧ f.kind = .branch

namespace Activation

/-! ## Steps -/

/-- One step of a run, which goes on after it. -/
def Moves (source : Array String) (a b : Activation) : Prop :=
  ∃ n, (step (Session.runner n) source).runFrom a = .ok (.ok none, b)

/-- The run goes from `a` to `b` in steps at the lines from `first` up to, but without, `last`. -/
def Goes (source : Array String) (first last : Nat) : Activation → Activation → Prop :=
  Relation.ReflTransGen fun a b => first ≤ a.next ∧ a.next < last ∧ Moves source a b

/-- What a statement and its outcome leave of a run that goes on. -/
def Resumes (b c : Activation) : Except ScriptError Flow → Prop
  | .ok .next => b = c
  | .ok (.jump header) => b = { c with next := header }
  | .ok (.finish _) => False
  | .error e => e.recoverable = true ∧ b.next = c.next ∧ b.blocks = c.blocks

section Statements

variable {run : SourceRunner} {i : Nat} {line : String} {a b c : Activation} {base : BlockStack}

/-- **A line that the run goes on after** has been read, and its statement has been run.

**Proof sketch.** The run goes on after the line only if its outcome resumes. A line that cannot be
read fails with an error that is not recovered, so it has been read. -/
theorem runOutside_cases (h : (runOutside run i line).runFrom a = .ok (.ok none, b)) :
    ∃ st o c, Statement.parse line = .ok st ∧ (runStatement run i st).runFrom a = .ok (o, c) ∧
      Resumes b c o := by
  unfold runOutside at h
  rcases Action.runFrom_bind_eq_ok.1 h with ⟨e, -, he⟩ | ⟨o, c, hattempt, hrest⟩
  · cases he
  obtain ⟨p, hline, hp⟩ := Action.runFrom_attempt_eq_ok.1 hattempt
  cases hp
  have hresumes : Resumes b c o := by
    rcases o with e | flow
    · rcases Action.runFrom_bind_eq_ok.1 hrest with ⟨e', -, he'⟩ | ⟨_, d, hrecover, hpure⟩
      · cases he'
      · cases hpure
        exact recover_keeps hrecover
    · cases flow with
      | next =>
        cases hrest
        rfl
      | jump header =>
        cases hrest
        rfl
      | finish v => cases hrest
  unfold runLine at hline
  rw [Action.runFrom_bind, Action.runFrom_ofExcept] at hline
  rcases hparse : Statement.parse line with e | st
  · simp only [hparse] at hline
    cases hline
    have hrecoverable := hresumes.1
    rw [(Statement.parse_malformed hparse).not_recoverable] at hrecoverable
    cases hrecoverable
  · simp only [hparse] at hline
    exact ⟨st, o, c, rfl, hline, hresumes⟩

/-- A header goes on at the next line, also after a failure. -/
theorem resumes_next {act : Action Activation Unit} {o : Except ScriptError Flow}
    (hrun : (act >>= fun _ => pure .next).runFrom a = .ok (o, c)) (h : Resumes b c o) :
    (∃ o', act.runFrom a = .ok (o', c)) ∧ b.next = c.next ∧ b.blocks = c.blocks := by
  rcases Action.runFrom_bind_eq_ok.1 hrun with ⟨e, hact, rfl⟩ | ⟨u, d, hact, hpure⟩
  · exact ⟨⟨_, hact⟩, h.2⟩
  · cases hpure
    cases h
    exact ⟨⟨_, hact⟩, rfl, rfl⟩

/-- The header of a block puts it on the stack. -/
theorem opener_resumes {st : Statement} {kind : BlockKind} {o : Except ScriptError Flow}
    (hopens : st.opens? = some kind) (hbase : base.Settled) (henters : base.Enters a.blocks i)
    (hrun : (runStatement run i st).runFrom a = .ok (o, c)) (h : Resumes b c o) :
    b.next = a.next ∧ base.HasBlock i kind.isBranch b.blocks := by
  have hblock : ∀ {act : Action Activation Unit} {isBranch : Bool},
      (∀ {o}, act.runFrom a = .ok (o, c) → c.next = a.next ∧ base.HasBlock i isBranch c.blocks) →
      (act >>= fun _ => pure .next).runFrom a = .ok (o, c) →
        b.next = a.next ∧ base.HasBlock i isBranch b.blocks := fun hact hrun => by
    obtain ⟨⟨o', hact'⟩, hnext, hblocks⟩ := resumes_next hrun h
    rw [hnext, hblocks]
    exact hact hact'
  cases st with
  | branch condition =>
    cases hopens
    exact hblock (openBranch_hasBlock hbase henters) hrun
  | loop condition =>
    cases hopens
    exact hblock (openLoop_hasBlock hbase henters) hrun
  | count name start stop step =>
    cases hopens
    exact hblock (openCount_hasBlock hbase henters) hrun
  | each name src =>
    cases hopens
    exact hblock (openEach_hasBlock hbase henters) hrun
  | _ => cases hopens

/-- After the header of a function its body is gathered. -/
theorem function_resumes {name : String} {params : Option String} {o : Except ScriptError Flow}
    (henters : base.Enters a.blocks i)
    (hrun : (runStatement run i (.function name params)).runFrom a = .ok (o, c))
    (h : Resumes b c o) :
    b.next = a.next ∧ ∃ capture, b.blocks = base.gathering i capture 0 := by
  obtain ⟨⟨o', hact⟩, hnext, hblocks⟩ := resumes_next hrun h
  rw [hnext, hblocks]
  exact openFunction_gathering henters hact

/-- What continues a branch may change it, but leaves it where it is. -/
theorem modifyFrame_asBranch (hbase : base.Settled) {header : Nat} {change : Frame → Frame}
    (h : ∀ g : Frame, g.header = header → g.kind = .branch →
      (change g).header = header ∧ (change g).kind = .branch) :
    Action.Along (Keeps (base.AsBranch header)) (modifyFrame change) := by
  refine modifyFrame_keeps ?_
  rintro _ ⟨g, rfl, hheader, hkind⟩
  exact ⟨change g, hbase.modifyCurrent_push g change, h g hheader hkind⟩

/-- What is done with the branch that is found goes on at the next line. Without one, the run ends.

**Proof sketch.** A frame of another kind gives an error that ends the run. At a branch the frame is
found, and `body` keeps it as a branch with the same header. -/
theorem branchFrame_resumes {word : BranchWord} {body : Frame × Bool → Action Activation Unit}
    {f : Frame} {o : Except ScriptError Flow} (hbase : base.Settled) (ha : a.blocks = base.push f)
    (hbody : f.kind = .branch →
      Action.Along (Keeps (base.AsBranch f.header)) (body (f, base.active)))
    (hrun : ((do
      let a ← get
      let found ← Action.ofExcept (a.blocks.branchFrame word)
      body found) >>= fun _ => pure .next : Action Activation Flow).runFrom a = .ok (o, c))
    (h : Resumes b c o) :
    f.kind = .branch ∧ b.next = a.next ∧ base.AsBranch f.header b.blocks := by
  cases hbranch : f.kind.isBranch with
  | false =>
    rw [Action.runFrom_bind, Action.runFrom_get_bind, Action.runFrom_bind,
      Action.runFrom_ofExcept, ha, hbase.branchFrame_push_of_not_branch hbranch] at hrun
    cases hrun
    cases h.1
  | true =>
    have hkind : f.kind = .branch := BlockKind.eq_branch_of_isBranch hbranch
    obtain ⟨⟨o', hact⟩, hnext, hblocks⟩ := resumes_next hrun h
    rw [Action.runFrom_get_bind, Action.runFrom_bind, Action.runFrom_ofExcept, ha,
      hbase.branchFrame_push hkind] at hact
    obtain ⟨hnext', hkeeps⟩ := hbody hkind a o' c hact
    rw [hnext, hblocks]
    exact ⟨hkind, hnext', hkeeps ⟨f, ha, rfl, hkind⟩⟩

/-- A further branch with a condition, where the run goes on after it: it stands in a branching
block, which stays the current one. -/
theorem otherwiseIf_resumes {condition : String} {f : Frame} {o : Except ScriptError Flow}
    (hbase : base.Settled) (ha : a.blocks = base.push f)
    (hrun : (runStatement run i (.otherwiseIf condition)).runFrom a = .ok (o, c))
    (h : Resumes b c o) :
    f.kind = .branch ∧ b.next = a.next ∧ base.AsBranch f.header b.blocks := by
  refine branchFrame_resumes hbase ha (fun _ => ?_) hrun h
  dsimp only
  split
  · exact .bind (onSession_keeps _) fun v => modifyFrame_asBranch hbase fun g hheader hkind =>
      ⟨hheader, hkind⟩
  · exact modifyFrame_asBranch hbase fun g hheader hkind => ⟨hheader, hkind⟩

/-- A last branch, where the run goes on after it: it stands in a branching block, which stays the
current one. -/
theorem otherwise_resumes {f : Frame} {o : Except ScriptError Flow} (hbase : base.Settled)
    (ha : a.blocks = base.push f) (hrun : (runStatement run i .otherwise).runFrom a = .ok (o, c))
    (h : Resumes b c o) :
    f.kind = .branch ∧ b.next = a.next ∧ base.AsBranch f.header b.blocks := by
  refine branchFrame_resumes hbase ha (fun hbranch => ?_) hrun h
  exact modifyFrame_asBranch hbase fun _ _ _ => ⟨rfl, hbranch⟩

/-- The end of a block leads back to the header of an active loop, or behind the block. -/
theorem close_resumes {f : Frame} {o : Except ScriptError Flow} (hbase : base.Settled)
    (ha : a.blocks = base.push f) (hrun : close.runFrom a = .ok (o, c)) (h : Resumes b c o) :
    (f.kind.isLoop = true ∧ b.next = f.header ∧ b.blocks = base.returning f) ∨
      (f.kind.isLoop && f.active) = false ∧ b.next = a.next ∧ b.blocks = base := by
  unfold close at hrun
  rw [Action.runFrom_get_bind, Action.runFrom_bind, Action.runFrom_ofExcept, ha] at hrun
  cases hloop : f.kind.isLoop && f.active with
  | true =>
    obtain ⟨hkind, hactive⟩ := Bool.and_eq_true_iff.1 hloop
    rw [hbase.close_push_of_loop hkind hactive] at hrun
    cases hrun
    cases h
    exact .inl ⟨hkind, rfl, rfl⟩
  | false =>
    rw [hbase.close_push hloop] at hrun
    cases hrun
    cases h
    exact .inr ⟨rfl, rfl, rfl⟩

/-- A simple statement leaves the blocks as they are. -/
theorem simple_resumes {st : Statement} {o : Except ScriptError Flow} (hst : st.isSimple = true)
    (hrun : (runStatement run i st).runFrom a = .ok (o, c)) (h : Resumes b c o) :
    b.next = a.next ∧ b.blocks = a.blocks := by
  have hstatement : runStatement run i st = (do
      let a ← get
      if a.blocks.active then onSession (Session.runSimple run st) else pure .next) := by
    cases st <;> first | rfl | cases hst
  rw [hstatement, Action.runFrom_get_bind] at hrun
  split at hrun
  · obtain ⟨s, hsimple, rfl⟩ := Action.runFrom_zoom_eq_ok.1 hrun
    rcases o with e | flow
    · exact h.2
    · cases flow with
      | next =>
        cases h
        exact ⟨rfl, rfl⟩
      | jump header => exact absurd rfl (runSimple_gives run st a.session _ s hsimple header)
      | finish v => exact h.elim
  · cases hrun
    cases h
    exact ⟨rfl, rfl⟩

end Statements

end Activation

/-! ## Stacks of open blocks -/

namespace BlockStack

/-- The stack is `ground` with blocks on it, all of which satisfy `P`. Of each block, innermost
first, it is told whether it is a branch, and on which line its header is. -/
inductive Above (P : Frame → Prop) (ground : BlockStack) : List (Bool × Nat) → BlockStack → Prop
  | ground : Above P ground [] ground
  | push {opened : List (Bool × Nat)} {b : BlockStack} {f : Frame} :
      Above P ground opened b → P f →
        Above P ground ((f.kind.isBranch, f.header) :: opened) (b.push f)

namespace Above

variable {P : Frame → Prop} {ground b : BlockStack} {opened : List (Bool × Nat)}

/-- A stack over a settled one is settled. -/
theorem settled (h : Above P ground opened b) (hground : ground.Settled) : b.Settled := by
  induction h with
  | ground => exact hground
  | push _ _ ih => exact ih.push _

/-- The depth is that of the ground and one for each open block. -/
theorem depth_eq (h : Above P ground opened b) : b.depth = ground.depth + opened.length := by
  induction h with
  | ground => rfl
  | push _ _ ih => exact congrArg Nat.succ ih

/-- A stack of inactive blocks over inactive ground is inactive. -/
theorem inactive (h : Above (fun f => f.active = false) ground opened b) (hground : ground.Settled)
    (hactive : ground.active = false) : b.active = false := by
  cases h with
  | ground => exact hactive
  | push hb hf => rw [(hb.settled hground).active_push, hf]

/-- A block with known header and kind. -/
theorem push_of_eq {header : Nat} {isBranch : Bool} {f : Frame} (h : Above P ground opened b)
    (hf : P f) (hkind : f.kind.isBranch = isBranch) (hheader : f.header = header) :
    Above P ground ((isBranch, header) :: opened) (b.push f) := by
  rw [← hkind, ← hheader]
  exact .push h hf

end Above

/-- The stack of a run that skips lines: blocks that are all inactive, and maybe a function that is
gathered but not registered, in which `nested` blocks are open. -/
inductive Dormant (ground : BlockStack) (opened : List (Bool × Nat)) :
    Option Nat → BlockStack → Prop
  | settled {b : BlockStack} :
      Above (fun f => f.active = false) ground opened b → Dormant ground opened none b
  | gathering {b : BlockStack} {header nested : Nat} {capture : Capture} :
      Above (fun f => f.active = false) ground opened b → capture.register = false →
        Dormant ground opened (some nested) (b.gathering header capture nested)

end BlockStack

namespace Activation

open BlockStack (Above Dormant)

/-! ## Lines that are skipped -/

/-- From line `first` on, skipping lines comes to line `i` with the given blocks open, and with
nothing else done. -/
def Skips (source : Array String) (ground : BlockStack) (first i : Nat) (opened : List (Bool × Nat))
    (nested : Option Nat) : Prop :=
  ∀ t : Session, ∃ k l b, Dormant ground opened nested b ∧
    Passes source k ⟨t, ground, first⟩ ⟨t.atLine l, b, i⟩

section Skips

variable {source : Array String} {ground : BlockStack} {first i : Nat} {opened : List (Bool × Nat)}
  {nested : Option Nat} {line : String}

/-- One more line is skipped. -/
theorem Skips.further (h : Skips source ground first i opened nested) {opened' : List (Bool × Nat)}
    {nested' : Option Nat}
    (hline : ∀ b, Dormant ground opened nested b → ∀ s : Session, ∃ b',
      Dormant ground opened' nested' b' ∧ Passes source 1 ⟨s, b, i⟩ ⟨s.atLine (i + 1), b', i + 1⟩) :
    Skips source ground first (i + 1) opened' nested' := by
  intro t
  obtain ⟨k, l, b, hb, hpasses⟩ := h t
  obtain ⟨b', hb', hpass⟩ := hline b hb (t.atLine l)
  exact ⟨k + 1, i + 1, b', hb', hpasses.trans hpass⟩

/-- The header of a block in an inactive block. -/
theorem passes_opener {st : Statement} {kind : BlockKind} {b : BlockStack} {s : Session}
    (line : LineOf st)
    (hopens : st.opens? = some kind) (hline : source[i]?.map Text.trim = some line.text)
    (hb : b.Settled) (hactive : b.active = false) :
    Passes source 1 ⟨s, b, i⟩ ⟨s.atLine (i + 1), b.push { kind := kind, header := i }, i + 1⟩ := by
  refine passes_statement line hline hb.capturing fun run => ?_
  cases st with
  | branch condition =>
    cases hopens
    simp only [runStatement, openBranch, Action.runFrom_bind, runFrom_enter, hb.enter, hactive,
      Bool.false_eq_true, if_false, Action.runFrom_pure]
  | loop condition =>
    cases hopens
    simp only [runStatement, openLoop, Action.runFrom_bind, runFrom_enter, hb.enter, hactive,
      Bool.false_eq_true, if_false, Action.runFrom_pure]
  | count name start stop step =>
    cases hopens
    simp only [runStatement, openCount, Action.runFrom_bind, runFrom_enter, hb.enter, hactive,
      Bool.false_eq_true, if_false, Action.runFrom_pure]
  | each name src =>
    cases hopens
    simp only [runStatement, openEach, Action.runFrom_bind, runFrom_enter, hb.enter, hactive,
      Bool.false_eq_true, if_false, Action.runFrom_pure]
  | _ => cases hopens

/-- A line of a function that is not registered. -/
theorem passes_captureLine {b : BlockStack} {s : Session}
    (hline : source[i]?.map Text.trim = some line) (hb : b.isCapturing = true)
    (hcapture : ∀ capture, (b.captureLine line).1 = some capture → capture.register = false) :
    Passes source 1 ⟨s, b, i⟩ ⟨s.atLine (i + 1), (b.captureLine line).2, i + 1⟩ := by
  refine .of_step fun run => ?_
  rw [runFrom_step hline, if_pos hb]
  rcases hfinished : (b.captureLine line).1 with _ | capture
  · simp only [gatherLine, Action.runFrom_bind, Action.runFrom_get, hfinished, Action.runFrom_set,
      Action.runFrom_pure]
  · simp only [gatherLine, Action.runFrom_bind, Action.runFrom_get, hfinished, Action.runFrom_set,
      Action.runFrom_attempt, onSession, Action.runFrom_zoom, Session.defineCaptured,
      hcapture capture hfinished, Bool.false_eq_true, if_false, Action.runFrom_pure]

/-- The only line that does not nest is an end with no block open. -/
theorem nestStep_eq_none {nested : Nat} (h : nestStep nested line = none) :
    nested = 0 ∧ LineShape.ofLine line = .closer := by
  unfold nestStep at h
  split at h
  · cases h
  next hcloser => exact ⟨rfl, hcloser⟩
  · cases h
  · cases h

section Kinds

variable (hground : ground.Settled) (hactive : ground.active = false)
  (hline : source[i]?.map Text.trim = some line)

include hground hline

/-- Skipping an idle line. -/
theorem Skips.idle (hidle : isIdle line = true) (h : Skips source ground first i opened none) :
    Skips source ground first (i + 1) opened none := by
  refine h.further ?_
  rintro b ⟨hb⟩ s
  exact ⟨b, .settled hb, passes_idle ⟨line, hidle⟩ hline (hb.settled hground).capturing⟩

/-- The end of a block that is skipped. -/
theorem Skips.close (hparse : Statement.parse line = .ok .close) {isBranch : Bool} {header : Nat}
    (h : Skips source ground first i ((isBranch, header) :: opened) none) :
    Skips source ground first (i + 1) opened none := by
  refine h.further ?_
  rintro b ⟨hb⟩ s
  cases hb with
  | push hb hf =>
    exact ⟨_, .settled hb, passes_close ⟨line, hparse⟩ hline (hb.settled hground) (by simp [hf])⟩

/-- A line of a function goes to its body, or ends it. -/
theorem Skips.gather {nested : Nat} (h : Skips source ground first i opened (some nested)) :
    Skips source ground first (i + 1) opened (nestStep nested line) := by
  refine h.further ?_
  rintro _ (_ | @⟨b, header, nested, capture, hb, hcapture⟩) s
  have hsettled := hb.settled hground
  rcases hstep : nestStep nested line with _ | nested'
  · obtain ⟨rfl, hcloser⟩ := nestStep_eq_none hstep
    have hlast := hsettled.captureLine_gathering_last hcloser header capture
    have hpasses := passes_captureLine (s := s) hline (b.isCapturing_gathering header capture 0)
      (by rw [hlast]; rintro _ ⟨⟩; exact hcapture)
    rw [hlast] at hpasses
    exact ⟨b, .settled hb, hpasses⟩
  · have hkept := captureLine_of_nestStep hsettled hstep header capture
    have hpasses := passes_captureLine (s := s) hline
      (b.isCapturing_gathering header capture nested) (by rw [hkept]; rintro _ ⟨⟩)
    rw [hkept] at hpasses
    refine ⟨_, .gathering hb ?_, hpasses⟩
    exact hcapture

include hactive

/-- Skipping a statement that neither opens nor ends a block. -/
theorem Skips.simple {st : Statement} (hparse : Statement.parse line = .ok st)
    (hst : st.isSimple = true)
    (h : Skips source ground first i opened none) :
    Skips source ground first (i + 1) opened none := by
  refine h.further ?_
  rintro b ⟨hb⟩ s
  exact ⟨b, .settled hb, passes_simple ⟨line, hparse⟩ hst hline (hb.settled hground).capturing
    (hb.inactive hground hactive)⟩

/-- Skipping a header opens its block. -/
theorem Skips.opener {st : Statement} {kind : BlockKind} (hparse : Statement.parse line = .ok st)
    (hopens : st.opens? = some kind) (h : Skips source ground first i opened none) :
    Skips source ground first (i + 1) ((kind.isBranch, i) :: opened) none := by
  refine h.further ?_
  rintro b ⟨hb⟩ s
  exact ⟨_, .settled (hb.push_of_eq rfl rfl rfl), passes_opener ⟨line, hparse⟩ hopens hline
    (hb.settled hground) (hb.inactive hground hactive)⟩

/-- Skipping the header of a function begins to gather it. -/
theorem Skips.function {name : String} {params : Option String}
    (hparse : Statement.parse line = .ok (.function name params))
    (h : Skips source ground first i opened none) :
    Skips source ground first (i + 1) opened (some 0) := by
  refine h.further ?_
  rintro b ⟨hb⟩ s
  obtain ⟨capture, hcapture, hpasses⟩ := passes_function (s := s) ⟨line, hparse⟩ hline
    (hb.settled hground) (hb.inactive hground hactive)
  exact ⟨_, .gathering hb hcapture, hpasses⟩

/-- An `else` or `elseif` in a block that is skipped.

**Proof sketch.** The innermost open block is a branch, and it is inactive, as all blocks above the
ground are. So both lines pass it and leave the same kinds and headers on the stack. -/
theorem Skips.branch {header : Nat}
    (hparse : Statement.parse line = .ok .otherwise ∨
      ∃ condition, Statement.parse line = .ok (.otherwiseIf condition))
    (h : Skips source ground first i ((true, header) :: opened) none) :
    Skips source ground first (i + 1) ((true, header) :: opened) none := by
  refine h.further ?_
  rintro _ ⟨hb⟩ s
  generalize hopened : (true, header) :: opened = blocks at hb
  cases hb with
  | ground => cases hopened
  | @push rest b f hb hf =>
    rw [List.cons.injEq, Prod.mk.injEq] at hopened
    obtain ⟨⟨hbranch, rfl⟩, rfl⟩ := hopened
    have hsettled := hb.settled hground
    have hinactive := hb.inactive hground hactive
    have hkind : f.kind = .branch := BlockKind.eq_branch_of_isBranch hbranch.symm
    rcases hparse with hparse | ⟨condition, hparse⟩
    · refine ⟨_, .settled (hb.push_of_eq ?_ ?_ ?_),
        passes_otherwise ⟨line, hparse⟩ hline hsettled hkind⟩
      · rw [hinactive]
        rfl
      · rfl
      · rfl
    · have hpassed : (b.active && !f.branchTaken) = false := by rw [hinactive, Bool.false_and]
      refine ⟨_, .settled (hb.push_of_eq ?_ ?_ ?_),
        passes_otherwiseIf ⟨line, hparse⟩ hline hsettled hkind hpassed⟩
      · rfl
      · rfl
      · rfl

end Kinds

end Skips

/-! ## A body that runs -/

/-- Whether the line with index `i` is the header of a block. -/
def IsHeader (source : Array String) (i : Nat) : Prop :=
  ∃ line st kind, source[i]?.map Text.trim = some line ∧ Statement.parse line = .ok st ∧
    st.opens? = some kind

/-- The stack of a run inside a body, at line `i`: open blocks, a loop that comes back to its header
there, or a function that is gathered. -/
inductive Stays (source : Array String) (ground : BlockStack) (i : Nat)
    (opened : List (Bool × Nat)) :
    Option Nat → BlockStack → Prop
  | settled {b : BlockStack} :
      Above (fun _ => True) ground opened b → Stays source ground i opened none b
  | returning {b : BlockStack} {f : Frame} :
      Above (fun _ => True) ground opened b → f.kind.isLoop = true → f.header = i →
      IsHeader source i →
        Stays source ground i opened none (b.returning f)
  | gathering {b : BlockStack} {header nested : Nat} {capture : Capture} :
      Above (fun _ => True) ground opened b →
        Stays source ground i opened (some nested) (b.gathering header capture nested)

/-- Skipping has come to the headers of the open blocks, each time with the blocks around it open.
-/
def Reached (source : Array String) (dead : BlockStack) (first : Nat) : List (Bool × Nat) → Prop
  | [] => True
  | (_, header) :: opened =>
    IsHeader source header ∧ Skips source dead first header opened none ∧
    Reached source dead first opened

/-- What is true all along the run of a body: skipping comes to the line at the cursor, with the
same blocks open, and has come to the headers that the run may come back to. -/
def Invariant (source : Array String) (ground dead : BlockStack) (first : Nat)
    (a : Activation) : Prop :=
  ∃ opened nested, Stays source ground a.next opened nested a.blocks ∧
    Skips source dead first a.next opened nested ∧ Reached source dead first opened

section Bodies

variable {source : Array String} {base dead : BlockStack} {f : Frame} {first i : Nat}
  {line : String} {run : SourceRunner} {a b : Activation} {opened : List (Bool × Nat)}
  (hbase : base.Settled) (hloop : f.kind.isLoop = true) (hrunning : f.active = true)
  (hdead : dead.Settled) (hactive : dead.active = false)

section Lines

variable (hline : source[i]?.map Text.trim = some line)

include hdead hline

/-- A line of a function that is gathered. -/
theorem invariant_gathering (hbase : base.Settled) {c : BlockStack} {header nested : Nat}
    {capture : Capture} {o : Except ScriptError Unit}
    (hc : Above (fun _ => True) (base.push f) opened c)
    (hskips : Skips source dead first i opened (some nested))
    (hreached : Reached source dead first opened)
    (ha : a.blocks = c.gathering header capture nested) (hnext : a.next = i + 1)
    (hrun : (gatherLine line).runFrom a = .ok (o, b)) :
    Invariant source (base.push f) dead first b := by
  obtain ⟨hcursor, hblocks⟩ := gatherLine_blocks hrun
  have hsettled := hc.settled (hbase.push f)
  have hfurther := hskips.gather hdead hline
  rw [ha] at hblocks
  rw [hnext] at hcursor
  rcases hstep : nestStep nested line with _ | nested'
  · obtain ⟨rfl, hcloser⟩ := nestStep_eq_none hstep
    rw [hsettled.captureLine_gathering_last hcloser] at hblocks
    rw [hstep] at hfurther
    refine ⟨opened, none, ?_, hcursor ▸ hfurther, hreached⟩
    rw [hblocks]
    exact .settled hc
  · rw [captureLine_of_nestStep hsettled hstep] at hblocks
    rw [hstep] at hfurther
    refine ⟨opened, some nested', ?_, hcursor ▸ hfurther, hreached⟩
    rw [hblocks]
    exact .gathering hc

include hactive

/-- The header of a block, reached from above or coming round. -/
theorem invariant_opener {c : BlockStack} {st : Statement} {kind : BlockKind}
    (hparse : Statement.parse line = .ok st) (hopens : st.opens? = some kind)
    (hc : Above (fun _ => True) (base.push f) opened c)
    (hskips : Skips source dead first i opened none) (hreached : Reached source dead first opened)
    (hnext : b.next = i + 1) (hblock : c.HasBlock i kind.isBranch b.blocks) :
    Invariant source (base.push f) dead first b := by
  obtain ⟨g, hblocks, hheader, hkind, -⟩ := hblock
  refine ⟨(kind.isBranch, i) :: opened, none, ?_, ?_,
    ⟨line, st, kind, hline, hparse, hopens⟩, hskips, hreached⟩
  · rw [hblocks]
    exact .settled (hc.push_of_eq trivial hkind hheader)
  · rw [hnext]
    exact hskips.opener hdead hactive hline hparse hopens

include hbase hloop

/-- An `else` or `elseif` continues a branch of the body. -/
theorem invariant_branch
    (hparse : Statement.parse line = .ok .otherwise ∨
      ∃ condition, Statement.parse line = .ok (.otherwiseIf condition))
    (ha : Above (fun _ => True) (base.push f) opened a.blocks)
    (hskips : Skips source dead first i opened none) (hreached : Reached source dead first opened)
    (hnext : a.next = i + 1)
    (hbranch : ∀ (d : BlockStack) (g : Frame), d.Settled → a.blocks = d.push g →
      g.kind = .branch ∧ b.next = a.next ∧ d.AsBranch g.header b.blocks) :
    Invariant source (base.push f) dead first b := by
  obtain ⟨s, blocks, next⟩ := a
  cases ha with
  | ground =>
    obtain ⟨hkind, -⟩ := hbranch base f hbase rfl
    rw [hkind] at hloop
    cases hloop
  | @push opened d g hd _ =>
    obtain ⟨hkind, hcursor, g', hblocks, hheader, hkind'⟩ :=
      hbranch d g (hd.settled (hbase.push f)) rfl
    rw [hkind] at hskips
    refine ⟨(true, g.header) :: opened, none, ?_, ?_, hreached⟩
    · rw [hblocks]
      exact .settled (hd.push_of_eq trivial (by rw [hkind']; rfl) hheader)
    · rw [hcursor, hnext]
      exact hskips.branch hdead hactive hline hparse

include hrunning

omit hactive in
/-- The end of a block leads behind it, back to its header, or out of the body. -/
theorem invariant_close {c : Activation} {o : Except ScriptError Flow}
    (hparse : Statement.parse line = .ok .close)
    (ha : Above (fun _ => True) (base.push f) opened a.blocks)
    (hskips : Skips source dead first i opened none) (hreached : Reached source dead first opened)
    (hnext : a.next = i + 1) (hrun : close.runFrom a = .ok (o, c)) (hresumes : Resumes b c o) :
    Invariant source (base.push f) dead first b ∨ b.next = f.header := by
  obtain ⟨s, blocks, next⟩ := a
  cases ha with
  | ground =>
    -- no block of the body is open, so this is the end of the loop itself
    rcases close_resumes hbase rfl hrun hresumes with ⟨-, hcursor, -⟩ | ⟨hends, -⟩
    · exact .inr hcursor
    · rw [hloop, hrunning] at hends
      cases hends
  | @push opened d g hd _ =>
    obtain ⟨hheader, hcame, hreached⟩ := hreached
    left
    rcases close_resumes (hd.settled (hbase.push f)) rfl hrun hresumes with
      ⟨hg, hcursor, hblocks⟩ | ⟨-, hcursor, hblocks⟩
    · refine ⟨opened, none, ?_, ?_, hreached⟩
      · rw [hblocks, hcursor]
        exact .returning hd hg rfl hheader
      · rw [hcursor]
        exact hcame
    · refine ⟨opened, none, ?_, ?_, hreached⟩
      · rw [hblocks]
        exact .settled hd
      · rw [hcursor, hnext]
        exact hskips.close hdead hline hparse

/-- A statement where no loop comes round. By cases over the statements.

**Proof sketch.** An opener, a definition and a simple statement are treated once for all of their
kind; the words of an `if` and the `end` have their own lemmas. Only an `end` may lead back to the
header of the loop. -/
theorem invariant_statement {c : Activation} {st : Statement} {o : Except ScriptError Flow}
    (hparse : Statement.parse line = .ok st)
    (ha : Above (fun _ => True) (base.push f) opened a.blocks)
    (hskips : Skips source dead first i opened none) (hreached : Reached source dead first opened)
    (hnext : a.next = i + 1) (hrun : (runStatement run i st).runFrom a = .ok (o, c))
    (hresumes : Resumes b c o) :
    Invariant source (base.push f) dead first b ∨ b.next = f.header := by
  have hsettled := ha.settled (hbase.push f)
  have hopener : ∀ {kind : BlockKind}, st.opens? = some kind →
      Invariant source (base.push f) dead first b ∨ b.next = f.header := fun hopens => by
    obtain ⟨hcursor, hblock⟩ := opener_resumes hopens hsettled (hsettled.enters i) hrun hresumes
    exact .inl (invariant_opener hdead hactive hline hparse hopens ha hskips hreached
      (hcursor.trans hnext) hblock)
  have hsimple : st.isSimple = true →
      Invariant source (base.push f) dead first b ∨ b.next = f.header := fun hst => by
    obtain ⟨hcursor, hblocks⟩ := simple_resumes hst hrun hresumes
    refine .inl ⟨opened, none, .settled (hblocks ▸ ha), ?_, hreached⟩
    rw [hcursor, hnext]
    exact hskips.simple hdead hactive hline hparse hst
  cases st with
  | branch condition => exact hopener rfl
  | loop condition => exact hopener rfl
  | count name start stop step => exact hopener rfl
  | each name src => exact hopener rfl
  | function name params =>
    obtain ⟨hcursor, capture, hblocks⟩ := function_resumes (hsettled.enters i) hrun hresumes
    refine .inl ⟨opened, some 0, ?_, ?_, hreached⟩
    · rw [hblocks]
      exact .gathering ha
    · rw [hcursor, hnext]
      exact hskips.function hdead hactive hline hparse
  | otherwiseIf condition =>
    exact .inl (invariant_branch hbase hloop hdead hactive hline (.inr ⟨condition, hparse⟩) ha
      hskips hreached hnext
      fun d g hd hblocks => otherwiseIf_resumes hd hblocks hrun hresumes)
  | otherwise =>
    exact .inl (invariant_branch hbase hloop hdead hactive hline (.inl hparse) ha
      hskips hreached hnext
      fun d g hd hblocks => otherwise_resumes hd hblocks hrun hresumes)
  | close =>
    exact invariant_close hbase hloop hrunning hdead hline hparse ha hskips hreached hnext
      hrun hresumes
  | _ => exact hsimple rfl

end Lines

include hbase hloop hrunning hdead hactive

/-- **One step in a body**: skipping comes to where the step leads, unless the body is done and the
loop around it comes round.

**Proof sketch.** The line at the cursor is read by both. A line of a function is gathered by both;
any other line is read as a statement, which does to the open blocks what it does when it is
skipped. Where an inner loop comes back to its header, the header enters that loop as it did from
above. -/
theorem Invariant.step (ha : Invariant source (base.push f) dead first a)
    (hrun : (step run source).runFrom a = .ok (.ok none, b)) :
    Invariant source (base.push f) dead first b ∨ b.next = f.header := by
  obtain ⟨s, blocks, i⟩ := a
  obtain ⟨opened, nested, hstays, hskips, hreached⟩ := ha
  dsimp only at hstays hskips
  rcases hline : source[i]?.map Text.trim with _ | line
  · rw [runFrom_step_of_none (Option.map_eq_none_iff.1 hline)] at hrun
    cases (depth_of_finish hrun).2
  rw [runFrom_step hline] at hrun
  cases hstays with
  | gathering hc =>
    rw [if_pos (BlockStack.isCapturing_gathering _ _ _ _)] at hrun
    rcases Action.runFrom_bind_eq_ok.1 hrun with ⟨e, -, he⟩ | ⟨_, c, hgather, hpure⟩
    · cases he
    · cases hpure
      exact .inl (invariant_gathering hdead hline hbase hc hskips hreached rfl rfl hgather)
  | settled hc =>
    rw [if_neg (by simp [BlockStack.isCapturing, (hc.settled (hbase.push f)).capturing])] at hrun
    by_cases hidle : isIdle line = true
    · rw [if_pos hidle] at hrun
      cases hrun
      exact .inl ⟨opened, none, .settled hc, hskips.idle hdead hline hidle, hreached⟩
    · rw [if_neg hidle] at hrun
      obtain ⟨st, o, c, hparse, hstatement, hresumes⟩ := runOutside_cases hrun
      exact invariant_statement (a := ⟨s.atLine (i + 1), blocks, i + 1⟩) hbase hloop hrunning hdead
        hactive hline hparse hc hskips hreached rfl hstatement hresumes
  | @returning c g hc hg hheader hopener =>
    -- the frame of the inner loop is left over, but skipping has been at its header without it
    obtain ⟨line', st, kind, hline', hparse, hopens⟩ := hopener
    obtain rfl : line' = line := Option.some.inj (hline'.symm.trans hline)
    have hsettled := hc.settled (hbase.push f)
    have hcapturing : (c.returning g).isCapturing = false := by
      simp [BlockStack.isCapturing, BlockStack.returning, hsettled.capturing]
    rw [if_neg (by simp [hcapturing]), if_neg (by simp [isIdle_of_parse hparse])] at hrun
    obtain ⟨st', o, d, hparse', hstatement, hresumes⟩ := runOutside_cases hrun
    obtain rfl : st' = st := Except.ok.inj (hparse'.symm.trans hparse)
    obtain ⟨hnext, hblock⟩ := opener_resumes hopens hsettled
      (hheader ▸ hsettled.enters_returning hg) hstatement hresumes
    exact .inl (invariant_opener hdead hactive hline hparse hopens hc hskips hreached hnext hblock)

/-- From the start of a body on, skipping follows the run, until the loop comes round. -/
theorem invariant_of_goes {last : Nat} (hheader : f.header < first) (h : Goes source first last a b)
    (ha : Invariant source (base.push f) dead first a) :
    Invariant source (base.push f) dead first b ∨ b.next = f.header := by
  induction h with
  | refl => exact .inl ha
  | tail _ hstep ih =>
    obtain ⟨hfirst, -, n, hrun⟩ := hstep
    rcases ih with hinvariant | hout
    · exact hinvariant.step hbase hloop hrunning hdead hactive hrun
    · -- the header of the loop itself is not among the lines that the run goes on from
      omega

end Bodies

/-- At the depth of the loop itself no block of the body is open. -/
theorem Stays.eq_nil {source : Array String} {ground b : BlockStack} {i : Nat}
    {opened : List (Bool × Nat)} {nested : Option Nat} (h : Stays source ground i opened nested b)
    (hground : ground.Settled) (hb : b.Settled) (hdepth : b.depth = ground.depth) :
    opened = [] ∧ nested = none := by
  cases h with
  | settled hc =>
    have := hc.depth_eq
    exact ⟨List.eq_nil_of_length_eq_zero (by omega), rfl⟩
  | @returning c f hc _ _ _ =>
    -- there is a frame above the current depth
    have hlength : c.frames.length + 1 = c.depth + 1 := by
      simpa [BlockStack.returning] using hb.length
    have := (hc.settled hground).length
    omega
  | gathering => cases hb.capturing

/-- **A body that has run to its end is skipped to its end.** Whatever its blocks, functions and
jumps: where the loop is inactive, the run comes from the start of the body to its end, with nothing
done. -/
theorem passes_of_goes {source : Array String} {base : BlockStack} {f g : Frame} {first last : Nat}
    {s s' : Session} (hbase : base.Settled) (hloop : f.kind.isLoop = true)
    (hrunning : f.active = true)
    (hheader : f.header < first) (hlast : first ≤ last) (hactive : g.active = false)
    (h : Goes source first last ⟨s, base.push f, first⟩ ⟨s', base.push f, last⟩) (t : Session) :
    ∃ k l, Passes source k ⟨t, base.push g, first⟩ ⟨t.atLine l, base.push g, last⟩ := by
  have hdead : (base.push g).active = false := by rw [hbase.active_push, hactive]
  have hstart : Invariant source (base.push f) (base.push g) first ⟨s, base.push f, first⟩ :=
    ⟨[], none, .settled .ground, fun t => ⟨0, t.line, _, .settled .ground, .refl source _⟩, trivial⟩
  rcases invariant_of_goes hbase hloop hrunning (hbase.push g) hdead hheader h hstart with
    ⟨opened, nested, hstays, hskips, -⟩ | hout
  · obtain ⟨rfl, rfl⟩ := hstays.eq_nil (hbase.push f) (hbase.push f) rfl
    obtain ⟨k, l, b, ⟨hb⟩, hpasses⟩ := hskips t
    cases hb with
    | ground => exact ⟨k, l, hpasses⟩
  · simp only at hout
    omega

end Activation

end LineScript
