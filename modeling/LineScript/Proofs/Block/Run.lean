import LineScript.Proofs.Block.Nested
import LineScript.Proofs.Causes
import LineScript.Proofs.Structured.Passing
import LineScript.Proofs.Structured.Headers

set_option relaxedAutoImplicit false
set_option autoImplicit false

/-!
# The open blocks along a run

A run of a source goes from step to step with a stack of open blocks, a cursor and a session.
Whatever the statements do and whichever headers fail, the stack at the start of every step is the
one that belongs to the cursor: it holds the openers that are unmatched in the lines before it.

## Main definitions

* `LineScript.Activation.visited` — where a run stands at the start of each of its steps.
* `LineScript.Activation.Leads` — what a statement makes of a stack.

## Main results

* `LineScript.Activation.runStatement_leads` — every statement, by cases.
* `LineScript.Activation.step_tracks` — one step.
* `LineScript.Activation.visited_tracks` — whole runs.
* `LineScript.Activation.visited_blocks` — what this means for the frames, for jumps and for the end
  of a source.
-/

namespace LineScript

namespace Activation

/-! ## What headers leave alone -/

/-- The cursor stays where it is, and what was true of the open blocks stays true. -/
def Keeps (P : BlockStack → Prop) (a b : Activation) : Prop :=
  b.next = a.next ∧ (P a.blocks → P b.blocks)

/-- Keeping what `P` says about the stack, or keeping the stack, is reflexive and transitive. -/
instance (P : BlockStack → Prop) : IsPreorder Activation (Keeps P) where
  refl _ := ⟨rfl, id⟩
  trans _ _ _ hab hbc := ⟨hbc.1.trans hab.1, hbc.2 ∘ hab.2⟩

variable {P : BlockStack → Prop}

/-- What happens to the session does not touch the blocks. -/
theorem onSession_keeps {α : Type} (act : Action Session α) :
    Action.Along (Keeps P) (onSession act) := by
  intro a o b h
  obtain ⟨s, -, rfl⟩ := Action.runFrom_zoom_eq_ok.1 h
  exact ⟨rfl, id⟩

/-- A change of the current frame keeps what such a change of a stack keeps. -/
theorem modifyFrame_keeps {f : Frame → Frame} (h : ∀ b, P b → P (b.modifyCurrent f)) :
    Action.Along (Keeps P) (modifyFrame f) := by
  intro a o b hrun
  cases hrun
  exact ⟨rfl, h a.blocks⟩

end Activation

namespace BlockStack

/-- The stack `b` is `base` with one more block, whose header is on line `header`. -/
def HasBlock (base : BlockStack) (header : Nat) (isBranch : Bool) (b : BlockStack) : Prop :=
  ∃ f : Frame, b = base.push f ∧ f.header = header ∧ f.kind.isBranch = isBranch ∧ f.Fits base.active

/-- A block that is no branch cannot be continued. -/
theorem Settled.branchFrame_push_of_not_branch {b : BlockStack} (h : b.Settled) {f : Frame}
    (hf : f.kind.isBranch = false) (word : BranchWord) :
    (b.push f).branchFrame word = .error (.danglingBranch word) := by
  have hdepth : (b.push f).depth = b.depth + 1 := rfl
  unfold branchFrame
  rw [h.current?_push, hdepth]
  simp [hf]

end BlockStack

namespace Activation

section Headers

variable {base : BlockStack} {i : Nat} {isBranch : Bool} {a b : Activation}

/-- A change of the innermost frame that leaves its header and its kind of block. -/
theorem modifyFrame_hasBlock (hbase : base.Settled) {change : Frame → Frame}
    (h : ∀ f : Frame, f.header = i → f.kind.isBranch = isBranch → f.Fits base.active →
      (change f).header = i ∧ (change f).kind.isBranch = isBranch ∧ (change f).Fits base.active) :
    Action.Along (Keeps (base.HasBlock i isBranch)) (modifyFrame change) := by
  refine modifyFrame_keeps ?_
  rintro _ ⟨f, rfl, hheader, hkind, hfits⟩
  exact ⟨change f, hbase.modifyCurrent_push f change, h f hheader hkind hfits⟩

/-- A header makes a block of its own, whatever it goes on to do with it. It goes on only where
statements are run. -/
theorem enter_hasBlock (kind : BlockKind) {body : Entry → Action Activation Unit}
    (h : base.Enters a.blocks i)
    (hbody : base.active = true → ∀ entry,
      Action.Along (Keeps (base.HasBlock i kind.isBranch)) (body entry))
    {o : Except ScriptError Unit}
    (hrun : (enter kind i >>= fun entry =>
      if entry.outerActive then body entry else pure ()).runFrom
      a = .ok (o, b)) :
    b.next = a.next ∧ base.HasBlock i kind.isBranch b.blocks := by
  obtain ⟨revisit, f, henter, hheader, hinactive, hkind⟩ := h.enter kind
  have hblock : base.HasBlock i kind.isBranch (base.push f) :=
    ⟨f, rfl, hheader, hkind, Frame.fits_of_inactive hinactive _⟩
  rw [Action.runFrom_bind, runFrom_enter, henter] at hrun
  cases hactive : base.active with
  | true =>
    simp only [hactive, if_true] at hrun
    obtain ⟨hnext, hkeeps⟩ := hbody hactive ⟨revisit, true⟩ _ o b hrun
    exact ⟨hnext, hkeeps hblock⟩
  | false =>
    simp only [hactive, Bool.false_eq_true, if_false] at hrun
    cases hrun
    exact ⟨rfl, hblock⟩

/-- In an active block a new branch may become active, if it is then taken. -/
theorem modifyFrame_taken (hbase : base.Settled) (hactive : base.active = true) (taken : Bool) :
    Action.Along (Keeps (base.HasBlock i true))
      (modifyFrame fun frame => { frame with active := taken, branchTaken := taken }) := by
  refine modifyFrame_hasBlock hbase ?_
  intro f hheader hkind _
  refine ⟨hheader, hkind, ?_, ?_⟩
  · intro _
    exact hactive
  · intro _ htaken
    exact htaken

/-- In an active block a loop may become active. -/
theorem modifyFrame_loop (hbase : base.Settled) (hactive : base.active = true)
    {change : Frame → Frame} (hheader : ∀ f, (change f).header = f.header)
    (hkind : ∀ f : Frame, f.kind.isBranch = false → (change f).kind.isBranch = false) :
    Action.Along (Keeps (base.HasBlock i false)) (modifyFrame change) := by
  refine modifyFrame_hasBlock hbase ?_
  intro f hf hbranch _
  refine ⟨(hheader f).trans hf, hkind f hbranch, ?_, ?_⟩
  · intro _
    exact hactive
  · intro htrue _
    rw [hkind f hbranch] at htrue
    cases htrue

/-- Opening a branching block goes on with the next line, inside that block. -/
theorem openBranch_hasBlock {run : SourceRunner} {condition : String} {o : Except ScriptError Unit}
    (hbase : base.Settled) (h : base.Enters a.blocks i)
    (hrun : (openBranch run condition i).runFrom a = .ok (o, b)) :
    b.next = a.next ∧ base.HasBlock i true b.blocks := by
  refine enter_hasBlock .branch h (fun hactive entry => ?_) hrun
  refine .bind (onSession_keeps _) fun v => ?_
  exact modifyFrame_taken hbase hactive v.truth

/-- Opening a conditional loop goes on with the next line, inside that block. -/
theorem openLoop_hasBlock {run : SourceRunner} {condition : String} {o : Except ScriptError Unit}
    (hbase : base.Settled) (h : base.Enters a.blocks i)
    (hrun : (openLoop run condition i).runFrom a = .ok (o, b)) :
    b.next = a.next ∧ base.HasBlock i false b.blocks := by
  refine enter_hasBlock .loop h (fun hactive entry => ?_) hrun
  refine .bind (onSession_keeps _) fun v => ?_
  exact modifyFrame_loop hbase hactive (fun _ => rfl) fun _ hf => hf

/-- Opening a counting loop goes on with the next line, inside that block, whether or not its bounds
can be evaluated. -/
theorem openCount_hasBlock {run : SourceRunner} {name start stop : String} {step : Option String}
    {o : Except ScriptError Unit} (hbase : base.Settled) (h : base.Enters a.blocks i)
    (hrun : (openCount run name start stop step i).runFrom a = .ok (o, b)) :
    b.next = a.next ∧ base.HasBlock i false b.blocks := by
  refine enter_hasBlock (.count none) h (fun hactive entry => ?_) hrun
  split
  · refine .get_bind fun a => ?_
    split
    · refine .bind (onSession_keeps _) fun more => ?_
      exact modifyFrame_loop hbase hactive (fun _ => rfl) fun _ hf => hf
    · exact .throw _
  · refine .bind (onSession_keeps _) fun range => ?_
    exact modifyFrame_loop hbase hactive (fun _ => rfl) fun _ _ => rfl

/-- Opening a loop over a collection goes on with the next line, inside that block. -/
theorem openEach_hasBlock {run : SourceRunner} {name src : String} {o : Except ScriptError Unit}
    (hbase : base.Settled) (h : base.Enters a.blocks i)
    (hrun : (openEach run name src i).runFrom a = .ok (o, b)) :
    b.next = a.next ∧ base.HasBlock i false b.blocks := by
  refine enter_hasBlock .each h (fun hactive entry => ?_) hrun
  refine .bind (onSession_keeps _) fun v => ?_
  split
  · refine .get_bind fun a => .bind ?_ fun _ => ?_
    · exact modifyFrame_loop hbase hactive (fun _ => rfl) fun _ hf => hf
    · split
      · exact .pure ()
      · refine .bind (onSession_keeps _) fun _ => ?_
        exact modifyFrame_loop hbase hactive (fun _ => rfl) fun _ hf => hf
  · exact .throw _

/-- The header of a function begins a definition without lines, also if the header fails.

**Proof sketch.** There are three ways to begin a definition: in an inactive block, after the header
has been prepared, and after it has failed. Each ends in `beginCapture` with a capture without lines
(`hbegin`). -/
theorem openFunction_begins {run : SourceRunner} {name : String} {params : Option String}
    {o : Except ScriptError Unit} (hrun : (openFunction run name params i).runFrom a = .ok (o, b)) :
    b.next = a.next ∧ ∃ capture : Capture, capture.lines = [] ∧
      b.blocks = a.blocks.beginCapture capture i := by
  have hbegin {capture : Capture} (hlines : capture.lines = []) (s : Session)
      {o : Except ScriptError Unit} {c : Activation}
      (hrun : (beginCapture capture i).runFrom { a with session := s } = .ok (o, c)) :
      c.next = a.next ∧ ∃ capture : Capture, capture.lines = [] ∧
        c.blocks = a.blocks.beginCapture capture i := by
    cases hrun
    exact ⟨rfl, capture, hlines, rfl⟩
  unfold openFunction at hrun
  rw [Action.runFrom_get_bind] at hrun
  dsimp only at hrun
  -- only in an active block the header is prepared
  split at hrun
  · rw [Action.runFrom_bind, Action.runFrom_attempt, onSession, Action.runFrom_zoom] at hrun
    rcases hprepare : (Session.prepareCapture run (qualify a.session.scope name) params).runFrom
        a.session with reason | ⟨e | capture, s⟩
    · simp only [hprepare] at hrun
      cases hrun
    · simp only [hprepare] at hrun
      rcases Action.runFrom_bind_eq_ok.1 hrun with ⟨e', hbegins, -⟩ | ⟨_, c, hbegins, hthrow⟩
      · exact hbegin rfl s hbegins
      · cases hthrow
        exact hbegin rfl s hbegins
    · simp only [hprepare] at hrun
      exact hbegin (prepareCapture_gives run _ params _ _ _ hprepare) s hrun
  · exact hbegin rfl a.session hrun

/-- After the header of a function its body is gathered. -/
theorem openFunction_gathering (h : base.Enters a.blocks i) {run : SourceRunner} {name : String}
    {params : Option String} {o : Except ScriptError Unit}
    (hrun : (openFunction run name params i).runFrom a = .ok (o, b)) :
    b.next = a.next ∧ ∃ capture, b.blocks = base.gathering i capture 0 := by
  obtain ⟨hnext, capture, -, hblocks⟩ := openFunction_begins hrun
  exact ⟨hnext, capture, hblocks.trans (h.beginCapture capture)⟩

end Headers

/-! ## Statements -/

/-- What a statement on line `i` may lead to. It goes on at the next line with the stack that
belongs there, also after a failure that ends nothing; or it jumps from the end of a block to its
opener. -/
def Leads (lines : List String) (i : Nat) : Except ScriptError Flow → Activation → Prop
  | .ok .next, a => a.next = i + 1 ∧ a.blocks.Tracks lines (i + 1)
  | .ok (.jump header), a => a.blocks.Tracks lines header ∧ IsBlock lines header i
  | .ok (.finish _), _ => True
  | .error e, a => e.recoverable = true → a.next = i + 1 ∧ a.blocks.Tracks lines (i + 1)

section Statements

variable {lines : List String} {i : Nat} {line : String} {a b : Activation} {run : SourceRunner}

/-- A statement after which the run goes on at the next line. -/
theorem leads_of_tracks {act : Action Activation Unit} {o : Except ScriptError Flow}
    (h : ∀ o, act.runFrom a = .ok (o, b) → b.next = i + 1 ∧ b.blocks.Tracks lines (i + 1))
    (hrun : (act >>= fun _ => pure .next).runFrom a = .ok (o, b)) : Leads lines i o b := by
  rcases Action.runFrom_bind_eq_ok.1 hrun with ⟨e, hact, rfl⟩ | ⟨_, c, hact, hpure⟩
  · intro _
    exact h _ hact
  · cases hpure
    exact h _ hact

/-- A failure that a run goes on after is below the level of an error, and only logged. -/
theorem recover_keeps {e : ScriptError} {o : Unit}
    (h : (onSession (Session.recover e)).runFrom a = .ok (.ok o, b)) :
    e.recoverable = true ∧ b.next = a.next ∧ b.blocks = a.blocks := by
  obtain ⟨hnext, hblocks⟩ := onSession_keeps (P := (· = a.blocks)) _ a _ b h
  obtain ⟨s, hrecover, -⟩ := Action.runFrom_zoom_eq_ok.1 h
  exact ⟨Session.recoverable_of_recover hrecover, hnext, hblocks rfl⟩

section Outside

-- where no function is gathered, the line at the cursor is run and the cursor has moved on
variable (ha : a.blocks.Tracks lines i) (hcapturing : a.blocks.capturing = none)
  (hnext : a.next = i + 1) (hline : lines[i]? = some line)

include ha hcapturing hnext hline

/-- The header of a block. -/
theorem leads_of_hasBlock {act : Action Activation Unit} {isBranch : Bool}
    {o : Except ScriptError Flow} (hshape : LineShape.ofLine line = .opener)
    (hact : ∀ {base : BlockStack} {o}, base.Settled → base.Enters a.blocks i →
      act.runFrom a = .ok (o, b) → b.next = a.next ∧ base.HasBlock i isBranch b.blocks)
    (hrun : (act >>= fun _ => pure .next).runFrom a = .ok (o, b)) : Leads lines i o b := by
  obtain ⟨base, hbase, henters⟩ := ha.stack.exists_enters hcapturing
  refine leads_of_tracks (fun o' hrun' => ?_) hrun
  obtain ⟨hnext', f, hblocks, hheader, -, hfits⟩ := hact hbase.isSettled henters hrun'
  refine ⟨hnext'.trans hnext, ?_⟩
  rw [hblocks]
  exact ha.opener hline hshape hbase hheader hfits

/-- An `elseif` or `else`: what they do with the block that they continue.

**Proof sketch.** The stack is the one that the run started with, or a settled stack with a frame on
top. The line fails at the former and at the frame of a loop. At a branch it runs `body`, which
keeps the frame with its header, so that the stack fits the next line. -/
theorem leads_of_branchFrame {word : BranchWord} {body : Frame × Bool → Action Activation Unit}
    {o : Except ScriptError Flow} (hshape : LineShape.ofLine line = .other)
    (hbody : ∀ (base : BlockStack) (f : Frame), base.Settled → f.kind.isBranch = true →
      Action.Along (Keeps (base.HasBlock f.header true)) (body (f, base.active)))
    (hrun : ((do
      let a ← get
      let found ← Action.ofExcept (a.blocks.branchFrame word)
      body found) >>= fun _ => pure .next : Action Activation Flow).runFrom a = .ok (o, b)) :
    Leads lines i o b := by
  refine leads_of_tracks (fun o' hrun' => ?_) hrun
  have hstays : a.next = i + 1 ∧ a.blocks.Tracks lines (i + 1) :=
    ⟨hnext, ha.other hcapturing hline hshape⟩
  rw [Action.runFrom_get_bind, Action.runFrom_bind, Action.runFrom_ofExcept] at hrun'
  have hnests := ha.stack.nests_of_ne_opener hcapturing (by simp [hline, hshape])
  rcases hnests.eq_start_or_push with hstart | ⟨base, f, hpush, hf⟩
  · rw [hstart] at hrun'
    cases hrun'
    exact hstays
  · have hbase := hf.around.isSettled
    rw [hpush] at hrun'
    cases hbranch : f.kind.isBranch with
    | false =>
      rw [hbase.branchFrame_push_of_not_branch hbranch] at hrun'
      cases hrun'
      exact hstays
    | true =>
      rw [hbase.branchFrame_push (BlockKind.eq_branch_of_isBranch hbranch)] at hrun'
      obtain ⟨hnext', hkeeps⟩ := hbody base f hbase hbranch a o' b hrun'
      obtain ⟨g, hblocks, hheader, -, hfits⟩ := hkeeps ⟨f, hpush, rfl, hbranch, hf.fits⟩
      refine ⟨hnext'.trans hnext, ?_⟩
      rw [hpush] at ha
      rw [hblocks]
      exact ha.branch hline hshape hf hheader hfits

/-- The next branch of a block leads to the next line, and leaves the same blocks open. -/
theorem continueBranch_leads {condition : String} {o : Except ScriptError Flow}
    (hshape : LineShape.ofLine line = .other)
    (hrun : (continueBranch run condition >>= fun _ => pure .next).runFrom a = .ok (o, b)) :
    Leads lines i o b := by
  refine leads_of_branchFrame ha hcapturing hnext hline hshape ?_ hrun
  intro base f hbase _
  by_cases hcondition : (base.active && !f.branchTaken) = true
  · have hactive : base.active = true := (Bool.and_eq_true_iff.1 hcondition).1
    simp only [hcondition, if_true]
    refine .bind (onSession_keeps _) fun v => ?_
    exact modifyFrame_taken hbase hactive v.truth
  · simp only [hcondition, Bool.false_eq_true, if_false]
    refine modifyFrame_hasBlock hbase ?_
    intro g hheader hkind _
    exact ⟨hheader, hkind, Frame.fits_of_inactive rfl _⟩

/-- The last branch of a block leads to the next line, and leaves the same blocks open. -/
theorem lastBranch_leads {o : Except ScriptError Flow} (hshape : LineShape.ofLine line = .other)
    (hrun : (lastBranch >>= fun _ => pure .next).runFrom a = .ok (o, b)) : Leads lines i o b := by
  refine leads_of_branchFrame ha hcapturing hnext hline hshape ?_ hrun
  intro base f hbase hbranch
  refine modifyFrame_hasBlock hbase ?_
  intro _ _ _ _
  refine ⟨rfl, hbranch, ?_, ?_⟩
  · intro hactive
    exact (Bool.and_eq_true_iff.1 hactive).1
  · intro _ _
    rfl

/-- The end of a block jumps to the opener of the block, or goes on behind it. -/
theorem close_leads {o : Except ScriptError Flow} (hshape : LineShape.ofLine line = .closer)
    (hrun : close.runFrom a = .ok (o, b)) : Leads lines i o b := by
  have hnests := ha.stack.nests_of_ne_opener hcapturing (by simp [hline, hshape])
  unfold close at hrun
  rw [Action.runFrom_get_bind, Action.runFrom_bind, Action.runFrom_ofExcept] at hrun
  rcases hnests.eq_start_or_push with hstart | ⟨base, f, hpush, hf⟩
  · rw [hstart] at hrun
    cases hrun
    intro hrecoverable
    cases hrecoverable
  · have hbase := hf.around.isSettled
    rw [hpush] at hrun ha
    cases hloop : f.kind.isLoop && f.active with
    | true =>
      obtain ⟨hkind, hactive⟩ := Bool.and_eq_true_iff.1 hloop
      rw [hbase.close_push_of_loop hkind hactive] at hrun
      cases hrun
      exact ⟨ha.comeRound hf hkind hactive,
        isBlock_of_unmatched hf.openers (by simp [hline, hshape])⟩
    | false =>
      rw [hbase.close_push hloop] at hrun
      cases hrun
      exact ⟨hnext, ha.closer hline hshape hf⟩

/-- A statement that has nothing to do with blocks. -/
theorem runSimple_leads {st : Statement} {o : Except ScriptError Flow}
    (hshape : LineShape.ofLine line = .other)
    (hrun : (do
      let a ← get
      if a.blocks.active then onSession (Session.runSimple run st) else pure .next :
        Action Activation Flow).runFrom a = .ok (o, b)) : Leads lines i o b := by
  have hstays : a.next = i + 1 ∧ a.blocks.Tracks lines (i + 1) :=
    ⟨hnext, ha.other hcapturing hline hshape⟩
  rw [Action.runFrom_get_bind] at hrun
  split at hrun
  · obtain ⟨s, hsimple, rfl⟩ := Action.runFrom_zoom_eq_ok.1 hrun
    rcases o with e | flow
    · intro _
      exact hstays
    · cases flow with
      | next => exact hstays
      | jump header => exact absurd rfl (runSimple_gives run st a.session _ s hsimple header)
      | finish v => trivial
  · cases hrun
    exact hstays

/-- **Every statement leads to a stack that can be met.** By cases over the statements: the headers
of blocks, the statements that continue or end one, and the others. -/
theorem runStatement_leads {st : Statement} {o : Except ScriptError Flow}
    (hparse : Statement.parse line = .ok st)
    (hrun : (runStatement run i st).runFrom a = .ok (o, b)) : Leads lines i o b := by
  have hshape := LineShape.ofLine_of_parse hparse
  cases st with
  | branch condition =>
    exact leads_of_hasBlock ha hcapturing hnext hline hshape openBranch_hasBlock hrun
  | loop condition =>
    exact leads_of_hasBlock ha hcapturing hnext hline hshape openLoop_hasBlock hrun
  | count name start stop step =>
    exact leads_of_hasBlock ha hcapturing hnext hline hshape openCount_hasBlock hrun
  | each name src =>
    exact leads_of_hasBlock ha hcapturing hnext hline hshape openEach_hasBlock hrun
  | function name params =>
    obtain ⟨base, hbase, henters⟩ := ha.stack.exists_enters hcapturing
    refine leads_of_tracks (fun o' hrun' => ?_) hrun
    obtain ⟨hnext', capture, hblocks⟩ := openFunction_gathering henters hrun'
    refine ⟨hnext'.trans hnext, ?_⟩
    rw [hblocks]
    exact ha.function hline hshape hbase capture
  | otherwiseIf condition => exact continueBranch_leads ha hcapturing hnext hline hshape hrun
  | otherwise => exact lastBranch_leads ha hcapturing hnext hline hshape hrun
  | close => exact close_leads ha hcapturing hnext hline hshape hrun
  | _ => exact runSimple_leads ha hcapturing hnext hline hshape hrun

/-- A line that is read and run, or that cannot be read and ends the run. -/
theorem runLine_leads {o : Except ScriptError Flow}
    (hrun : (runLine run i line).runFrom a = .ok (o, b)) :
    Leads lines i o b := by
  unfold runLine at hrun
  rw [Action.runFrom_bind, Action.runFrom_ofExcept] at hrun
  rcases hparse : Statement.parse line with e | st
  · simp only [hparse] at hrun
    cases hrun
    intro hrecoverable
    rw [(Statement.parse_malformed hparse).not_recoverable] at hrecoverable
    cases hrecoverable
  · simp only [hparse] at hrun
    exact runStatement_leads ha hcapturing hnext hline hparse hrun

/-- After a line that was run, the stack belongs to the cursor.

**Proof sketch.** An error of the line that is recovered leaves the session alone changed, and the
run goes on at the next line. Otherwise the flow says where to, and `runLine_leads` has said it of
each flow. -/
theorem runOutside_tracks (hrun : (runOutside run i line).runFrom a = .ok (.ok none, b)) :
    b.blocks.Tracks lines b.next ∧ (b.next ≠ i + 1 → IsBlock lines b.next i) := by
  unfold runOutside at hrun
  rcases Action.runFrom_bind_eq_ok.1 hrun with ⟨e, -, he⟩ | ⟨outcome, c, hattempt, hrest⟩
  · cases he
  · obtain ⟨p, hline', hp⟩ := Action.runFrom_attempt_eq_ok.1 hattempt
    cases hp
    have hleads := runLine_leads ha hcapturing hnext hline hline'
    rcases outcome with e | flow
    · rcases Action.runFrom_bind_eq_ok.1 hrest with ⟨e', -, he'⟩ | ⟨_, d, hrecover, hpure⟩
      · cases he'
      · cases hpure
        obtain ⟨hrecoverable, hd⟩ := recover_keeps hrecover
        obtain ⟨hnext', htracks⟩ := hleads hrecoverable
        obtain ⟨hcursor, hblocks⟩ := hd
        rw [hcursor, hblocks, hnext']
        exact ⟨htracks, fun hne => absurd rfl hne⟩
    · cases flow with
      | next =>
        cases hrest
        obtain ⟨hnext', htracks⟩ := hleads
        rw [hnext']
        exact ⟨htracks, fun hne => absurd rfl hne⟩
      | jump header =>
        cases hrest
        exact ⟨hleads.1, fun _ => hleads.2⟩
      | finish v => cases hrest

end Outside

/-- A line of a function goes to its body. -/
theorem gatherLine_blocks {o : Except ScriptError Unit}
    (hrun : (gatherLine line).runFrom a = .ok (o, b)) :
    b.next = a.next ∧ b.blocks = (a.blocks.captureLine line).2 := by
  unfold gatherLine at hrun
  rw [Action.runFrom_get_bind] at hrun
  dsimp only at hrun
  rw [Action.runFrom_set_bind] at hrun
  cases hcapture : (a.blocks.captureLine line).1 with
  | none =>
    simp only [hcapture] at hrun
    cases hrun
    exact ⟨rfl, rfl⟩
  | some capture =>
    simp only [hcapture] at hrun
    have hdefined := Action.Along.handle
      (onSession_keeps (P := (· = (a.blocks.captureLine line).2)) (Session.defineCaptured capture))
      fun e => onSession_keeps (Session.recover e)
    obtain ⟨hnext, hblocks⟩ := hdefined _ _ _ hrun
    exact ⟨hnext, hblocks rfl⟩

end Statements

/-! ## Steps -/

/-- The lines of a source as they are read. -/
def trimmed (source : Array String) : List String :=
  source.toList.map Text.trim

/-- The trimmed lines stand where the lines stand. -/
theorem getElem?_trimmed (source : Array String) (i : Nat) :
    (trimmed source)[i]? = source[i]?.map Text.trim := by
  rw [trimmed, List.getElem?_map, Array.getElem?_toList]

section Steps

variable {source : Array String} {run : SourceRunner} {a b : Activation}

/-- The end of a source is not reached inside a block. -/
theorem depth_of_finish {v : Option Value} (hrun : finish.runFrom a = .ok (.ok v, b)) :
    a.blocks.depth = 0 ∧ v = some (.bool true) := by
  unfold finish at hrun
  rw [Action.runFrom_get_bind] at hrun
  split at hrun
  · cases hrun
  · cases hrun
    exact ⟨by omega, rfl⟩

/-- A step where no line is left. -/
theorem runFrom_step_of_none (h : source[a.next]? = none) :
    (step run source).runFrom a = finish.runFrom a := by
  unfold step
  rw [Action.runFrom_get_bind]
  simp only [h]

/-- **One step** leads from a stack that belongs to the cursor to another one. The cursor moves to
the next line, or from the end of a block to its opener.

**Proof sketch.** By the three ways to run a line: it is gathered into a definition, it is blank or
a comment, or its statement is run. Only the last one may move the cursor back
(`runOutside_tracks`). -/
theorem step_tracks (ha : a.blocks.Tracks (trimmed source) a.next)
    (hrun : (step run source).runFrom a = .ok (.ok none, b)) :
    b.blocks.Tracks (trimmed source) b.next ∧
      (b.next ≠ a.next + 1 → IsBlock (trimmed source) b.next a.next) := by
  obtain ⟨s, blocks, i⟩ := a
  rcases hline : source[i]?.map Text.trim with _ | line
  · rw [runFrom_step_of_none (Option.map_eq_none_iff.1 hline)] at hrun
    cases (depth_of_finish hrun).2
  · rw [runFrom_step hline] at hrun
    rw [← getElem?_trimmed] at hline
    by_cases hcapturing : blocks.isCapturing = true
    · rw [if_pos hcapturing] at hrun
      obtain ⟨target, htarget⟩ := Option.isSome_iff_exists.1 hcapturing
      rcases Action.runFrom_bind_eq_ok.1 hrun with ⟨e, -, he⟩ | ⟨_, c, hgather, hpure⟩
      · cases he
      · cases hpure
        obtain ⟨hnext, hblocks⟩ := gatherLine_blocks hgather
        rw [hnext, hblocks]
        exact ⟨ha.captureLine htarget hline, fun hne => absurd rfl hne⟩
    · rw [if_neg hcapturing] at hrun
      have hnone : blocks.capturing = none := Option.not_isSome_iff_eq_none.1 hcapturing
      by_cases hidle : isIdle line = true
      · rw [if_pos hidle] at hrun
        cases hrun
        exact ⟨ha.other hnone hline (LineShape.ofLine_of_isIdle hidle), fun hne => absurd rfl hne⟩
      · rw [if_neg hidle] at hrun
        exact runOutside_tracks (a := ⟨s.atLine (i + 1), blocks, i + 1⟩) ha hnone rfl hline hrun

end Steps

/-! ## Runs -/

/-- Where a run stands at the start of each of its steps. -/
def visited : Nat → Array String → Activation → List Activation
  | 0, _, a => [a]
  | steps + 1, source, a =>
    a :: match (step (Session.runner steps) source).runFrom a with
      | .ok (.ok none, b) => visited steps source b
      | _ => []

/-- A run stands at its start, and then where it stands after its first step. -/
theorem mem_visited_succ {steps : Nat} {source : Array String} {a b : Activation} :
    b ∈ visited (steps + 1) source a ↔
      b = a ∨ ∃ c, (step (Session.runner steps) source).runFrom a = .ok (.ok none, c) ∧
        b ∈ visited steps source c := by
  rw [visited, List.mem_cons]
  refine or_congr_right ⟨fun h => ?_, ?_⟩
  · split at h
    next c hstep => exact ⟨c, hstep, h⟩
    · cases h
  · rintro ⟨c, hstep, h⟩
    rwa [hstep]

/-- What is left of a run, from wherever it stands, has the result of the whole. -/
theorem exists_run_eq_of_mem_visited {steps : Nat} {source : Array String} {a b : Activation}
    (h : b ∈ visited steps source a) :
    ∃ left ≤ steps, Activation.run steps source a = Activation.run left source b := by
  induction steps generalizing a with
  | zero =>
    obtain rfl : b = a := by simpa [visited] using h
    exact ⟨0, Nat.le_refl 0, rfl⟩
  | succ steps ih =>
    rcases mem_visited_succ.1 h with rfl | ⟨c, hstep, h⟩
    · exact ⟨steps + 1, Nat.le_refl _, rfl⟩
    · obtain ⟨left, hle, hleft⟩ := ih h
      refine ⟨left, by omega, ?_⟩
      rw [← hleft, Activation.run]
      unfold Session.runner at hstep
      simp only [hstep]

/-- What every step keeps is true all along a run. -/
theorem of_mem_visited {I : Activation → Prop} {steps : Nat} {source : Array String}
    {a b : Activation}
    (hstep : ∀ run c d, I c → (step run source).runFrom c = .ok (.ok none, d) → I d) (ha : I a)
    (h : b ∈ visited steps source a) : I b := by
  induction steps generalizing a with
  | zero =>
    obtain rfl : b = a := by simpa [visited] using h
    exact ha
  | succ steps ih =>
    rcases mem_visited_succ.1 h with rfl | ⟨c, hrun, h⟩
    · exact ha
    · exact ih (hstep _ a c ha hrun) h

/-- **Along a run the stack belongs to the cursor**, since every step keeps it so. -/
theorem visited_tracks {steps : Nat} {source : Array String} {a b : Activation}
    (ha : a.blocks.Tracks (trimmed source) a.next) (h : b ∈ visited steps source a) :
    b.blocks.Tracks (trimmed source) b.next := by
  refine of_mem_visited (I := fun c => c.blocks.Tracks (trimmed source) c.next) ?_ ha h
  intro run c d hc hrun
  exact (step_tracks hc hrun).1

/-- What can be relied on at the start of a step: the depth is the number of openers less the number
of ends before the cursor, and the frames are those of the blocks that are open there. -/
structure BlocksFit (lines : List String) (a : Activation) : Prop where
  depth : a.blocks.depth + closerCount (lines.take a.next) = openerCount (lines.take a.next)
  prefixes : ∀ k ≤ a.next, closerCount (lines.take k) ≤ openerCount (lines.take k)
  outside : a.blocks.capturing = none → a.blocks.Outside lines a.next
  gathers : ∀ target, a.blocks.capturing = some target → a.blocks.Gathers target

/-- A stack that keeps track of the lines fits them: the depth counts the openers without an end,
and the frames are theirs. -/
theorem blocksFit_of_tracks {lines : List String} {a : Activation}
    (h : a.blocks.Tracks lines a.next) : BlocksFit lines a where
  depth := by
    have hcount := add_closerCount_of_nestAfter h.nested
    omega
  prefixes := by
    intro k hk
    have hprefix := closerCount_take_le h.nested k
    rwa [List.take_take, Nat.min_eq_left hk] at hprefix
  outside := h.stack.outside
  gathers := fun _ => h.stack.gathers

end Activation

/-- Every end has its opener before it, and every opener its end. -/
structure Balanced (lines : List String) : Prop where
  count : openerCount lines = closerCount lines
  prefixes : ∀ k, closerCount (lines.take k) ≤ openerCount (lines.take k)

/-- Lines that nest blocks properly are balanced: all of them have as many ends as openers, and no
first part has more. -/
theorem balanced_of_nestAfter {lines : List String} (h : nestAfter lines 0 = some 0) :
    Balanced lines where
  count := by
    have hcount := add_closerCount_of_nestAfter h
    omega
  prefixes := closerCount_take_le h

/-- A block can be entered, and its frame is there afterwards. -/
theorem BlockStack.depth_enter_lt {b : BlockStack} (h : b.depth < b.frames.length)
    (kind : BlockKind)
    (header : Nat) : (b.enter kind header).2.depth < (b.enter kind header).2.frames.length := by
  simp only [enter]
  split
  next hrevisit =>
    obtain ⟨f, hf, -⟩ := (Option.any_eq_true _ _).1 hrevisit
    rw [List.length_modify]
    exact (List.getElem?_eq_some_iff.1 hf).1
  · rw [List.length_append, List.length_take, List.length_singleton]
    omega

/-- **The stack of blocks along whole runs.** At the start of every step of a run, from where the
rest of the run has the result of the whole, the open blocks are the ones that the lines before the
cursor leave open, whatever the source and the session. So the frame of a block is there whenever it
is needed, a jump leads from the end of a block to its opener, and where the lines have run out and
the result is `true`, they are balanced.

**Proof sketch.** Every step keeps the stack among those that can be met at the cursor, by cases
over the statements; the rest is read off such a stack. -/
theorem Activation.visited_blocks (code : String) (zone : Option String) (s : Session) (steps : Nat)
    (a : Activation)
    (ha : a ∈ visited steps (Text.lines code).toArray { session := { s with zone := zone } }) :
    (∃ left ≤ steps, run steps (Text.lines code).toArray { session := { s with zone := zone } } =
        run left (Text.lines code).toArray a) ∧
      BlocksFit (trimmed (Text.lines code).toArray) a ∧
      (a.blocks.capturing = none → ∀ kind,
        (a.blocks.enter kind a.next).2.depth < (a.blocks.enter kind a.next).2.frames.length) ∧
      (∀ run b, (step run (Text.lines code).toArray).runFrom a = .ok (.ok none, b) →
        b.next ≠ a.next + 1 → IsBlock (trimmed (Text.lines code).toArray) b.next a.next) ∧
      ∀ run v b, (step run (Text.lines code).toArray).runFrom a = .ok (.ok (some v), b) →
        (Text.lines code)[a.next]? = none →
          v = .bool true ∧ Balanced (trimmed (Text.lines code).toArray) := by
  have htracks := visited_tracks (BlockStack.tracks_start _) ha
  have hfit := blocksFit_of_tracks htracks
  refine ⟨exists_run_eq_of_mem_visited ha, hfit, ?_, ?_, ?_⟩
  · intro hcapturing kind
    exact BlockStack.depth_enter_lt (hfit.outside hcapturing).depth_lt kind a.next
  · intro run b hstep
    exact (step_tracks htracks hstep).2
  · intro run v b hstep hnone
    rw [runFrom_step_of_none (by rwa [List.getElem?_toArray])] at hstep
    obtain ⟨hdepth, hv⟩ := depth_of_finish hstep
    refine ⟨Option.some.inj hv, balanced_of_nestAfter ?_⟩
    -- all lines stand before the cursor
    have hnested := htracks.nested
    rw [hdepth] at hnested
    have hlength : (trimmed (Text.lines code).toArray).length ≤ a.next := by
      simpa [trimmed] using hnone
    rwa [List.take_of_length_le hlength] at hnested

/-- A loop around a function with a block in its body. -/
def loopSource : String :=
  "\n".intercalate ["foreach $c in ['a']", "  function f", "    if true", "    end", "  end", "end"]

/-- At the `end` of the loop, after the function has been gathered, the frame of the loop is the
innermost one; and the step from there leads back to the first line. -/
theorem Activation.visited_blocks_loopSource :
    ∃ a ∈ visited 12 (Text.lines loopSource).toArray { session := {} },
      a.next = 5 ∧ a.blocks.frames.map Frame.header = [0, 0] ∧
        BlocksFit (trimmed (Text.lines loopSource).toArray) a ∧
        ∃ b, (step (Session.runner 6) (Text.lines loopSource).toArray).runFrom a =
            .ok (.ok none, b) ∧
          IsBlock (trimmed (Text.lines loopSource).toArray) 0 5 := by
  have hobserved : (visited 12 (Text.lines loopSource).toArray { session := {} })[5]?.map (fun a =>
      (a.next, a.blocks.frames.map Frame.header,
        ((step (Session.runner 6) (Text.lines loopSource).toArray).runFrom a).toOption.map fun r =>
          (r.1.toOption.map Option.isNone, r.2.next))) =
        some (5, [0, 0], some (some true, 0)) := by
    decide +kernel
  obtain ⟨a, ha, hobserved⟩ := Option.map_eq_some_iff.1 hobserved
  have hmem := List.mem_of_getElem? ha
  obtain ⟨hnext, hrest⟩ := Prod.mk.inj hobserved
  obtain ⟨hheaders, hstep⟩ := Prod.mk.inj hrest
  obtain ⟨-, hfit, -, hjump, -⟩ := visited_blocks loopSource none {} 12 a hmem
  refine ⟨a, hmem, hnext, hheaders, hfit, ?_⟩
  rcases hrun : (step (Session.runner 6) (Text.lines loopSource).toArray).runFrom a with
    reason | ⟨e | v, b⟩
  · simp [hrun, Except.toOption] at hstep
  · simp [hrun, Except.toOption] at hstep
  · simp only [hrun, Except.toOption, Option.map_some, Option.some.injEq, Prod.mk.injEq,
      Option.isNone_iff_eq_none] at hstep
    obtain ⟨rfl, hb⟩ := hstep
    refine ⟨b, rfl, ?_⟩
    have hblock := hjump _ b hrun (by omega)
    rwa [hb, hnext] at hblock

end LineScript
