import LineScript.Proofs.Block.Run
import LineScript.Proofs.Session.Growth
import LineScript.Proofs.Session.Matching

set_option relaxedAutoImplicit false
set_option autoImplicit false

/-!
# The places of messages

A session has one zone and one line, which every source that is run overwrites and puts back. So a
message carries the place of the line that is being run, also when that line has run other sources
before: they have put back what they overwrote.

Which messages of a run are its own, and not those of the sources that it runs from within, is told
by a second run of each step, in which those sources are *muted*: they do all they do, but leave no
message behind.

## Main definitions

* `LineScript.Session.muted` — sources that leave no message behind.
* `LineScript.Activation.journal` — the messages of a run's own, each with the index of its line.
* `LineScript.Session.Adds` — a log that has come about by messages of a run's own and by those of
  sources run from within.
* `LineScript.Session.Beside` — a session, and what it would be with muted sources.

## Main results

* `LineScript.Session.muted_follows` — a source does the same muted, and comes back to the same
  place.
* `LineScript.Activation.step_adds` — the messages of one step.
* `LineScript.Session.messages_in_place` — messages carry the place of the line being run.
-/

namespace LineScript

open LineScript.Action (Follows)

/-- A message from line `line` of the source in `zone`. -/
structure Message.At (m : Message) (zone : Option String) (line : Nat) : Prop where
  zone : m.zone = zone
  line : m.line = line

namespace Session

/-- Sources run by `run`, except that the log is put back afterwards. -/
def muted (run : SourceRunner) : SourceRunner := fun code zone => do
  let s ← get
  let outcome ← Action.attempt (run code zone)
  modify fun t => { t with log := s.log }
  Action.ofExcept outcome

end Session

namespace Activation

/-- The messages that the step from `a` logs if the sources that it runs are muted, with the index
of the line at the cursor. -/
def ownMessages (run : SourceRunner) (lines : Array String) (a : Activation) :
    List (Nat × Message) :=
  match (step (Session.muted run) lines).runFrom a with
  | .ok (_, b) => (b.session.log.toList.drop a.session.log.size).map fun m => (a.next, m)
  | .error _ => []

/-- The messages of a run's own, in their order, each with the index of the line at the cursor. -/
def journal : Nat → Array String → Activation → List (Nat × Message)
  | 0, _, _ => []
  | steps + 1, lines, a =>
    ownMessages (Session.runner steps) lines a ++
      match (step (Session.runner steps) lines).runFrom a with
      | .ok (.ok none, b) => journal steps lines b
      | _ => []

end Activation

namespace Session

/-- `Adds steps log own log'` says that `log'` has come from `log` by the messages `own`, one after
another, with sources run in between. Each of these has fewer than `steps` steps, starts where the
log is what it was so far, and adds its messages to it. -/
inductive Adds (steps : Nat) (log : List Message) : List Message → List Message → Prop where
  | refl : Adds steps log [] log
  | own {own log' : List Message} (h : Adds steps log own log') (m : Message) :
      Adds steps log (own ++ [m]) (log' ++ [m])
  | within {own log' : List Message} (h : Adds steps log own log') {left : Nat} (hlt : left < steps)
      {code : String} {zone : Option String} {s t : Session} {o : Except ScriptError Value}
      (hrun : (runner left code zone).runFrom s = .ok (o, t)) (hstart : s.log.toList = log')
      {added : List Message} (hadded : t.log.toList = log' ++ added) :
      Adds steps log own (log' ++ added)

namespace Adds

variable {steps : Nat} {log log' log'' own own' : List Message}

/-- Messages that are added to messages that were added. -/
theorem trans (h : Adds steps log own log') (h' : Adds steps log' own' log'') :
    Adds steps log (own ++ own') log'' := by
  induction h' with
  | refl =>
    rw [List.append_nil]
    exact h
  | own _ m ih =>
    rw [← List.append_assoc]
    exact ih.own m
  | within _ hlt hrun hstart hadded ih => exact ih.within hlt hrun hstart hadded

/-- Messages of nested runs may have taken more steps. -/
theorem mono (h : Adds steps log own log') {steps' : Nat} (hle : steps ≤ steps') :
    Adds steps' log own log' := by
  induction h with
  | refl => exact .refl
  | own _ m ih => exact ih.own m
  | within _ hlt hrun hstart hadded ih => exact ih.within (by omega) hrun hstart hadded

end Adds

/-! ## Sources that are muted -/

/-- Sessions that differ at most in their logs. -/
def SameButLog (s u : Session) : Prop :=
  ∃ log, u = { s with log := log }

/-- Nothing reads the log, so such sessions go on alike. -/
theorem matching_sameButLog : Matching SameButLog where
  store := by rintro s _ ⟨log, rfl⟩; rfl
  functions := by rintro s _ ⟨log, rfl⟩; rfl
  scope := by rintro s _ ⟨log, rfl⟩; rfl
  zone := by rintro s _ ⟨log, rfl⟩; rfl
  line := by rintro s _ ⟨log, rfl⟩; rfl
  loader := by rintro s _ ⟨log, rfl⟩; rfl
  throwErrors := by rintro s _ ⟨log, rfl⟩; rfl
  write := by rintro s _ ⟨log, rfl⟩ store; exact ⟨log, rfl⟩
  define := by rintro s _ ⟨log, rfl⟩ f functions -; exact ⟨log, rfl⟩
  enter := by rintro s _ ⟨log, rfl⟩ scope; exact ⟨log, rfl⟩
  move := by rintro s _ ⟨log, rfl⟩ zone line; exact ⟨log, rfl⟩
  record level kind text := by
    rintro s _ ⟨log, rfl⟩ o s' hrun
    cases hrun
    exact ⟨_, rfl, _, rfl⟩
  echo text := by
    rintro s _ ⟨log, rfl⟩ o s' hrun
    rw [runFrom_echo] at hrun ⊢
    cases hrun
    refine ⟨_, rfl, ?_⟩
    dsimp only
    split
    · exact ⟨_, rfl⟩
    · exact ⟨_, rfl⟩

/-- A muted source has the outcome of that source, and leaves the log as it was. -/
theorem runFrom_muted (run : SourceRunner) (code : String) (zone : Option String) (s : Session) :
    (muted run code zone).runFrom s =
      match (run code zone).runFrom s with
      | .error reason => .error reason
      | .ok (o, t) => .ok (o, { t with log := s.log }) := by
  unfold muted
  rw [Action.runFrom_get_bind, Action.runFrom_attempt_bind]
  rcases (run code zone).runFrom s with reason | ⟨o, t⟩
  · rfl
  · rfl

/-- **A source comes back to the place** that it was run from. -/
theorem runner_place {steps : Nat} {code : String} {zone : Option String} {s t : Session}
    {o : Except ScriptError Value} (h : (runner steps code zone).runFrom s = .ok (o, t)) :
    t.zone = s.zone ∧ t.line = s.line := by
  unfold runner at h
  rw [runFrom_runSource] at h
  split at h
  · cases h
  · cases h
    exact ⟨rfl, rfl⟩

/-- A session `s` at a line, and what it would be, `u`, had the sources that were run from within
since its log was `log` been muted. All messages that `u` has since then are from that line. -/
structure Beside (steps : Nat) (place : Option String × Nat) (log : List Message)
    (s u : Session) : Prop where
  same : SameButLog s u
  zone : s.zone = place.1
  line : s.line = place.2
  own : ∃ own, Adds steps log own s.log.toList ∧ u.log.toList = log ++ own ∧
    ∀ m ∈ own, m.At place.1 place.2

section Beside

variable {steps : Nat} {place : Option String × Nat} {log : List Message} {s u : Session}

/-- At the start of a line nothing has been run from within. -/
theorem beside_refl (steps : Nat) (s : Session) :
    Beside steps (s.zone, s.line) s.log.toList s s where
  same := ⟨s.log, rfl⟩
  zone := rfl
  line := rfl
  own := ⟨[], .refl, (List.append_nil _).symm, by simp⟩

/-- A message is logged by both, and from that line. -/
theorem Beside.logged (h : Beside steps place log s u) (level : Level) (kind : Option ErrorKind)
    (text : String) :
    Beside steps place log (s.logged (s.message level kind text))
      (u.logged (u.message level kind text)) := by
  obtain ⟨hsame, hzone, hline, own, hadds, hu, hown⟩ := h
  obtain ⟨log', rfl⟩ := hsame
  refine ⟨⟨_, rfl⟩, hzone, hline, own ++ [s.message level kind text], ?_, ?_, ?_⟩
  · rw [Session.logged, Array.toList_push]
    exact hadds.own _
  · rw [Session.logged, Array.toList_push, hu, List.append_assoc]
    rfl
  · intro m hm
    rcases List.mem_append.1 hm with hm | hm
    · exact hown m hm
    · rw [List.mem_singleton.1 hm]
      exact ⟨hzone, hline⟩

/-- **Both go on alike** as long as they are changed alike. They do not move: a line is run where it
stands.

**Proof sketch.** The parts that do not see the log are those of `matching_sameButLog`. A message
has the same zone and line in both runs, so that it is added to both logs; printing may log as
well. -/
theorem alike_beside (steps : Nat) (place : Option String × Nat) (log : List Message) :
    Alike (Beside steps place log) where
  store h := matching_sameButLog.store h.same
  functions h := matching_sameButLog.functions h.same
  scope h := matching_sameButLog.scope h.same
  zone h := matching_sameButLog.zone h.same
  loader h := matching_sameButLog.loader h.same
  throwErrors h := matching_sameButLog.throwErrors h.same
  write h store := { h with same := matching_sameButLog.write h.same store }
  define h _ _ hdefine := { h with same := matching_sameButLog.define h.same hdefine }
  enter h scope := { h with same := matching_sameButLog.enter h.same scope }
  record level kind text := by
    intro s u h o s' hrun
    cases hrun
    have hmessage : s.message level (some kind) text = u.message level (some kind) text := by
      simp only [message, matching_sameButLog.zone h.same, matching_sameButLog.line h.same]
    exact ⟨_, by rw [hmessage]; rfl, h.logged level (some kind) text⟩
  echo text := by
    intro s u h o s' hrun
    rw [runFrom_echo] at hrun ⊢
    cases hrun
    have hsettings : u.settings = s.settings := by
      obtain ⟨log', rfl⟩ := h.same
      rfl
    refine ⟨_, rfl, ?_⟩
    rw [hsettings]
    split
    · exact h.logged .notice none text
    · obtain ⟨log', rfl⟩ := h.same
      exact { h with same := ⟨log', rfl⟩ }

/-- **A source run from within** does the same if it is muted, since it does not read the log. It
adds its messages on one side only, and both sides are where they were before. -/
theorem muted_follows (steps : Nat) (place : Option String × Nat) (log : List Message)
    (code : String) (zone : Option String) :
    Follows (Beside (steps + 1) place log) (runner steps code zone)
      (muted (runner steps) code zone) := by
  intro s u h o s' hrun
  obtain ⟨u', hu', log', rfl⟩ :=
    runner_follows matching_sameButLog (Nat.le_refl steps) code zone s u h.same o s' hrun
  obtain ⟨hzone, hline⟩ := runner_place hrun
  obtain ⟨added, hadded⟩ := (runner_grows hrun).log
  obtain ⟨own, hadds, hu, hown⟩ := h.own
  refine ⟨{ s' with log := u.log }, ?_, ⟨u.log, rfl⟩, hzone.trans h.zone, hline.trans h.line, own,
    ?_, hu, hown⟩
  · rw [runFrom_muted, hu']
  · rw [← hadded]
    exact hadds.within (Nat.lt_succ_self steps) hrun rfl hadded.symm

end Beside

end Session

namespace Activation

open Session (Beside alike_beside muted_follows)

/-! ## Steps and runs -/

section

variable {steps : Nat} {lines : Array String} {a b : Activation}
  {r : Except ScriptError (Option Value)}

/-- A step at a line, and the same step with muted sources. -/
theorem step_beside {raw : String} (hraw : lines[a.next]? = some raw)
    (h : (step (Session.runner steps) lines).runFrom a = .ok (r, b)) :
    ∃ c, (step (Session.muted (Session.runner steps)) lines).runFrom a = .ok (r, c) ∧
      Matches (Beside (steps + 1) (a.session.zone, a.next + 1) a.session.log.toList) b c := by
  obtain ⟨s, blocks, i⟩ := a
  have hline : lines[i]?.map Text.trim = some (Text.trim raw) := by
    rw [hraw]
    rfl
  rw [runFrom_step hline] at h ⊢
  have hI := alike_beside (steps + 1) (s.zone, i + 1) s.log.toList
  have hsources := muted_follows steps (s.zone, i + 1) s.log.toList
  have hstart : Matches (Beside (steps + 1) (s.zone, i + 1) s.log.toList)
      ⟨s.atLine (i + 1), blocks, i + 1⟩ ⟨s.atLine (i + 1), blocks, i + 1⟩ :=
    ⟨Session.beside_refl (steps + 1) (s.atLine (i + 1)), rfl, rfl⟩
  refine Follows.ite ?_ (Follows.ite (.pure _) ?_) _ _ hstart _ _ h
  · exact .bind (gatherLine_follows hI _) fun _ => .pure _
  · exact runOutside_follows hI hsources _ _

/-- The own messages of a step are those that the step with muted sources adds to the log. -/
theorem ownMessages_eq {run : SourceRunner} {c : Activation} {own : List Message}
    (h : (step (Session.muted run) lines).runFrom a = .ok (r, c))
    (hlog : c.session.log.toList = a.session.log.toList ++ own) :
    ownMessages run lines a = own.map (Prod.mk a.next) := by
  unfold ownMessages
  rw [h]
  dsimp only
  rw [hlog, ← Array.length_toList, List.drop_left]

/-- At the start of a step: the stack belongs to the cursor, and if the lines have run out inside a
block, the last one has been the line before. -/
structure Reads (lines : Array String) (a : Activation) : Prop where
  tracks : a.blocks.Tracks (trimmed lines) a.next
  line : lines.size ≤ a.next → 0 < a.blocks.depth → a.session.line = lines.size

/-- A source starts outside all blocks, on whatever line the session is. -/
theorem reads_start (lines : Array String) (s : Session) : Reads lines { session := s } where
  tracks := BlockStack.tracks_start _
  line := by
    intro _ hdepth
    cases hdepth

/-- The line that is processed in the step from the cursor: the one at the cursor, and after all
lines the last one. -/
def lineNumber (lines : Array String) (cursor : Nat) : Nat :=
  min (cursor + 1) lines.size

/-- The message at the end of a source, if there is one, is from its last line. -/
theorem finish_adds (ha : Reads lines a) (hsize : lines.size ≤ a.next)
    (h : finish.runFrom a = .ok (r, b)) :
    ∃ own, b.session.log.toList = a.session.log.toList ++ own ∧
      Session.Adds steps a.session.log.toList own b.session.log.toList ∧
      ∀ m ∈ own, m.At a.session.zone (lineNumber lines a.next) := by
  rcases Nat.eq_zero_or_pos a.blocks.depth with hdepth | hdepth
  · -- outside all blocks nothing is logged
    unfold finish at h
    rw [Action.runFrom_get_bind, if_neg (by omega)] at h
    cases h
    exact ⟨[], (List.append_nil _).symm, .refl, by simp⟩
  · have hstart : Matches
        (Beside steps (a.session.zone, a.session.line) a.session.log.toList) a a :=
      ⟨Session.beside_refl _ _, rfl, rfl⟩
    obtain ⟨c, hc, hbc⟩ := finish_follows (alike_beside _ _ _) a a hstart r b h
    rw [h] at hc
    cases hc
    obtain ⟨own, hadds, hlog, hown⟩ := hbc.session.own
    have hline : a.session.line = lineNumber lines a.next := by
      rw [ha.line hsize hdepth, lineNumber]
      omega
    exact ⟨own, hlog, hadds, hline ▸ hown⟩

/-- **The messages of one step** of a run: its own ones are from the line being processed. -/
theorem step_adds (ha : Reads lines a)
    (h : (step (Session.runner steps) lines).runFrom a = .ok (r, b)) :
    ∃ own, ownMessages (Session.runner steps) lines a = own.map (Prod.mk a.next) ∧
      Session.Adds (steps + 1) a.session.log.toList own b.session.log.toList ∧
      ∀ m ∈ own, m.At a.session.zone (lineNumber lines a.next) := by
  rcases hraw : lines[a.next]? with _ | raw
  · rw [runFrom_step_of_none hraw] at h
    obtain ⟨own, hlog, hadds, hown⟩ := finish_adds ha (Array.getElem?_eq_none_iff.1 hraw) h
    -- the end of a source runs no other sources, so there is nothing to mute
    have hmuted : (step (Session.muted (Session.runner steps)) lines).runFrom a = .ok (r, b) := by
      rw [runFrom_step_of_none hraw, h]
    exact ⟨own, ownMessages_eq hmuted hlog, hadds, hown⟩
  · obtain ⟨hlt, -⟩ := Array.getElem?_eq_some_iff.1 hraw
    obtain ⟨c, hc, hbc⟩ := step_beside hraw h
    obtain ⟨own, hadds, hlog, hown⟩ := hbc.session.own
    have hline : a.next + 1 = lineNumber lines a.next := by
      rw [lineNumber]
      omega
    exact ⟨own, ownMessages_eq hc hlog, hadds, hline ▸ hown⟩

/-- The step after which a run goes on leaves the zone as it is. -/
theorem step_reads (ha : Reads lines a)
    (h : (step (Session.runner steps) lines).runFrom a = .ok (.ok none, b)) :
    Reads lines b ∧ b.session.zone = a.session.zone := by
  rcases hraw : lines[a.next]? with _ | raw
  · rw [runFrom_step_of_none hraw] at h
    cases (depth_of_finish h).2
  · obtain ⟨hlt, -⟩ := Array.getElem?_eq_some_iff.1 hraw
    obtain ⟨c, -, hbc⟩ := step_beside hraw h
    obtain ⟨htracks, hjump⟩ := step_tracks ha.tracks h
    refine ⟨⟨htracks, ?_⟩, hbc.session.zone⟩
    intro hsize _
    -- a jump leads back, so the cursor has come to the end from the last line
    have hnext : b.next = a.next + 1 := by
      by_contra hne
      have hback := (hjump hne).lt
      omega
    rw [hbc.session.line]
    dsimp only
    omega

/-- **The messages of a whole run**, by induction on the steps it may take. -/
theorem run_adds {o : Except ScriptError Value} {t : Session} (ha : Reads lines a)
    (h : run steps lines a = .ok (o, t)) :
    Session.Adds steps a.session.log.toList ((journal steps lines a).map Prod.snd) t.log.toList ∧
      ∀ p ∈ journal steps lines a, p.2.At a.session.zone (lineNumber lines p.1) := by
  induction steps generalizing a with
  | zero => cases h
  | succ steps ih =>
    obtain ⟨r, b, hstep, h⟩ := run_succ_eq_ok.1 h
    obtain ⟨own, hown, hadds, hplaces⟩ := step_adds ha hstep
    have hsnd : own.map (Prod.snd ∘ Prod.mk a.next) = own := List.map_id own
    rw [journal, hown, hstep]
    rcases r with e | (_ | v)
    · obtain ⟨-, rfl⟩ := h
      simpa [hsnd] using ⟨hadds, hplaces⟩
    · obtain ⟨hb, hzone⟩ := step_reads ha hstep
      obtain ⟨hrest, hrestPlaces⟩ := ih hb h
      rw [hzone] at hrestPlaces
      rw [List.map_append, List.map_map, hsnd]
      refine ⟨hadds.trans (hrest.mono (Nat.le_succ steps)), ?_⟩
      intro p hp
      rcases List.mem_append.1 hp with hp | hp
      · obtain ⟨m, hm, rfl⟩ := List.mem_map.1 hp
        exact hplaces m hm
      · exact hrestPlaces p hp
    · obtain ⟨-, rfl⟩ := h
      simpa [hsnd] using ⟨hadds, hplaces⟩

end

end Activation

namespace Session

open Activation (journal lineNumber run_adds reads_start)

/-- After `code` has been run in `zone`, the session is back at its place. Its log has come about by
the messages of the run's own and by those of sources run from within, and each message of the run's
own carries that zone and the number of the line that was being processed. -/
structure Placed (steps : Nat) (code : String) (zone : Option String) (s t : Session) : Prop where
  restored : t.zone = s.zone ∧ t.line = s.line
  log : Adds steps s.log.toList
    ((journal steps (Text.lines code).toArray { session := { s with zone := zone } }).map Prod.snd)
    t.log.toList
  places : ∀ p ∈ journal steps (Text.lines code).toArray { session := { s with zone := zone } },
    p.2.At zone (lineNumber (Text.lines code).toArray p.1)

/-- **Messages carry the place of the line being run.** From every session, a source that is run to
its end, with a result or with a failure, leaves the session in the zone and on the line it was
before. The messages that it logged are those of sources run from within, which this theorem speaks
of as well, and its own; these carry its zone and the number of the line at the cursor, whatever
other sources that line has run before, and after all lines the number of the last one. Hosts run
sources in no zone, in a zone they name, or in that of the file; functions, imports and evaluated
code are run by `runner` too.

**Proof sketch.** One step is compared with the same step where sources run from within are muted.
Both do the same, since nothing reads the log, and stay on the line, since those sources come back
to where they were run from (`muted_follows`); so all that the muted step logs is from that line
(`step_adds`). The end of the source is reached from its last line, as jumps lead back
(`step_reads`). Whole runs go by induction on their steps (`run_adds`). -/
theorem messages_in_place (steps : Nat) (s t : Session) (o : Except ScriptError Value) :
    (∀ code zone, (runner steps code zone).runFrom s = .ok (o, t) → Placed steps code zone s t) ∧
    (∀ code, (execute steps code).runFrom s = .ok (o, t) → Placed steps code none s t) ∧
    (∀ code zone, (executeIn steps code zone).runFrom s = .ok (o, t) →
      Placed steps code (some zone) s t) ∧
    ∀ load id code, s.loader = some load → load id = .text code →
      (executeFile steps id).runFrom s = .ok (o, t) → Placed steps code (some id) s t := by
  have hplaced (code : String) (zone : Option String)
      (h : (runner steps code zone).runFrom s = .ok (o, t)) : Placed steps code zone s t := by
    have hrestored := runner_place h
    unfold runner at h
    rw [runFrom_runSource] at h
    split at h
    · cases h
    next outcome ended hended =>
      cases h
      obtain ⟨hadds, hplaces⟩ := run_adds (reads_start _ _) hended
      exact ⟨hrestored, hadds, hplaces⟩
  refine ⟨hplaced, fun code => hplaced code none, fun code zone => hplaced code (some zone), ?_⟩
  intro load id code hloader hload h
  unfold executeFile loadSource at h
  rw [Action.runFrom_get_bind] at h
  simp only [hloader, hload] at h
  exact hplaced code (some id) h

/-- A session on line 3, with a function that reads a missing key on its second line. -/
def placedSession : Session :=
  { functions :=
      ⟨[("f", { name := "f", params := ["x"], body := .source "set $c = []\necho $c.none" })]⟩
    line := 3 }

/-- A source that calls the function without an argument, reads a missing key on the same line, and
ends inside a block. -/
def placedSource : String :=
  "set $c = []\necho [\x7bf\x7d, $c.none]\nif true\n;"

/-- The messages of the source itself are from its second line, before and after the one that the
function logs in between, and from its last one. The session is back on line 3. -/
theorem messages_in_place_placedSource :
    ∃ o t, (executeIn 20 placedSource "main").runFrom placedSession = .ok (o, t) ∧
      t.log.toList.map (fun m => (m.zone, m.line)) =
        [(some "main", 2), (some "\x7bf\x7d", 2), (some "main", 2), (some "main", 4)] ∧
      (journal 20 (Text.lines placedSource).toArray
        { session := { placedSession with zone := some "main" } }).map Prod.fst = [1, 1, 4] ∧
      Placed 20 placedSource (some "main") placedSession t := by
  have hobserved : ((executeIn 20 placedSource "main").runFrom placedSession).toOption.map
      (fun r => r.2.log.toList.map fun m => (m.zone, m.line)) =
        some [(some "main", 2), (some "\x7bf\x7d", 2), (some "main", 2), (some "main", 4)] := by
    decide +kernel
  have hjournal : (journal 20 (Text.lines placedSource).toArray
      { session := { placedSession with zone := some "main" } }).map Prod.fst = [1, 1, 4] := by
    decide +kernel
  rcases hrun : (executeIn 20 placedSource "main").runFrom placedSession with reason | ⟨o, t⟩
  · rw [hrun] at hobserved
    cases hobserved
  · rw [hrun] at hobserved
    have hplaced := (messages_in_place 20 placedSession t o).2.2.1 placedSource "main" hrun
    exact ⟨o, t, rfl, Option.some.inj hobserved, hjournal, hplaced⟩

end Session

end LineScript
