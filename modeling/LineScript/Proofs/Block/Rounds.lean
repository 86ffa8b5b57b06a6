import LineScript.Proofs.Block.Skipping
import LineScript.Proofs.Session.Counter
import LineScript.Proofs.Session.Matching

set_option relaxedAutoImplicit false
set_option autoImplicit false

/-!
# The rounds of a counting loop

A counting loop is run through its header: the first visit sets the counter, the end of the body
leads back to the header, and every later visit moves the counter or finds that the loop is done. So
the body runs once for each value of the progression from the first bound towards the second, and
then the run goes on after the end of the loop.

## Main definitions

* `LineScript.Activation.SameAnswers` — runs from two places have the same answers.
* `LineScript.Activation.Rounds` — a loop whose body runs several times.
* `LineScript.Activation.RunsThrough` — the body of a loop runs to its end and leaves the counter
  alone.

## Main results

* `LineScript.Activation.exists_turn` — one turn, from the end of the body to its start.
* `LineScript.Activation.exists_rounds` — the rounds that are left, from the start of any of them.
* `LineScript.Activation.passes_done` — a loop that is done is left, with nothing else done.
* `LineScript.Activation.count_visits_progression` — the whole loop.
-/

namespace LineScript

namespace Activation

open Counter (pace turns IsAt)

variable {source : Array String}

/-! ## Answers -/

/-- Runs from both places have the same answers. -/
def SameAnswers (source : Array String) (a b : Activation) : Prop :=
  ∀ r, (∃ n, run n source a = .ok r) ↔ ∃ n, run n source b = .ok r

section Answers

variable {a b c : Activation}

/-- An activation has its own answers. -/
theorem SameAnswers.refl (source : Array String) (a : Activation) : SameAnswers source a a :=
  fun _ => Iff.rfl

/-- Having the same answers is transitive. -/
theorem SameAnswers.trans (hab : SameAnswers source a b) (hbc : SameAnswers source b c) :
    SameAnswers source a c :=
  fun r => (hab r).trans (hbc r)

/-- More steps for the sources that a step runs do not change what it does. -/
theorem step_mono {n m : Nat} (hle : n ≤ m) {o : Except ScriptError (Option Value)}
    (h : (step (Session.runner n) source).runFrom a = .ok (o, b)) :
    (step (Session.runner m) source).runFrom a = .ok (o, b) := by
  have hfollows := step_follows Session.matching_eq
    (Session.runner_follows Session.matching_eq hle) source
  obtain ⟨b', hstep, hsession, hblocks, hnext⟩ := hfollows a a ⟨rfl, rfl, rfl⟩ o b h
  obtain rfl : b = b' := by
    cases b
    cases b'
    simp_all
  exact hstep

/-- **A step keeps the answers**: from before and after it, a run comes to the same end, given steps
enough. -/
theorem Moves.sameAnswers (h : Moves source a b) : SameAnswers source a b := by
  obtain ⟨k, hstep⟩ := h
  rintro ⟨o, t⟩
  constructor
  · rintro ⟨n, hn⟩
    obtain ⟨r, c, hstep', hrest⟩ :=
      run_succ_eq_ok.1 (run_mono (Nat.le_succ_of_le (Nat.le_max_left n k)) hn)
    rw [step_mono (Nat.le_max_right n k) hstep] at hstep'
    cases hstep'
    exact ⟨_, hrest⟩
  · rintro ⟨n, hn⟩
    exact ⟨max n k + 1, run_succ_eq_ok.2
      ⟨_, b, step_mono (Nat.le_max_right n k) hstep, run_mono (Nat.le_max_left n k) hn⟩⟩

/-- **A stretch of steps keeps the answers**, by induction on its steps. -/
theorem Goes.sameAnswers {first last : Nat} (h : Goes source first last a b) :
    SameAnswers source a b := by
  induction h with
  | refl => exact .refl source a
  | tail _ hstep ih => exact ih.trans hstep.2.2.sameAnswers

/-- Passing the line of a header or an end, in any number of steps, keeps the answers. -/
theorem Passes.sameAnswers {k : Nat} (h : Passes source k a b) : SameAnswers source a b := by
  intro r
  constructor
  · rintro ⟨n, hn⟩
    obtain ⟨m, -, hm⟩ := h.run_eq_ok.1 hn
    exact ⟨m, hm⟩
  · rintro ⟨m, hm⟩
    exact ⟨m + k, h.run_eq_ok.2 ⟨m, rfl, hm⟩⟩

/-- What goes from line to line within some lines goes within any more lines around them. -/
theorem Goes.mono {first last first' last' : Nat} (hfirst : first' ≤ first) (hlast : last ≤ last')
    (h : Goes source first last a b) : Goes source first' last' a b := by
  refine Relation.ReflTransGen.mono (fun _ _ hstep => ?_) _ _ h
  exact ⟨hfirst.trans hstep.1, hstep.2.1.trans_le hlast, hstep.2.2⟩

end Answers

/-! ## The header -/

section Header

variable {run : SourceRunner} {base : BlockStack} {i : Nat} {s t : Session}
  {name start stop : String}
  {step : Option String} {range : ForRange} (line : LineOf (.count name start stop step))
  (hline : source[i]?.map Text.trim = some line.text) (hbase : base.Settled)
  (hactive : base.active = true)

include hline hbase hactive

/-- The first visit of the header. -/
theorem step_count_first
    (hopen : (Session.openCount run name start stop step).runFrom (s.atLine (i + 1)) =
      .ok (.ok range, t)) :
    (Activation.step run source).runFrom ⟨s, base, i⟩ =
      .ok (.ok none,
        ⟨t, base.push ((LoopHeader.count name start stop step).frame i range), i + 1⟩) := by
  rw [runFrom_step_of_statement line hline hbase.capturing]
  simp only [runStatement, openCount, Action.runFrom_bind, runFrom_enter, hbase.enter,
    hactive, if_true, Bool.false_eq_true, if_false, onSession, Action.runFrom_zoom, hopen,
    runFrom_modifyFrame,
    hbase.modifyCurrent_push, Action.runFrom_pure]
  rfl

/-- A later visit of the header. -/
theorem step_count_again {more : Bool}
    (hadvance : (Session.advanceCount range).runFrom (s.atLine (i + 1)) = .ok (.ok more, t)) :
    (Activation.step run source).runFrom
        ⟨s, base.returning ((LoopHeader.count name start stop step).frame i range), i⟩ =
      .ok (.ok none,
        ⟨t, base.push { (LoopHeader.count name start stop step).frame i range with active := more },
          i + 1⟩) := by
  let f := (LoopHeader.count name start stop step).frame i range
  have hround : BlockStack.comesRound (.count none) i f = true := by
    simp [f, BlockStack.comesRound, LoopHeader.frame, LoopHeader.kind, BlockKind.isLoop]
  have hkind : f.kind = .count (some range) := rfl
  have hcapturing : (base.returning f).capturing = none := hbase.capturing
  rw [runFrom_step_of_statement line hline hcapturing]
  simp only [runStatement, openCount, Action.runFrom_bind, runFrom_enter,
    hbase.enter_returning hround, hactive, if_true, Action.runFrom_get, hbase.current?_push,
    Option.map_some, hkind, onSession, Action.runFrom_zoom,
    hadvance, runFrom_modifyFrame, hbase.modifyCurrent_push, Action.runFrom_pure]
  rfl

end Header

/-! ## Rounds -/

/-- A loop whose body, between the header and its end on line `last`, runs several times. Each time
it starts in one of the sessions `starts` and comes to its end; from there the run goes back to the
header, and on to the body. The first time starts in the session `s`, the last time ends in the
session `t`. -/
inductive Rounds (source : Array String) (base : BlockStack) (f : Frame) (last : Nat) :
    Session → List Session → Session → Prop
  | once {s t : Session} :
      Goes source (f.header + 1) last ⟨s, base.push f, f.header + 1⟩ ⟨t, base.push f, last⟩ →
        Rounds source base f last s [s] t
  | again {s t u v : Session} {starts : List Session} :
      Goes source (f.header + 1) last ⟨s, base.push f, f.header + 1⟩ ⟨t, base.push f, last⟩ →
      Moves source ⟨t, base.push f, last⟩ ⟨t.atLine (last + 1), base.returning f, f.header⟩ →
      Moves source ⟨t.atLine (last + 1), base.returning f, f.header⟩
          ⟨u, base.push f, f.header + 1⟩ →
      Rounds source base f last u starts v → Rounds source base f last s (s :: starts) v

/-- **A loop keeps the answers**, from its first round to the last line of its last one. By
induction on the rounds. -/
theorem Rounds.sameAnswers {base : BlockStack} {f : Frame} {last : Nat} {s t : Session}
    {starts : List Session} (h : Rounds source base f last s starts t) :
    SameAnswers source ⟨s, base.push f, f.header + 1⟩ ⟨t, base.push f, last⟩ := by
  induction h with
  | once hbody => exact hbody.sameAnswers
  | again hbody hend hheader _ ih =>
    exact ((hbody.sameAnswers.trans hend.sameAnswers).trans hheader.sameAnswers).trans ih

/-- Wherever the run from `a` comes to the body of an active loop, between its header on line
`first` and its end on line `last`, the body runs to its end and leaves the variable `name` as it
was. -/
def RunsThrough (source : Array String) (base : BlockStack) (name : String) (first last : Nat)
    (a : Activation) : Prop :=
  -- a loop on the first line of the body comes back to this line too, but with its own frame left
  -- over
  ∀ (s : Session) (f : Frame), f.active = true →
    Goes source first (last + 1) a ⟨s, base.push f, first + 1⟩ →
      ∃ t, Goes source (first + 1) last ⟨s, base.push f, first + 1⟩ ⟨t, base.push f, last⟩ ∧
        t.store.find? name = s.store.find? name

/-- At the end of a body, the counter is where it was at the start. -/
theorem RunsThrough.exists_goes {base : BlockStack} {name : String} {first last : Nat}
    {a : Activation}
    (h : RunsThrough source base name first last a) {f : Frame} (hf : f.active = true) {s : Session}
    (hgoes : Goes source first (last + 1) a ⟨s, base.push f, first + 1⟩) {x : Int}
    (hs : IsAt name x s) :
    ∃ t, Goes source (first + 1) last ⟨s, base.push f, first + 1⟩ ⟨t, base.push f, last⟩ ∧
      IsAt name x t := by
  obtain ⟨t, hbody, hfind⟩ := h s f hf hgoes
  exact ⟨t, hbody, by rwa [IsAt, hfind]⟩

section Counting

variable {base : BlockStack} {first last : Nat} {name : String} {a b s : Int}
  (line : LineOf (.count name (toString a) (toString b) (some (toString s))))
  (hheader : source[first]?.map Text.trim = some line.text)
  (close : LineOf .close) (hclose : source[last]?.map Text.trim = some close.text)
  (hbase : base.Settled) (hactive : base.active = true) (hname : '.' ∉ name.toList)
  (hsize : a.natAbs + b.natAbs + s.natAbs < 2 ^ 53) (hs : s ≠ 0)

/-- The frame of the loop while it counts. -/
abbrev countFrame (name : String) (first : Nat) (a b s : Int) : Frame :=
  (LoopHeader.count name (toString a) (toString b) (some (toString s))).frame first
    ⟨name, Number.ofInt b, Number.ofInt (pace a b s)⟩

include hheader hclose hbase hactive hname hsize hs

/-- **One turn.** While there are turns left, the end of the body leads back to the header, and the
header moves the counter on by one step. -/
theorem exists_turn {k : Nat} (hk : k < turns a b s) {t : Session}
    (ht : IsAt name (a + k * pace a b s) t) :
    ∃ w, Moves source ⟨t, base.push (countFrame name first a b s), last⟩
        ⟨t.atLine (last + 1), base.returning (countFrame name first a b s), first⟩ ∧
      Moves source ⟨t.atLine (last + 1), base.returning (countFrame name first a b s), first⟩
        ⟨w, base.push (countFrame name first a b s), first + 1⟩ ∧
      IsAt name (a + (k + 1 : Nat) * pace a b s) w := by
  obtain ⟨w, hw, hadvance⟩ := Session.advanceCount_true hname hsize hs hk
    (u := (t.atLine (last + 1)).atLine (first + 1)) ht
  refine ⟨w, ⟨0, ?_⟩, ⟨0, ?_⟩, hw⟩
  · exact runFrom_step_close_of_loop close hclose hbase rfl rfl _
  · exact step_count_again line hheader hbase hactive hadvance

/-- **The rounds that are left.** From the start of round `k`, the body runs for all values of the
progression from the one with index `k` on. By induction on the number of turns left: the body
leaves the counter alone, and each turn moves it on. -/
theorem exists_rounds {st : Activation} (hthrough : RunsThrough source base name first last st)
    (hlt : first < last) {k n : Nat} (hturns : k + n = turns a b s) {u : Session}
    (hgoes : Goes source first (last + 1) st
      ⟨u, base.push (countFrame name first a b s), first + 1⟩)
    (hu : IsAt name (a + k * pace a b s) u) :
    ∃ starts v, Rounds source base (countFrame name first a b s) last u starts v ∧
      starts.length = n + 1 ∧
      (∀ j t, starts[j]? = some t → IsAt name (a + (k + j : Nat) * pace a b s) t) ∧
        IsAt name (a + turns a b s * pace a b s) v := by
  induction n generalizing k u with
  | zero =>
    obtain ⟨t, hbody, ht⟩ := hthrough.exists_goes rfl hgoes hu
    refine ⟨[u], t, .once hbody, rfl, ?_, hturns ▸ ht⟩
    intro j t' ht'
    obtain ⟨rfl, rfl⟩ : j = 0 ∧ u = t' := by simpa [List.getElem?_singleton] using ht'
    exact hu
  | succ n ih =>
    obtain ⟨t, hbody, ht⟩ := hthrough.exists_goes rfl hgoes hu
    obtain ⟨w, hend, hround, hw⟩ := exists_turn line hheader close hclose hbase hactive
      hname hsize hs (by omega : k < turns a b s) ht
    -- the body may be relied on in the next round as well, since the run comes to its start
    have hgoes' : Goes source first (last + 1) st
        ⟨w, base.push (countFrame name first a b s), first + 1⟩ :=
      ((hgoes.trans (hbody.mono (Nat.le_succ _) (Nat.le_succ _))).tail
        ⟨hlt.le, Nat.lt_succ_self _, hend⟩).tail ⟨Nat.le_refl _, by simp only; omega, hround⟩
    obtain ⟨starts, v, hrounds, hlength, hstarts, hv⟩ := ih (by omega) hgoes' hw
    refine ⟨u :: starts, v, .again hbody hend hround hrounds, by simp [hlength], ?_, hv⟩
    intro j t' ht'
    cases j with
    | zero =>
      obtain rfl : u = t' := by simpa using ht'
      exact hu
    | succ j =>
      have hat := hstarts j t' (by simpa using ht')
      rwa [Nat.add_right_comm] at hat

/-- **A loop that is done is left.** Its body has run to its end, so it is skipped to its end. -/
theorem passes_done {t u v : Session} (hlt : first < last)
    (hbody : Goes source (first + 1) last ⟨t, base.push (countFrame name first a b s), first + 1⟩
      ⟨u, base.push (countFrame name first a b s), last⟩)
    (hv : IsAt name (a + turns a b s * pace a b s) v) :
    ∃ k, Passes source k ⟨v, base.push (countFrame name first a b s), last⟩
      ⟨v.atLine (last + 1), base, last + 1⟩ := by
  let f := countFrame name first a b s
  let g : Frame := { f with active := false }
  have hback : Passes source 1 ⟨v, base.push f, last⟩
      ⟨v.atLine (last + 1), base.returning f, first⟩ :=
    passes_close_of_loop close hclose hbase rfl rfl
  have hdone : Passes source 1 ⟨v.atLine (last + 1), base.returning f, first⟩
      ⟨v.atLine (first + 1), base.push g, first + 1⟩ :=
    .of_step fun _ => step_count_again line hheader hbase hactive
      (Session.advanceCount_false hname hsize hs hv)
  obtain ⟨k, l, hskipped⟩ := passes_of_goes hbase rfl rfl (Nat.lt_succ_self first) hlt
    (rfl : g.active = false) hbody (v.atLine (first + 1))
  have hleft : Passes source 1 ⟨v.atLine l, base.push g, last⟩
      ⟨v.atLine (last + 1), base, last + 1⟩ :=
    passes_close close hclose hbase rfl
  exact ⟨_, ((hback.trans hdone).trans hskipped).trans hleft⟩

end Counting

/-- **A counting loop visits exactly the arithmetic progression.** Let the header stand in an active
block of any depth, with integer bounds and a step other than zero, in all below `2 ^ 53`. Its
variable must be no constant, and its body must run to its end without a change to the variable.
Then the body runs `|b - a| / |s| + 1` times, with the values `a`, `a ± |s|`, `a ± 2|s|` and so on
towards `b` and never past it. Afterwards the variable has the last of these values, and the run
goes on after the end of the loop, with the blocks that were open before. Only the size of the step
matters, not its sign.

**Proof sketch.** The first visit of the header sets the counter (`Session.openCount_integers`).
From there, by induction on the turns that are left (`exists_rounds`), the end of the body leads
back to the header, which moves the counter on. When it would pass `b`, the header makes the loop
inactive, and the body is skipped (`passes_done`), which is possible since it has run
(`passes_of_goes`). -/
theorem count_visits_progression {base : BlockStack} {first last : Nat} {name : String}
    {a b s : Int} {st : Session}
    (hname : ∃ c taken, Text.isNameStart c = true ∧ (∀ d ∈ taken, Text.isWordChar d = true) ∧
      name.toList = c :: taken)
    (hheader : source[first]?.map Text.trim =
      some ("for $" ++ name ++ " = " ++ toString a ++ " to " ++ toString b ++ " step " ++
        toString s))
    (hclose : source[last]?.map Text.trim = some "end") (hlt : first < last)
    (hbase : base.Settled) (hactive : base.active = true)
    (hsize : a.natAbs + b.natAbs + s.natAbs < 2 ^ 53) (hs : s ≠ 0)
    (hconstant : st.store.lifetime? name ≠ some .constant)
    (hthrough : RunsThrough source base name first last ⟨st, base, first⟩) :
    ∃ (f : Frame) (u v : Session) (starts : List Session),
      Moves source ⟨st, base, first⟩ ⟨u, base.push f, first + 1⟩ ∧ f.header = first ∧
        Rounds source base f last u starts v ∧
        starts.length = turns a b s + 1 ∧
        (∀ (k : Nat) (t : Session), starts[k]? = some t →
          t.store.get name = .ok (.number (Number.ofInt (a + k * pace a b s))) ∧
            min a b ≤ a + k * pace a b s ∧ a + k * pace a b s ≤ max a b) ∧
        v.store.get name = .ok (.number (Number.ofInt (a + turns a b s * pace a b s))) ∧
        (∃ k, Passes source k ⟨v, base.push f, last⟩ ⟨v.atLine (last + 1), base, last + 1⟩) ∧
        SameAnswers source ⟨st, base, first⟩ ⟨v.atLine (last + 1), base, last + 1⟩ ∧
        turns a b (-s) = turns a b s ∧ pace a b (-s) = pace a b s := by
  have hparse := Statement.parse_count_toString hname a b s
  have hdotted : '.' ∉ name.toList := (Statement.Introduces.counted hparse).not_dotted
  let line : LineOf (.count name (toString a) (toString b) (some (toString s))) := ⟨_, hparse⟩
  let close : LineOf .close := ⟨"end", rfl⟩
  obtain ⟨u, hu, hopen⟩ := Session.openCount_integers
    (u := st.atLine (first + 1)) hdotted hsize hs hconstant
  have hfirst : Moves source ⟨st, base, first⟩
      ⟨u, base.push (countFrame name first a b s), first + 1⟩ :=
    ⟨0, step_count_first line hheader hbase hactive (hopen _)⟩
  have hgoes : Goes source first (last + 1) ⟨st, base, first⟩
      ⟨u, base.push (countFrame name first a b s), first + 1⟩ :=
    .single ⟨Nat.le_refl _, by simp only; omega, hfirst⟩
  obtain ⟨starts, v, hrounds, hlength, hstarts, hv⟩ := exists_rounds (k := 0)
    (n := turns a b s) line hheader close hclose hbase hactive hdotted hsize hs hthrough hlt
    (Nat.zero_add _) hgoes (by simpa using hu)
  obtain ⟨t, hbody, -⟩ := hthrough u _ rfl hgoes
  obtain ⟨k, hleft⟩ := passes_done line hheader close hclose hbase hactive hdotted hsize hs
    hlt hbody hv
  have hvalues : ∀ (j : Nat) (t : Session), starts[j]? = some t →
      t.store.get name = .ok (.number (Number.ofInt (a + j * pace a b s))) ∧
        min a b ≤ a + j * pace a b s ∧ a + j * pace a b s ≤ max a b := by
    intro j t ht
    have hj : j < starts.length := (List.getElem?_eq_some_iff.1 ht).1
    have hat := hstarts j t ht
    rw [Nat.zero_add] at hat
    exact ⟨Session.isAt_get hdotted hat, Counter.between (by omega)⟩
  exact ⟨_, u, v, starts, hfirst, rfl, hrounds, hlength, hvalues, Session.isAt_get hdotted hv,
    ⟨k, hleft⟩, (hfirst.sameAnswers.trans hrounds.sameAnswers).trans hleft.sameAnswers,
    by rw [turns, turns, Int.natAbs_neg], by rw [pace, pace, Int.natAbs_neg]⟩

/-- A loop that counts down in a branch, by steps that do not meet its second bound. -/
def countdownSource : Array String :=
  #["if true", "  for $i = 5 to -2 step 3", "    echo 1", "  end", "end"]

/-- The body of the loop prints, and does nothing else. -/
theorem runsThrough_countdownSource {base : BlockStack} (hbase : base.Settled) (a : Activation) :
    RunsThrough countdownSource base "i" 1 3 a := by
  intro s f hf _
  let line : LineOf (.echo (toString (1 : Int))) := ⟨"echo 1", by decide +kernel⟩
  have hactive : (base.push f).active = true := by rw [hbase.active_push, hf]
  have hline : countdownSource[2]?.map Text.trim = some line.text := by decide +kernel
  have hecho := runFrom_step_of_statement (s := s) line hline (hbase.push f).capturing
    (Session.runner 0)
  simp only [runStatement, Action.runFrom_get, hactive, if_true, onSession, Session.runSimple,
    Session.evaluateWith, Formula.evaluate_toString _ (by decide : Number.IsExact 1), pure_bind,
    Action.runFrom_zoom, Action.runFrom_bind, Session.runFrom_echo, Action.runFrom_pure] at hecho
  refine ⟨_, .single ⟨Nat.le_refl _, Nat.lt_succ_self _, 0, hecho⟩, ?_⟩
  split <;> rfl

/-- From 5 down to -2 the loop comes to 5, 2 and -1, and is left with -1. -/
theorem count_visits_progression_countdown :
    ∃ (f : Frame) (u v : Session) (starts : List Session),
      Rounds countdownSource (BlockStack.start.push (.branch 0 true)) f 3 u starts v ∧
        starts.length = 3 ∧
        (∀ (k : Nat) (t : Session), starts[k]? = some t →
          t.store.get "i" = .ok (.number (Number.ofInt (5 + k * -3)))) ∧
        v.store.get "i" = .ok (.number (Number.ofInt (-1))) ∧
        SameAnswers countdownSource ⟨{}, BlockStack.start.push (.branch 0 true), 1⟩
          ⟨v.atLine 4, BlockStack.start.push (.branch 0 true), 4⟩ := by
  have hbase := BlockStack.settled_start.push (.branch 0 true)
  obtain ⟨f, u, v, starts, -, -, hrounds, hlength, hvalues, hv, -, hanswers, -⟩ :=
    @count_visits_progression countdownSource _ 1 3 "i" 5 (-2) 3 {}
      ⟨'i', [], by decide +kernel, by simp, rfl⟩ (by decide +kernel) (by decide +kernel)
      (by decide) hbase rfl (by decide) (by decide) (by decide +kernel)
      (runsThrough_countdownSource hbase _)
  exact ⟨f, u, v, starts, hrounds, hlength, fun k t ht => (hvalues k t ht).1, hv, hanswers⟩

end Activation

end LineScript
