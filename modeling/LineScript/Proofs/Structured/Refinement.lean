import LineScript.Proofs.Structured.Headers

set_option relaxedAutoImplicit false
set_option autoImplicit false

/-!
# Line by line is as structured

A source whose lines are those of a structured program does, run line by line, what the program does
when it is run by recursion on its tree. Every node is put together from lines that are passed and
lines that perform something; for a loop, the frame that waits above the current depth carries its
progress from one pass to the next.

## Main results

* `LineScript.Program.performs`, `LineScript.Branches.performs` — a program at its place in a
  source, in an active block.
* `LineScript.Program.run_iff_result` — the run of a whole source.
-/

namespace LineScript

open LineScript.Action (Follows runFrom_bind_eq_ok)
open Activation (Passes)
open Session (runner reachLine onLine closing)

/-! ## Actions of the semantics with more steps -/

section Follows

variable {run run' : SourceRunner} (hrun : ∀ code zone, Follows Eq (run code zone) (run' code zone))

include hrun

/-- A condition has every answer that it had. -/
theorem Session.holds_follows (condition : String) :
    Follows Eq (holds run condition) (holds run' condition) :=
  .bind (evaluateWith_follows matching_eq.toAlike hrun condition) fun _ => .refl _

/-- A simple statement has every answer that it had. -/
theorem Session.perform_follows (st : Statement) : Follows Eq (perform run st) (perform run' st) :=
  .bind (runSimple_follows matching_eq.toAlike hrun st) fun _ => .refl _

/-- Binding the next value of a collection has every answer that it had. -/
theorem Session.bindEntry_follows (name src : String) (k : Nat) :
    Follows Eq (bindEntry run name src k) (bindEntry run' name src k) :=
  .bind (evaluateWith_follows matching_eq.toAlike hrun src) fun _ => .refl _

/-- Reading the parameters of a function has every answer that it had. -/
theorem Session.openFunction_follows (name : String) (params : Option String) :
    Follows Eq (openFunction run name params) (openFunction run' name params) :=
  .bind (.refl _) fun _ =>
    .bind (prepareCapture_follows matching_eq.toAlike hrun _ params) fun _ => .refl _

/-- The first round of a loop has every answer that it had, case by case over the headers. -/
theorem LoopHeader.first_follows (header : LoopHeader) :
    Follows Eq (header.first run) (header.first run') := by
  cases header with
  | condition src => exact .bind (Session.holds_follows hrun src) fun _ => .refl _
  | count name start stop step =>
    exact .bind (Session.openCount_follows Session.matching_eq.toAlike hrun name start stop step)
      fun _ => .refl _
  | each name src => exact Session.bindEntry_follows hrun name src 0

/-- A later round of a loop has every answer that it had, case by case over the headers. -/
theorem LoopHeader.again_follows (header : LoopHeader) (k : header.Progress) :
    Follows Eq (header.again run k) (header.again run' k) := by
  cases header with
  | condition src => exact .bind (Session.holds_follows hrun src) fun _ => .refl _
  | count name start stop step => exact .refl _
  | each name src => exact Session.bindEntry_follows hrun name src k

end Follows

section

variable {source : Array String} {b : BlockStack} (hb : b.Settled) {i : Nat} {body : Program}
  {close : LineOf .close} {more : List String}
  (h : Stands source i (body.lines ++ close.text :: more))

include hb h

/-! ## Bodies with their end -/

/-- The body of an inactive block and its end are passed. -/
theorem skip_block {f : Frame} (hf : f.active = false) (s : Session) :
    Passes source (body.size + 1) ⟨s, b.push f, i⟩
      ⟨s.atLine (i + body.size + 1), b, i + body.size + 1⟩ := by
  obtain ⟨l, hbody⟩ := body.skip (hb.push f) ((hb.active_push f).trans hf) h.left rfl s
  exact hbody.trans (Activation.passes_close close h.right.head hb (by simp [hf]))

/-- The body of a function that is not to be registered and its end are passed. -/
theorem skip_function {capture : Capture} (header : Nat) (hcapture : capture.register = false)
    (s : Session) :
    Passes source (body.size + 1) ⟨s, b.gathering header capture 0, i⟩
      ⟨s.atLine (i + body.size + 1), b, i + body.size + 1⟩ := by
  obtain ⟨l, hbody⟩ := Activation.gather hb header (body.nestAfter_lines 0) h.left capture
  exact hbody.trans (Activation.passes_gathered close h.right.head hb header _ hcapture)

/-- The body of a function is gathered, and its end defines it. -/
theorem performs_closeFunction (header : Nat) (capture : Capture) :
    Performs (goingOn source (b.gathering header { capture with lines := [] } 0) i)
      (fun _ => Session.closeFunction (i + body.size + 1) body.lines (some capture))
      fun _ => goingOn source b (i + body.size + 1) := by
  have hend := (stepsAs_gathered close h.right.head hb header
    { capture with lines := body.lines }).performs fun _ => .refl _
  have hgather (s : Session) : ∃ l, Passes source body.lines.length
      ⟨s, b.gathering header { capture with lines := [] } 0, i⟩
      ⟨s.atLine l, b.gathering header { capture with lines := body.lines } 0, i + body.size⟩ :=
    Activation.gather hb header (body.nestAfter_lines 0) h.left { capture with lines := [] }
  exact .of_passes hgather hend fun n s l => rfl

end

/-! ## Nodes -/

section

variable {source : Array String} {b : BlockStack} (hb : b.Settled) (hactive : b.active = true)
  {i : Nat} {body : Program}
  (hbody : ∀ f : Frame, f.active = true →
    Performs (goingOn source (b.push f) (i + 1)) (fun n => body.exec n (i + 1))
      (orElse (goingOn source (b.push f) (i + 1 + body.size)) returned))

include hb hbody

/-- A branch that is taken: its body, and the branches after it, which are passed. -/
theorem performs_taken {rest : Branches} {more : List String} {header last : Nat}
    (h : Stands source (i + 1 + body.size) (rest.lines ++ more))
    (hlast : last = i + 1 + body.size + rest.size) :
    Performs (goingOn source (b.push (.branch header true)) (i + 1))
      (fun n => closing last (body.exec n (i + 1))) (orElse (goingOn source b last) returned) := by
  have hrest := rest.skip hb (f := .branch header true) rfl (by simp [Frame.branch]) h.left hlast
  exact (hbody (.branch header true) rfl).closing (Activation.Passes.performs hrest)

include hactive

/-- **A loop.** -/
theorem performs_loop {header : LoopHeader} {line : LineOf header.statement} {close : LineOf .close}
    {more : List String} (h : Stands source i (line.text :: (body.lines ++ close.text :: more))) :
    Performs (goingOn source b i)
      (fun n => closing (i + 1 + body.size + 1) do
        let begun ← onLine (i + 1) none (header.first (runner n))
        match begun with
        | none => pure none
        | some k =>
          Session.passes
            (fun k => do
              reachLine (i + 1 + body.size + 1)
              onLine (i + 1) none (header.again (runner n) k))
            (body.exec n (i + 1)) n k)
      (orElse (goingOn source b (i + 1 + body.size + 1)) returned) := by
  have hskip (f : Frame) (hf : f.active = false) := skip_block hb h.tail hf
  -- all inactive frames are alike
  have hafter (f : Frame) (hf : f.active = false) : goingOn source (b.push f) (i + 1) =
      goingOn source (b.push { kind := .loop, header := i }) (i + 1) := by
    funext s n
    rw [goingOn, goingOn, hskip f hf s n, hskip _ rfl s n]
  have hfirst := (does_first hb hafter hactive header).performs line h.head hb.capturing
    fun hrun => header.first_follows hrun
  have hagain (k : header.Progress) := (does_again hb hafter hactive header k).performs line h.head
    hb.capturing fun hrun => header.again_follows hrun k
  have hend (k : header.Progress) (s : Session) (n : Nat) :
      goingOn source (b.push (header.frame i k)) (i + 1 + body.size) s n =
        Activation.delay 1 (goingOn source (b.returning (header.frame i k)) i
          (s.atLine (i + 1 + body.size + 1))) n :=
    Activation.passes_close_of_loop close h.tail.right.head hb (header.isLoop_frame i k) rfl n
  refine Performs.closing (hfirst.bind fun begun => ?_)
    (Activation.Passes.performs (hskip { kind := .loop, header := i } rfl))
  cases begun with
  | none =>
    change Performs (orElse _ returned none) (fun _ => pure none) _
    exact .pure
  | some k => exact .passes hend hagain (fun k => hbody (header.frame i k) rfl) k

omit hbody in
/-- **The definition of a function.** -/
theorem performs_function {name : String} {params : Option String}
    {line : LineOf (.function name params)} {close : LineOf .close} {more : List String}
    (h : Stands source i (line.text :: (body.lines ++ close.text :: more))) :
    Performs (goingOn source b i)
      (fun n => do
        let capture ← onLine (i + 1) none (Session.openFunction (runner n) name params)
        Session.closeFunction (i + 1 + body.size + 1) body.lines capture)
      fun _ => goingOn source b (i + 1 + body.size + 1) := by
  have hskip (c : Capture) (hc : c.register = false) := skip_function hb h.tail i hc
  have hafter (c : Capture) (hc : c.register = false) :
      goingOn source (b.gathering i c 0) (i + 1) = goingOn source (b.gathering i {} 0) (i + 1) := by
    funext s n
    rw [goingOn, goingOn, hskip c hc s n, hskip {} rfl s n]
  have hopen := (does_function hb hactive hafter name params).performs line h.head hb.capturing
    fun hrun => Session.openFunction_follows hrun name params
  refine hopen.bind fun capture => ?_
  cases capture with
  | none => exact Activation.Passes.performs (hskip {} rfl)
  | some capture => exact performs_closeFunction hb h.tail i capture

end

/-! ## Programs -/

section

variable {source : Array String}

/-- Branches start by reaching a line of their own. -/
theorem Branches.runFrom_exec_atLine (r : Branches) (n i : Nat) (s : Session) (l : Nat) :
    (r.exec n i).runFrom (s.atLine l) = (r.exec n i).runFrom s := by
  cases r <;> rfl

mutual

/-- **A program in an active block** is performed by the run of its lines.

**Proof sketch.** By recursion on the program. Each header is performed by its line, and what it
decides picks the part that comes next: a body in the block that is opened, or the branches after a
body that is skipped. The loop has its own induction (`performs_loop`). -/
theorem Program.performs : (p : Program) → ∀ {b : BlockStack}, b.Settled → b.active = true →
    ∀ {i j : Nat}, Stands source i p.lines → j = i + p.size →
    Performs (goingOn source b i) (fun n => p.exec n i) (orElse (goingOn source b j) returned)
  | .done, b, _, _, i, j, _, hj => by
    rw [hj]
    change Performs (orElse (goingOn source b i) returned none) (fun _ => pure none) _
    exact .pure
  | .idle line next, b, hb, hactive, i, j, h, hj => by
    rw [Program.size_idle] at hj
    have hline := Activation.Passes.performs fun s =>
      Activation.passes_idle (s := s) line h.head hb.capturing
    exact hline.bind fun _ => next.performs hb hactive h.tail (by omega)
  | .simple st line isSimple next, b, hb, hactive, i, j, h, hj => by
    rw [Program.size_simple] at hj
    have hline := (does_simple isSimple hactive).performs line h.head hb.capturing
      fun hrun => Session.perform_follows hrun st
    exact hline.thenRun (next.performs hb hactive h.tail (by omega))
  | .choice condition line body rest next, b, hb, hactive, i, j, h, hj => by
    rw [Program.size_choice] at hj
    have hline := (does_branch hb hactive condition).performs line h.head hb.capturing
      fun hrun => Session.holds_follows hrun condition
    have hnext := next.performs hb hactive h.tail.right.right
      (show j = i + 1 + body.size + rest.size + next.size by omega)
    refine Performs.thenRun (hline.bind fun v => ?_) hnext
    cases v with
    | true =>
      exact performs_taken hb
        (fun f hf => body.performs (hb.push f) ((hb.active_push f).trans hf) h.tail.left rfl)
        h.tail.right rfl
    | false =>
      have hskip := body.skip (hb.push (.branch i false)) (hb.active_push _) h.tail.left rfl
      exact .of_passes hskip (rest.performs hb hactive h.tail.right.left rfl)
        fun n s l => rest.runFrom_exec_atLine n _ s l
  | .loop header line body close next, b, hb, hactive, i, j, h, hj => by
    rw [Program.size_loop] at hj
    have hnext := next.performs hb hactive h.tail.right.tail
      (show j = i + 1 + body.size + 1 + next.size by omega)
    exact (performs_loop hb hactive
      (fun f hf => body.performs (hb.push f) ((hb.active_push f).trans hf) h.tail.left rfl)
      h).thenRun hnext
  | .function name params line body close next, b, hb, hactive, i, j, h, hj => by
    rw [Program.size_function] at hj
    have hnext := next.performs hb hactive (i := i + 1 + body.size + 1) (j := j) h.tail.right.tail
      (by omega)
    have hfunction := performs_function hb hactive h
    simpa only [Program.exec, bind_assoc] using hfunction.bind fun _ => hnext

/-- **Branches of which none has been taken** are performed by the run of their lines.

**Proof sketch.** By recursion on the branches. A condition that holds takes its body, and the
branches after it are passed (`performs_taken`); one that does not skips its body, and the next
branch is tried. -/
theorem Branches.performs : (r : Branches) → ∀ {b : BlockStack}, b.Settled → b.active = true →
    ∀ {header i j : Nat}, Stands source i r.lines → j = i + r.size →
    Performs (goingOn source (b.push (.branch header false)) i) (fun n => r.exec n i)
      (orElse (goingOn source b j) returned)
  | .close line, b, hb, _, header, i, j, h, hj => by
    rw [Branches.size_close] at hj
    have hline := Activation.Passes.performs fun s => Activation.passes_close (s := s)
      (f := .branch header false) line h.head hb rfl
    rw [hj]
    refine hline.bind fun _ => ?_
    change Performs (orElse (goingOn source b (i + 1)) returned none) (fun _ => pure none) _
    exact .pure
  | .otherwiseIf condition line body rest, b, hb, hactive, header, i, j, h, hj => by
    rw [Branches.size_otherwiseIf] at hj
    have hline := (does_otherwiseIf hb hactive header condition).performs line h.head
      (hb.push _).capturing fun hrun => Session.holds_follows hrun condition
    obtain rfl : j = i + 1 + body.size + rest.size := by omega
    refine hline.bind fun v => ?_
    cases v with
    | true =>
      have hrest : Stands source (i + 1 + body.size) (rest.lines ++ []) := by
        rw [List.append_nil]
        exact h.tail.right
      exact performs_taken hb
        (fun f hf => body.performs (hb.push f) ((hb.active_push f).trans hf) h.tail.left rfl)
        hrest rfl
    | false =>
      have hskip := body.skip (hb.push (.branch header false)) (hb.active_push _) h.tail.left rfl
      exact .of_passes hskip (rest.performs hb hactive h.tail.right rfl)
        fun n s l => rest.runFrom_exec_atLine n _ s l
  | .otherwise line body close, b, hb, hactive, header, i, j, h, hj => by
    rw [Branches.size_otherwise] at hj
    have hline := Activation.Passes.performs fun s => Activation.passes_otherwise (s := s)
      (f := .branch header false) line h.head hb rfl
    have hbody := body.performs (hb.push (.branch header true)) (hb.active_push _) h.tail.left rfl
    have hend := Activation.Passes.performs fun s => Activation.passes_close (s := s)
      (f := .branch header true) close h.tail.right.head hb rfl
    simp only [hactive] at hline
    obtain rfl : j = i + 1 + body.size + 1 := by omega
    exact hline.bind fun _ => hbody.closing hend

end

end

/-! ## Sources -/

/-- A run that has come to the end of its source, with all blocks ended, answers `true`. -/
theorem goingOn_of_size_le {source : Array String} {b : BlockStack} {i n : Nat} {s t : Session}
    {o : Except ScriptError Value} (hi : source.size ≤ i) (hdepth : b.depth = 0) :
    goingOn source b i s (n + 1) = .ok (o, t) ↔ o = .ok (.bool true) ∧ t = s := by
  have hstep (run : SourceRunner) : (Activation.step run source).runFrom ⟨s, b, i⟩ =
      .ok (.ok (some (.bool true)), ⟨s, b, i⟩) := by
    simp only [Activation.step, Action.runFrom_bind, Action.runFrom_get, Activation.finish,
      Array.getElem?_eq_none hi, hdepth, Nat.lt_irrefl, if_false, Action.runFrom_pure]
  rw [goingOn, Activation.run_succ_eq_ok]
  constructor
  · rintro ⟨r, a, hr, h⟩
    rw [hstep] at hr
    cases hr
    exact h
  · intro h
    exact ⟨_, _, hstep _, h⟩

/-- **Line by line is as structured.** A source whose lines, trimmed, are those of a structured
program has the answer that the program has by recursion on its tree, from every session: the same
result or error, and the same session with its variables, functions, namespace, output and messages.

**Proof sketch.** The run from the first line performs the program (`Program.performs`). If that
goes through without a result, the run is at the end of the source with no block open, so its next
step answers `true` (`goingOn_of_size_le`). -/
theorem Program.run_iff_result (p : Program) (code : String)
    (hlines : (Text.lines code).map Text.trim = p.lines) (s t : Session)
    (o : Except ScriptError Value) :
    (∃ steps, Activation.run steps (Text.lines code).toArray { session := s } = .ok (o, t)) ↔
      ∃ n, (p.result n).runFrom s = .ok (o, t) := by
  have hsize : (Text.lines code).toArray.size ≤ 0 + p.size := by
    simp [Program.size, ← hlines]
  have hp := p.performs BlockStack.settled_start rfl (Stands.of_map_trim hlines) rfl
  constructor
  · rintro ⟨n, hrun⟩
    rcases hp.sound hrun with ⟨e, he, rfl⟩ | ⟨result, u, m, -, hresult, hrest⟩
    · exact ⟨n, runFrom_bind_eq_ok.2 (.inl ⟨e, he, rfl⟩)⟩
    · refine ⟨n, runFrom_bind_eq_ok.2 (.inr ⟨result, u, hresult, ?_⟩)⟩
      cases result with
      | none =>
        cases m with
        | zero => cases hrest
        | succ m =>
          obtain ⟨rfl, rfl⟩ := (goingOn_of_size_le hsize rfl).1 hrest
          rfl
      | some v =>
        cases hrest
        rfl
  · rintro ⟨n, hresult⟩
    rcases runFrom_bind_eq_ok.1 hresult with ⟨e, he, rfl⟩ | ⟨result, u, hexec, hpure⟩
    · exact hp.fails he
    · cases hpure
      cases result with
      | none => exact hp.goesOn hexec ((goingOn_of_size_le (n := 0) hsize rfl).2 ⟨rfl, rfl⟩)
      | some v => exact hp.goesOn (m := 0) hexec rfl

/-- A function, and a loop with branches of which the first has a condition that fails. -/
def nestedProgram : Program :=
  .function "f" none ⟨"function f", by rfl⟩
    (.simple (.giveBack none) ⟨"return", by rfl⟩ rfl .done) ⟨"end", by rfl⟩ <|
  .loop (.each "c" "['a']") ⟨"foreach $c in ['a']", by rfl⟩
    (.idle ⟨"; every entry", by rfl⟩ <|
      .choice "$c.none" ⟨"if $c.none", by rfl⟩
        (.loop (.count "i" "1" "2" none) ⟨"for $i = 1 to 2", by rfl⟩ .done ⟨"end", by rfl⟩ .done)
        (.otherwise ⟨"else", by rfl⟩
          (.simple (.echo "$c.value") ⟨"echo $c.value", by rfl⟩ rfl .done) ⟨"end", by rfl⟩)
        .done)
    ⟨"end", by rfl⟩ .done

/-- A source with the lines of `nestedProgram`. -/
def nestedSource : String :=
  "\n".intercalate ["function f", "  return", "end", "foreach $c in ['a']", "  ; every entry",
    "  if $c.none", "    for $i = 1 to 2", "    end", "  else", "    echo $c.value", "  end", "end"]

/-- The failing condition is logged on its line and the `else` is taken. -/
theorem Program.run_iff_result_nestedProgram :
    (Text.lines nestedSource).map Text.trim = nestedProgram.lines ∧
      ∃ n o t, (nestedProgram.result n).runFrom {} = .ok (o, t) ∧
        o.isOk = true ∧ t.output = #["a"] ∧ t.log.map (·.line) = #[6] := by
  have hlines : (Text.lines nestedSource).map Text.trim = nestedProgram.lines := by
    decide +kernel
  have hobserved :
      (Activation.run 24 (Text.lines nestedSource).toArray { session := {} }).toOption.map
        (fun r => (r.1.isOk, r.2.output, r.2.log.map (·.line))) =
        some (true, #["a"], #[6]) := by
    decide +kernel
  rcases hrun : Activation.run 24 (Text.lines nestedSource).toArray { session := {} } with
    reason | ⟨o, t⟩
  · rw [hrun] at hobserved
    cases hobserved
  · rw [hrun] at hobserved
    obtain ⟨ho, hrest⟩ := Prod.mk.inj (Option.some.inj hobserved)
    obtain ⟨houtput, hlog⟩ := Prod.mk.inj hrest
    obtain ⟨n, hn⟩ := (run_iff_result nestedProgram nestedSource hlines {} t o).1 ⟨24, hrun⟩
    exact ⟨hlines, n, o, t, hn, ho, houtput, hlog⟩

end LineScript
