import LineScript.Proofs.Session.Matching

set_option relaxedAutoImplicit false
set_option autoImplicit false

/-!
# Silenced output

With output silenced, what a run would print is noted in the log instead. Nothing reads the output
or the log, so this is the only difference: a silent run and a loud one go the same way, with the
same result, and between them the log and the output of the one can be told from those of the other.

## Main definitions

* `LineScript.Session.silenced` — the session with its output silenced or not.
* `LineScript.Message.carriesOutput` — the messages that carry silenced output.
* `LineScript.Session.Redirected` — what a silent and a loud run from one session leave.

## Main results

* `LineScript.Session.matching_redirected` — both runs go on alike as long as they are changed
  alike.
* `LineScript.Session.silence_redirects_output` — silencing a run only redirects what it prints.
-/

namespace LineScript

/-- Whether a message carries silenced output. Messages of problems have a kind. -/
def Message.carriesOutput (m : Message) : Bool :=
  m.kind.isNone

namespace Session

/-- The session with its output silenced or not. -/
def silenced (s : Session) (silent : Bool) : Session :=
  { s with settings := { s.settings with silent := silent } }

/-- Sessions that a silent and a loud run from `s` have come to. They differ in where the output
since `s` went: the silent one has it in its log, among the messages that both have. -/
structure Redirected (s quiet loud : Session) : Prop where
  store : quiet.store = loud.store
  functions : quiet.functions = loud.functions
  scope : quiet.scope = loud.scope
  zone : quiet.zone = loud.zone
  line : quiet.line = loud.line
  loader : quiet.loader = loud.loader
  quietSettings : quiet.settings = { s.settings with silent := true }
  loudSettings : loud.settings = { s.settings with silent := false }
  quietOutput : quiet.output = s.output
  messages : ∃ added : List Message,
    quiet.log.toList = s.log.toList ++ added ∧
    (∀ m ∈ added, m.carriesOutput = true → m.level = .notice) ∧
    loud.output.toList = s.output.toList ++ (added.filter Message.carriesOutput).map Message.text ∧
    loud.log.toList = s.log.toList ++ added.filter fun m => !m.carriesOutput

variable {s quiet loud : Session}

/-- At the start there is no difference but the setting. -/
theorem redirected_silenced (s : Session) : Redirected s (s.silenced true) (s.silenced false) where
  store := rfl
  functions := rfl
  scope := rfl
  zone := rfl
  line := rfl
  loader := rfl
  quietSettings := rfl
  loudSettings := rfl
  quietOutput := rfl
  messages := ⟨[], by simp [silenced], by simp, by simp [silenced], by simp [silenced]⟩

/-- A problem is logged by both. -/
theorem Redirected.logged (h : Redirected s quiet loud) {m : Message}
    (hm : m.carriesOutput = false) :
    Redirected s (quiet.logged m) (loud.logged m) := by
  obtain ⟨added, hquiet, hnotices, houtput, hloud⟩ := h.messages
  refine { h with messages := ⟨added ++ [m], ?_, ?_, ?_, ?_⟩ }
  · simp [Session.logged, hquiet]
  · intro m' hm' hcarries
    rcases List.mem_append.1 hm' with hm' | hm'
    · exact hnotices m' hm' hcarries
    · rw [List.mem_singleton.1 hm', hm] at hcarries
      cases hcarries
  · simpa [Session.logged, hm] using houtput
  · simp [Session.logged, hloud, hm]

/-- A line of output is noted by the silent run and printed by the loud one. -/
theorem Redirected.printed (h : Redirected s quiet loud) (text : String) :
    Redirected s (quiet.logged (quiet.message .notice none text))
      { loud with output := loud.output.push text } := by
  obtain ⟨added, hquiet, hnotices, houtput, hloud⟩ := h.messages
  have hcarries : (quiet.message .notice none text).carriesOutput = true := rfl
  have htext : (quiet.message .notice none text).text = text := rfl
  refine { h with messages := ⟨added ++ [quiet.message .notice none text], ?_, ?_, ?_, ?_⟩ }
  · simp [Session.logged, hquiet]
  · intro m hm hm'
    rcases List.mem_append.1 hm with hm | hm
    · exact hnotices m hm hm'
    · rw [List.mem_singleton.1 hm]
      rfl
  · simp [houtput, hcarries, htext]
  · simp [hloud, hcarries]

/-- **A silent and a loud run go on alike.** Only printing tells them apart.

**Proof sketch.** All parts but the settings and the output agree. A line that is printed goes to
the log of the silent run and to the output of the loud one, which is what `Redirected` counts. -/
theorem matching_redirected (s : Session) : Matching (Redirected s) where
  store h := h.store
  functions h := h.functions
  scope h := h.scope
  zone h := h.zone
  line h := h.line
  loader h := h.loader
  throwErrors h := by rw [h.quietSettings, h.loudSettings]
  write h _ := { h with store := rfl }
  define h _ _ _ := { h with functions := rfl }
  enter h _ := { h with scope := rfl }
  move h _ _ := { h with zone := rfl, line := rfl }
  record level kind text := by
    intro quiet loud h o quiet' hrun
    cases hrun
    have hmessage : quiet.message level (some kind) text = loud.message level (some kind) text := by
      simp only [message, h.zone, h.line]
    refine ⟨loud.logged (loud.message level (some kind) text), by rw [hmessage]; rfl, ?_⟩
    rw [hmessage]
    exact h.logged rfl
  echo text := by
    intro quiet loud h o quiet' hrun
    have hsilent : quiet.settings.silent = true := by rw [h.quietSettings]
    have haloud : ¬loud.settings.silent = true := by simp [h.loudSettings]
    unfold echo at hrun ⊢
    rw [Action.runFrom_get_bind, if_pos hsilent] at hrun
    rw [Action.runFrom_get_bind, if_neg haloud]
    cases hrun
    exact ⟨_, rfl, h.printed text⟩

/-- **Silencing a run only redirects what it prints.** From sessions that differ in nothing but the
setting, a source has an answer silenced exactly if it has one aloud. The outcome, the variables,
the functions and the namespace are then the same. The silent run leaves the output as it was, and
its log has the lines that the loud run printed, in their order, as the messages without a kind, all
of them notices; the other messages are those of the loud run.

**Proof sketch.** Both runs read the same variables, functions and places, and the messages of their
problems are the same, so they take the same steps; where they print, the silent session gets a
message and the loud one a line of output (`matching_redirected`). By induction on the steps,
through calls, imports and evaluated code, whole runs stay related (`runner_follows`), in either
direction. -/
theorem silence_redirects_output (steps : Nat) (code : String) (s : Session) :
    (∀ o quiet, (execute steps code).runFrom (s.silenced true) = .ok (o, quiet) →
      ∃ loud, (execute steps code).runFrom (s.silenced false) = .ok (o, loud) ∧
        Redirected s quiet loud) ∧
    ∀ o loud, (execute steps code).runFrom (s.silenced false) = .ok (o, loud) →
      ∃ quiet, (execute steps code).runFrom (s.silenced true) = .ok (o, quiet) ∧
        Redirected s quiet loud := by
  have hstart := redirected_silenced s
  have hquiet := runner_follows (matching_redirected s) (Nat.le_refl steps) code none
  have hloud := runner_follows (matching_redirected s).flip (Nat.le_refl steps) code none
  exact ⟨hquiet _ _ hstart, hloud _ _ hstart⟩

/-- A source that prints from a function called in a loop, reads a missing entry, and ends with an
error. -/
def talkativeSource : String :=
  "function say $x\n  echo $x\nend\nset $c = [a: 'one', b: 'two']\n" ++
    "foreach $e in $c\n  say $e.value\nend\necho $c.none\nunknown"

/-- Silenced, it logs three notices without a kind besides a notice and an error. So aloud it fails
alike, prints three lines and logs the other two messages. -/
theorem silence_redirects_output_talkativeSource :
    ∃ o quiet loud, (execute 60 talkativeSource).runFrom (silenced {} true) = .ok (o, quiet) ∧
      (execute 60 talkativeSource).runFrom (silenced {} false) = .ok (o, loud) ∧
      quiet.output = #[] ∧ loud.output.toList = ["one", "two", ""] ∧
      loud.log.toList.map (fun m => (m.level, m.kind)) =
        [(.notice, some .naming), (.error, some .naming)] := by
  have hobserved : ((execute 60 talkativeSource).runFrom (silenced {} true)).toOption.map
      (fun r => ((r.2.log.toList.filter Message.carriesOutput).map Message.text,
        (r.2.log.toList.filter fun m => !m.carriesOutput).map fun m => (m.level, m.kind))) =
          some (["one", "two", ""], [(.notice, some .naming), (.error, some .naming)]) := by
    decide +kernel
  rcases hrun : (execute 60 talkativeSource).runFrom (silenced {} true) with reason | ⟨o, quiet⟩
  · rw [hrun] at hobserved
    cases hobserved
  · rw [hrun] at hobserved
    obtain ⟨hprinted, hothers⟩ := Prod.mk.inj (Option.some.inj hobserved)
    obtain ⟨loud, hloud, hredirected⟩ :=
      (silence_redirects_output 60 talkativeSource {}).1 o quiet hrun
    obtain ⟨added, hquiet, -, houtput, hlog⟩ := hredirected.messages
    obtain rfl : quiet.log.toList = added := hquiet
    refine ⟨o, quiet, loud, rfl, hloud, hredirected.quietOutput, houtput.trans hprinted, ?_⟩
    rw [hlog]
    exact hothers

end Session

end LineScript
