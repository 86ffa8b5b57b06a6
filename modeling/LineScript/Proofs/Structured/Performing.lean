import LineScript.Proofs.Session.Matching
import LineScript.Proofs.Structured.Passing

set_option relaxedAutoImplicit false
set_option autoImplicit false

/-!
# Runs that perform actions

The run of a source, from a point on, is a *course*: it has an answer or not, depending on the
session and the number of steps. A course performs an action on the session if it does what the
action does and then, unless this failed, goes on with the course that belongs to the answer. Both
directions are part of this: what the course answers comes from the action, and if the action has an
answer and the course after it too, so has the course as a whole, with enough steps.

## Main definitions

* `LineScript.Course` — how a run goes on.
* `LineScript.Performs` — a course performs an action.
* `LineScript.Does` — a statement does what an action on the session does.

## Main results

* `LineScript.Performs.bind`, `LineScript.Performs.thenRun`, `LineScript.Performs.passes` — actions
  one after another, programs one after another, and the passes of a loop.
* `LineScript.Activation.Passes.performs` — lines that are passed.
* `LineScript.Does.performs` — a line with a statement.
-/

namespace LineScript

open LineScript.Action (Follows runFrom_bind_eq_ok)
open Session (runner reachLine guarded onLine thenRun closing passes)

/-! ## Courses -/

/-- How a run goes on from a session, with a number of steps left. -/
abbrev Course : Type :=
  Session → Nat → Except Stop (Except ScriptError Value × Session)

/-- The run of a source from a line on, with the given blocks open. -/
def goingOn (source : Array String) (b : BlockStack) (i : Nat) : Course :=
  fun s n => Activation.run n source ⟨s, b, i⟩

/-- A run that has returned a value. -/
def returned (v : Value) : Course :=
  fun s _ => .ok (.ok v, s)

/-- One course if there is nothing, and another one for everything there can be. -/
def orElse {α : Type} (none : Course) (some : α → Course) : Option α → Course
  | .none => none
  | .some a => some a

/-- A course performs an action, for any number of steps, and goes on with the course of its
answer. -/
structure Performs {α : Type} (start : Course) (act : Nat → Action Session α) (rest : α → Course) :
    Prop where
  mono : ∀ {n m : Nat}, n ≤ m → Follows Eq (act n) (act m)
  sound : ∀ {n : Nat} {s t : Session} {o : Except ScriptError Value}, start s n = .ok (o, t) →
    (∃ e, (act n).runFrom s = .ok (.error e, t) ∧ o = .error e) ∨
      ∃ a u m, m ≤ n ∧ (act n).runFrom s = .ok (.ok a, u) ∧ rest a u m = .ok (o, t)
  fails : ∀ {n : Nat} {s t : Session} {e : ScriptError}, (act n).runFrom s = .ok (.error e, t) →
    ∃ m, start s m = .ok (.error e, t)
  goesOn : ∀ {n m : Nat} {s u : Session} {a : α} {r : Except ScriptError Value × Session},
    (act n).runFrom s = .ok (.ok a, u) → rest a u m = .ok r → ∃ m', start s m' = .ok r

/-- An answer stays with more steps. -/
theorem Performs.lift {α : Type} {start : Course} {act : Nat → Action Session α} {rest : α → Course}
    (h : Performs start act rest) {n m : Nat} (hle : n ≤ m) {s t : Session}
    {o : Except ScriptError α} (hact : (act n).runFrom s = .ok (o, t)) :
    (act m).runFrom s = .ok (o, t) :=
  (h.mono hle).runFrom_eq_ok hact

namespace Performs

variable {α β : Type}

/-- Nothing is done. -/
theorem pure {a : α} {rest : α → Course} : Performs (rest a) (fun _ => pure a) rest where
  mono _ := .refl _
  sound {n s t o} h := .inr ⟨a, s, n, Nat.le_refl n, rfl, h⟩
  fails h := by cases h
  goesOn h hrest := by
    cases h
    exact ⟨_, hrest⟩

/-- One action after another. -/
theorem bind {start : Course} {act : Nat → Action Session α} {mid : α → Course}
    {next : α → Nat → Action Session β} {rest : β → Course} (h : Performs start act mid)
    (hnext : ∀ a, Performs (mid a) (next a) rest) :
    Performs start (fun n => act n >>= fun a => next a n) rest where
  mono hle := .bind (h.mono hle) fun a => (hnext a).mono hle
  sound hrun := by
    rcases h.sound hrun with ⟨e, he, rfl⟩ | ⟨a, u, m, hm, ha, hmid⟩
    · exact .inl ⟨e, runFrom_bind_eq_ok.2 (.inl ⟨e, he, rfl⟩), rfl⟩
    · rcases (hnext a).sound hmid with ⟨e, he, rfl⟩ | ⟨b, v, k, hk, hb, hrest⟩
      · have he := (hnext a).lift hm he
        exact .inl ⟨e, runFrom_bind_eq_ok.2 (.inr ⟨a, u, ha, he⟩), rfl⟩
      · have hb := (hnext a).lift hm hb
        exact .inr ⟨b, v, k, Nat.le_trans hk hm, runFrom_bind_eq_ok.2 (.inr ⟨a, u, ha, hb⟩), hrest⟩
  fails hact := by
    rcases runFrom_bind_eq_ok.1 hact with ⟨e, he, heq⟩ | ⟨a, u, ha, he⟩
    · cases heq
      exact h.fails he
    · obtain ⟨m, hm⟩ := (hnext a).fails he
      exact h.goesOn ha hm
  goesOn hact hrest := by
    rcases runFrom_bind_eq_ok.1 hact with ⟨e, he, heq⟩ | ⟨a, u, ha, hb⟩
    · cases heq
    · obtain ⟨m, hm⟩ := (hnext a).goesOn hb hrest
      exact h.goesOn ha hm

/-- One program after another. -/
theorem thenRun {start mid after : Course} {first second : Nat → Action Session (Option Value)}
    (h : Performs start first (orElse mid returned))
    (hsecond : Performs mid second (orElse after returned)) :
    Performs start (fun n => Session.thenRun (first n) (second n)) (orElse after returned) := by
  unfold Session.thenRun
  refine h.bind fun result => ?_
  cases result with
  | none => exact hsecond
  | some v =>
    change Performs (orElse after returned (some v)) (fun _ => Pure.pure (some v)) _
    exact pure

/-- A block up to its end. -/
theorem closing {start mid after : Course} {block : Nat → Action Session (Option Value)}
    {line : Nat} (h : Performs start block (orElse mid returned))
    (hend : Performs mid (fun _ => reachLine line) fun _ => after) :
    Performs start (fun n => Session.closing line (block n)) (orElse after returned) := by
  refine h.thenRun (hend.bind fun _ => ?_)
  change Performs (orElse after returned none) (fun _ => Pure.pure none) _
  exact pure

end Performs

/-! ## Loops -/

namespace Session

/-- What it takes for one program after another to have an answer. -/
theorem runFrom_thenRun_eq_ok {first second : Action Session (Option Value)} {s u : Session}
    {o : Except ScriptError (Option Value)} :
    (thenRun first second).runFrom s = .ok (o, u) ↔
      (∃ e, first.runFrom s = .ok (.error e, u) ∧ o = .error e) ∨
        (∃ v, first.runFrom s = .ok (.ok (some v), u) ∧ o = .ok (some v)) ∨
          ∃ t, first.runFrom s = .ok (.ok none, t) ∧ second.runFrom t = .ok (o, u) := by
  unfold thenRun
  rw [runFrom_bind_eq_ok]
  refine or_congr Iff.rfl ?_
  constructor
  · rintro ⟨_ | v, t, hfirst, hsecond⟩
    · exact .inr ⟨t, hfirst, hsecond⟩
    · cases hsecond
      exact .inl ⟨v, hfirst, rfl⟩
  · rintro (⟨v, hfirst, rfl⟩ | ⟨t, hfirst, hsecond⟩)
    · exact ⟨some v, u, hfirst, rfl⟩
    · exact ⟨none, t, hfirst, hsecond⟩

/-- What it takes for a pass and those after it to have an answer. -/
theorem runFrom_passes_succ_eq_ok {κ : Type} {again : κ → Action Session (Option κ)}
    {body : Action Session (Option Value)} {n : Nat} {k : κ} {s u : Session}
    {o : Except ScriptError (Option Value)} :
    (passes again body (n + 1) k).runFrom s = .ok (o, u) ↔
      (∃ e, body.runFrom s = .ok (.error e, u) ∧ o = .error e) ∨
        (∃ v, body.runFrom s = .ok (.ok (some v), u) ∧ o = .ok (some v)) ∨
          ∃ t, body.runFrom s = .ok (.ok none, t) ∧
            ((∃ e, (again k).runFrom t = .ok (.error e, u) ∧ o = .error e) ∨
              ((again k).runFrom t = .ok (.ok none, u) ∧ o = .ok none) ∨
                ∃ k' t', (again k).runFrom t = .ok (.ok (some k'), t') ∧
                  (passes again body n k').runFrom t' = .ok (o, u)) := by
  rw [passes, runFrom_thenRun_eq_ok]
  refine or_congr Iff.rfl (or_congr Iff.rfl (exists_congr fun t => and_congr Iff.rfl ?_))
  rw [runFrom_bind_eq_ok]
  refine or_congr Iff.rfl ?_
  constructor
  · rintro ⟨_ | k', t', hagain, hpasses⟩
    · cases hpasses
      exact .inl ⟨hagain, rfl⟩
    · exact .inr ⟨k', t', hagain, hpasses⟩
  · rintro (⟨hagain, rfl⟩ | ⟨k', t', hagain, hpasses⟩)
    · exact ⟨none, u, hagain, rfl⟩
    · exact ⟨some k', t', hagain, hpasses⟩

/-- More passes, and actions that match, do not change an answer. -/
theorem passes_follows {κ : Type} {again again' : κ → Action Session (Option κ)}
    {body body' : Action Session (Option Value)} (hagain : ∀ k, Follows Eq (again k) (again' k))
    (hbody : Follows Eq body body') {n m : Nat} (hle : n ≤ m) (k : κ) :
    Follows Eq (passes again body n k) (passes again' body' m k) := by
  induction n generalizing m k with
  | zero => exact .stop _ _
  | succ n ih =>
    obtain ⟨m, rfl⟩ : ∃ m', m = m' + 1 := ⟨m - 1, by omega⟩
    refine .bind hbody fun result => ?_
    cases result with
    | some v => exact .refl _
    | none =>
      refine .bind (hagain k) fun more => ?_
      cases more with
      | none => exact .refl _
      | some k' => exact ih (Nat.le_of_succ_le_succ hle) k'

end Session

/-! The end of a block with a loop leads back to the header in one step, and the header to the next
pass or out of the loop. -/

section Passes

variable {κ : Type} {source : Array String} {blocks : κ → BlockStack} {i line : Nat}
  {atEnd back : κ → Course} {after : Course} {again : Nat → κ → Action Session (Option κ)}
  {body : Nat → Action Session (Option Value)}

/-- A loop comes round: the end of its block, then its header. -/
def comeRound (line : Nat) (again : Nat → κ → Action Session (Option κ)) (n : Nat) (k : κ) :
    Action Session (Option κ) := do
  reachLine line
  again n k

/-- Coming round starts at the line of the header. -/
theorem runFrom_comeRound (n : Nat) (k : κ) (s : Session) :
    (comeRound line again n k).runFrom s = (again n k).runFrom (s.atLine line) := by
  rw [comeRound, reachLine, Action.runFrom_modify_bind]

section

variable (hend : ∀ k s n, atEnd k s n = Activation.delay 1 (back k (s.atLine line)) n)
  (hagain : ∀ k, Performs (back k) (fun n => again n k)
    (orElse after fun k => goingOn source (blocks k) i))

include hend hagain

/-- A run that comes round has fewer steps afterwards. -/
theorem comeRound_sound {k : κ} {n n' : Nat} (hle : n ≤ n') {s t : Session}
    {o : Except ScriptError Value} (hrun : atEnd k s n = .ok (o, t)) :
    (∃ e, (comeRound line again n' k).runFrom s = .ok (.error e, t) ∧ o = .error e) ∨
      ∃ more u m, m < n ∧ (comeRound line again n' k).runFrom s = .ok (.ok more, u) ∧
        orElse after (fun k => goingOn source (blocks k) i) more u m = .ok (o, t) := by
  rw [hend, Activation.delay_eq_ok] at hrun
  obtain ⟨p, rfl, hback⟩ := hrun
  have hp : p ≤ n' := Nat.le_of_succ_le hle
  simp only [runFrom_comeRound]
  rcases (hagain k).sound hback with ⟨e, he, rfl⟩ | ⟨more, u, m, hm, hmore, hrest⟩
  · exact .inl ⟨e, (hagain k).lift hp he, rfl⟩
  · exact .inr ⟨more, u, m, by omega, (hagain k).lift hp hmore, hrest⟩

/-- A run that comes round fails with the header. -/
theorem comeRound_fails {k : κ} {n : Nat} {s t : Session} {e : ScriptError}
    (he : (comeRound line again n k).runFrom s = .ok (.error e, t)) :
    ∃ m, atEnd k s m = .ok (.error e, t) := by
  rw [runFrom_comeRound] at he
  obtain ⟨m, hm⟩ := (hagain k).fails he
  refine ⟨m + 1, ?_⟩
  rw [hend, Activation.delay_eq_ok]
  exact ⟨m, rfl, hm⟩

/-- A run that comes round goes on after the header. -/
theorem comeRound_goesOn {k : κ} {n m : Nat} {s u : Session} {more : Option κ}
    {r : Except ScriptError Value × Session}
    (hmore : (comeRound line again n k).runFrom s = .ok (.ok more, u))
    (hrest : orElse after (fun k => goingOn source (blocks k) i) more u m = .ok r) :
    ∃ m', atEnd k s m' = .ok r := by
  rw [runFrom_comeRound] at hmore
  obtain ⟨m', hm'⟩ := (hagain k).goesOn hmore hrest
  refine ⟨m' + 1, ?_⟩
  rw [hend, Activation.delay_eq_ok]
  exact ⟨m', rfl, hm'⟩

variable (hbody : ∀ k, Performs (goingOn source (blocks k) i) body (orElse (atEnd k) returned))

include hbody

omit hend in
/-- With more steps and more rounds, the rounds of a loop have every answer that they had. -/
theorem passes_mono {n m p q : Nat} (hle : n ≤ m) (hpq : p ≤ q) (k : κ) :
    Follows Eq (passes (comeRound line again n) (body n) p k)
      (passes (comeRound line again m) (body m) q k) :=
  Session.passes_follows (fun k => .bind (.refl _) fun _ => (hagain k).mono hle)
    ((hbody k).mono hle) hpq k

/-- If the run of a loop has an answer, it comes from the passes. The induction is on the steps: the
body takes some of them, coming round one more, and the next pass has fewer. -/
theorem passes_sound (n : Nat) {k : κ} {s t : Session} {o : Except ScriptError Value}
    (hrun : goingOn source (blocks k) i s n = .ok (o, t)) :
    (∃ e, (passes (comeRound line again n) (body n) n k).runFrom s = .ok (.error e, t) ∧
      o = .error e) ∨
      ∃ x u m, m ≤ n ∧ (passes (comeRound line again n) (body n) n k).runFrom s = .ok (.ok x, u) ∧
        orElse after returned x u m = .ok (o, t) := by
  induction n using Nat.strongRecOn generalizing k s with
  | ind n ih =>
    obtain ⟨n, rfl⟩ : ∃ n', n = n' + 1 := by
      cases n with
      | zero => cases hrun
      | succ n => exact ⟨n, rfl⟩
    simp only [Session.runFrom_passes_succ_eq_ok]
    rcases (hbody k).sound hrun with ⟨e, he, rfl⟩ | ⟨_ | v, u, m, hm, hresult, hrest⟩
    · exact .inl ⟨e, .inl ⟨e, he, rfl⟩, rfl⟩
    · rcases comeRound_sound hend hagain hm hrest with
        ⟨e, he, rfl⟩ | ⟨_ | k', u', m', hm', hmore, hrest⟩
      · exact .inl ⟨e, .inr (.inr ⟨u, hresult, .inl ⟨e, he, rfl⟩⟩), rfl⟩
      · exact .inr ⟨none, u', m', by omega,
          .inr (.inr ⟨u, hresult, .inr (.inl ⟨hmore, rfl⟩)⟩), hrest⟩
      · have hlift : Follows Eq (passes (comeRound line again m') (body m') m' k')
            (passes (comeRound line again (n + 1)) (body (n + 1)) n k') :=
          passes_mono hagain hbody (by omega) (by omega) k'
        rcases ih m' (by omega) hrest with ⟨e, he, rfl⟩ | ⟨x, w, m'', hm'', hx, hrest⟩
        · have he := hlift.runFrom_eq_ok he
          exact .inl ⟨e, .inr (.inr ⟨u, hresult, .inr (.inr ⟨k', u', hmore, he⟩)⟩), rfl⟩
        · have hx := hlift.runFrom_eq_ok hx
          exact .inr ⟨x, w, m'', by omega,
            .inr (.inr ⟨u, hresult, .inr (.inr ⟨k', u', hmore, hx⟩)⟩), hrest⟩
    · exact .inr ⟨some v, u, m, hm, .inr (.inl ⟨v, hresult, rfl⟩), hrest⟩

/-- If the passes of a loop have an answer, so has its run. The induction is on the passes. -/
theorem passes_complete {n p : Nat} {k : κ} {s u : Session} {o : Except ScriptError (Option Value)}
    (hpasses : (passes (comeRound line again n) (body n) p k).runFrom s = .ok (o, u))
    {r : Except ScriptError Value × Session} (herror : ∀ e, o = .error e → r = (.error e, u))
    (hok : ∀ x, o = .ok x → ∃ m, orElse after returned x u m = .ok r) :
    ∃ m, goingOn source (blocks k) i s m = .ok r := by
  induction p generalizing k s with
  | zero => cases hpasses
  | succ p ih =>
    rcases Session.runFrom_passes_succ_eq_ok.1 hpasses with
      ⟨e, he, rfl⟩ | ⟨v, hv, rfl⟩ | ⟨t, ht, hmore⟩
    · rw [herror e rfl]
      exact (hbody k).fails he
    · obtain ⟨m, hm⟩ := hok _ rfl
      exact (hbody k).goesOn hv hm
    · have hround : ∃ m, atEnd k t m = .ok r := by
        rcases hmore with ⟨e, he, rfl⟩ | ⟨hnone, rfl⟩ | ⟨k', t', hsome, hpasses⟩
        · rw [herror e rfl]
          exact comeRound_fails hend hagain he
        · obtain ⟨m, hm⟩ := hok _ rfl
          exact comeRound_goesOn hend hagain hnone hm
        · obtain ⟨m, hm⟩ := ih hpasses
          exact comeRound_goesOn hend hagain hsome hm
      obtain ⟨m, hm⟩ := hround
      exact (hbody k).goesOn ht hm

/-- **The passes of a loop**, from inside its block. -/
theorem Performs.passes (k : κ) :
    Performs (goingOn source (blocks k) i)
      (fun n => Session.passes (comeRound line again n) (body n) n k) (orElse after returned) where
  mono hle := passes_mono hagain hbody hle hle k
  sound hrun := passes_sound hend hagain hbody _ hrun
  fails hpasses := by
    refine passes_complete hend hagain hbody hpasses (fun e he => ?_) fun x hx => ?_
    · cases he
      rfl
    · cases hx
  goesOn {n m s u x r} hpasses hrest := by
    refine passes_complete hend hagain hbody hpasses (fun e he => ?_) fun x hx => ?_
    · cases he
    · cases hx
      exact ⟨m, hrest⟩

end

end Passes

/-- Lines that are passed perform nothing but reaching the last of them. -/
theorem Activation.Passes.performs {source : Array String} {b b' : BlockStack} {i j k line : Nat}
    (h : ∀ s : Session, Passes source k ⟨s, b, i⟩ ⟨s.atLine line, b', j⟩) :
    Performs (goingOn source b i) (fun _ => reachLine line) fun _ => goingOn source b' j where
  mono _ := .refl _
  sound {n s t o} hrun := by
    obtain ⟨m, rfl, hm⟩ := (h s).run_eq_ok.1 hrun
    exact .inr ⟨(), s.atLine line, m, Nat.le_add_right m k, rfl, hm⟩
  fails hact := by cases hact
  goesOn {n m s u a r} hact hrest := by
    cases hact
    exact ⟨m + k, (h s).run_eq_ok.2 ⟨m, rfl, hrest⟩⟩

/-- Lines that are passed may come before an action that starts by reaching a line of its own. -/
theorem Performs.of_passes {α : Type} {source : Array String} {b b' : BlockStack} {i j k : Nat}
    {act : Nat → Action Session α} {rest : α → Course}
    (hpasses : ∀ s : Session, ∃ l, Activation.Passes source k ⟨s, b, i⟩ ⟨s.atLine l, b', j⟩)
    (h : Performs (goingOn source b' j) act rest)
    (hact : ∀ n (s : Session) l, (act n).runFrom (s.atLine l) = (act n).runFrom s) :
    Performs (goingOn source b i) act rest where
  mono := h.mono
  sound {n s t o} hrun := by
    obtain ⟨l, hl⟩ := hpasses s
    obtain ⟨p, rfl, hp⟩ := hl.run_eq_ok.1 hrun
    have hle : p ≤ p + k := Nat.le_add_right p k
    rcases h.sound hp with ⟨e, he, rfl⟩ | ⟨a, u, m, hm, ha, hrest⟩
    · rw [hact] at he
      exact .inl ⟨e, h.lift hle he, rfl⟩
    · rw [hact] at ha
      exact .inr ⟨a, u, m, Nat.le_trans hm hle, h.lift hle ha, hrest⟩
  fails {n s t e} he := by
    obtain ⟨l, hl⟩ := hpasses s
    rw [← hact n s l] at he
    obtain ⟨m, hm⟩ := h.fails he
    exact ⟨m + k, hl.run_eq_ok.2 ⟨m, rfl, hm⟩⟩
  goesOn {n m s u a r} ha hrest := by
    obtain ⟨l, hl⟩ := hpasses s
    rw [← hact n s l] at ha
    obtain ⟨m', hm'⟩ := h.goesOn ha hrest
    exact ⟨m' + k, hl.run_eq_ok.2 ⟨m', rfl, hm'⟩⟩

/-! ## Lines with statements -/

namespace Session

/-- An action whose failure is logged. -/
theorem runFrom_guarded {α : Type} (fallback : α) (act : Action Session α) (s : Session) :
    (guarded fallback act).runFrom s =
      match act.runFrom s with
      | .error reason => .error reason
      | .ok (.ok a, t) => .ok (.ok a, t)
      | .ok (.error e, t) =>
        match (recover e).runFrom t with
        | .error reason => .error reason
        | .ok (.error e, u) => .ok (.error e, u)
        | .ok (.ok (), u) => .ok (.ok fallback, u) := by
  rw [guarded, Action.runFrom_bind, Action.runFrom_attempt]
  rcases act.runFrom s with reason | ⟨e | a, t⟩
  · rfl
  · simp only [Action.runFrom_bind]
    rcases (recover e).runFrom t with reason | ⟨e' | _, u⟩ <;> rfl
  · rfl

/-- Matching actions match on a line. -/
theorem onLine_follows {α : Type} {act act' : Action Session α} {line : Nat} {fallback : α}
    (h : Follows Eq act act') :
    Follows Eq (onLine line fallback act) (onLine line fallback act') := by
  refine .bind (.refl _) fun _ => .bind (.attempt h) fun outcome => ?_
  rcases outcome with e | a
  · exact .bind (.refl _) fun _ => .refl _
  · exact .refl _

end Session

/-- A step from the line `i`, with the blocks `b`, does what an action on the session does, and goes
on with the course of its answer. -/
def StepsAs {α : Type} (source : Array String) (b : BlockStack) (i : Nat)
    (act : SourceRunner → Action Session α) (rest : α → Course) : Prop :=
  ∀ (run : SourceRunner) (s : Session),
    match (act run).runFrom s with
    | .error reason => (Activation.step run source).runFrom ⟨s, b, i⟩ = .error reason
    | .ok (.error e, t) => ∃ b' j,
      (Activation.step run source).runFrom ⟨s, b, i⟩ = .ok (.error e, ⟨t, b', j⟩)
    | .ok (.ok a, t) => ∃ result b' j,
      (Activation.step run source).runFrom ⟨s, b, i⟩ = .ok (.ok result, ⟨t, b', j⟩) ∧
        orElse (goingOn source b' j) returned result = rest a

namespace StepsAs

variable {α : Type} {source : Array String} {b : BlockStack} {i : Nat}
  {act : SourceRunner → Action Session α} {rest : α → Course} (h : StepsAs source b i act rest)

include h

/-- What it takes for a run that starts with this step to have an answer.

**Proof sketch.** By the outcome of `act`: if it stops, both sides are false; if it fails or goes
on, `h` says what the step of the lines does, which is unique, and both sides are read off it. -/
theorem goingOn_succ_eq_ok {n : Nat} {s t : Session} {o : Except ScriptError Value} :
    goingOn source b i s (n + 1) = .ok (o, t) ↔
      (∃ e, (act (runner n)).runFrom s = .ok (.error e, t) ∧ o = .error e) ∨
        ∃ a u, (act (runner n)).runFrom s = .ok (.ok a, u) ∧ rest a u n = .ok (o, t) := by
  rw [goingOn, Activation.run_succ_eq_ok]
  have hsteps := h (runner n) s
  revert hsteps
  rcases (act (runner n)).runFrom s with reason | ⟨e | a, u⟩
  · intro hstep
    simp [hstep]
  · rintro ⟨b', j, hstep⟩
    constructor
    · rintro ⟨r, c, hr, hend⟩
      rw [hstep] at hr
      cases hr
      obtain ⟨rfl, rfl⟩ := hend
      exact .inl ⟨e, rfl, rfl⟩
    · rintro (⟨e', he', rfl⟩ | ⟨a, v, ha, -⟩)
      · cases he'
        exact ⟨_, _, hstep, rfl, rfl⟩
      · cases ha
  · rintro ⟨result, b', j, hstep, hrest⟩
    constructor
    · rintro ⟨r, c, hr, hend⟩
      rw [hstep] at hr
      cases hr
      refine .inr ⟨a, u, rfl, ?_⟩
      rw [← hrest]
      cases result with
      | none => exact hend
      | some v => rw [hend.1, hend.2, orElse, returned]
    · rintro (⟨e, he, -⟩ | ⟨a', u', ha', hend⟩)
      · cases he
      · cases ha'
        refine ⟨_, _, hstep, ?_⟩
        rw [← hrest] at hend
        cases result with
        | none => exact hend
        | some v =>
          cases hend
          exact ⟨rfl, rfl⟩

/-- The course after the step keeps its answers with more steps. -/
theorem rest_mono {run : SourceRunner} {s u : Session} {a : α}
    (hact : (act run).runFrom s = .ok (.ok a, u)) {n m : Nat} (hle : n ≤ m)
    {r : Except ScriptError Value × Session} (hr : rest a u n = .ok r) : rest a u m = .ok r := by
  have hsteps := h run s
  rw [hact] at hsteps
  obtain ⟨result, b', j, -, hrest⟩ := hsteps
  rw [← hrest] at hr ⊢
  cases result with
  | none => exact Activation.run_mono hle hr
  | some v => exact hr

/-- **One step** performs what it does. -/
theorem performs
    (hact : ∀ {run run' : SourceRunner},
      (∀ code zone, Follows Eq (run code zone) (run' code zone)) →
      Follows Eq (act run) (act run')) :
    Performs (goingOn source b i) (fun n => act (runner n)) rest := by
  have hmono {n m : Nat} (hle : n ≤ m) : Follows Eq (act (runner n)) (act (runner m)) :=
    hact (Session.runner_follows Session.matching_eq hle)
  refine ⟨hmono, ?_, ?_, ?_⟩
  · intro n s t o hrun
    cases n with
    | zero => cases hrun
    | succ n =>
      have hlift := hmono (Nat.le_succ n)
      rcases h.goingOn_succ_eq_ok.1 hrun with ⟨e, he, rfl⟩ | ⟨a, u, ha, hrest⟩
      · exact .inl ⟨e, hlift.runFrom_eq_ok he, rfl⟩
      · exact .inr ⟨a, u, n, Nat.le_succ n, hlift.runFrom_eq_ok ha, hrest⟩
  · intro n s t e he
    exact ⟨n + 1, h.goingOn_succ_eq_ok.2 (.inl ⟨e, he, rfl⟩)⟩
  · rintro n m s u a ⟨o, t⟩ ha hrest
    -- enough steps for what the line does as well as for the course after it
    have ha := (hmono (Nat.le_max_left n m)).runFrom_eq_ok ha
    have hrest := h.rest_mono ha (Nat.le_max_right n m) hrest
    exact ⟨max n m + 1, h.goingOn_succ_eq_ok.2 (.inr ⟨a, u, ha, hrest⟩)⟩

end StepsAs

/-- Where a run goes on after a statement. -/
def Flow.course (source : Array String) (b : BlockStack) (i : Nat) : Flow → Course
  | .next => goingOn source b i
  | .jump header => goingOn source b header
  | .finish v => returned v

/-- The statement `st` on the line `i`, with the blocks `b`, does what an action on the session
does. It leaves blocks with which the run takes the course of the answer, and that of `fallback` if
the action fails. -/
def Does {α : Type} (source : Array String) (b : BlockStack) (i : Nat) (st : Statement)
    (act : SourceRunner → Action Session α) (fallback : α) (rest : α → Course) : Prop :=
  ∀ (run : SourceRunner) (s : Session),
    match (act run).runFrom s with
    | .error reason => (Activation.runStatement run i st).runFrom ⟨s, b, i + 1⟩ = .error reason
    | .ok (.error e, t) => ∃ b',
      (Activation.runStatement run i st).runFrom ⟨s, b, i + 1⟩ = .ok (.error e, ⟨t, b', i + 1⟩) ∧
        goingOn source b' (i + 1) = rest fallback
    | .ok (.ok a, t) => ∃ b' flow,
      (Activation.runStatement run i st).runFrom ⟨s, b, i + 1⟩ = .ok (.ok flow, ⟨t, b', i + 1⟩) ∧
        flow.course source b' (i + 1) = rest a

namespace Does

variable {α : Type} {source : Array String} {b : BlockStack} {i : Nat} {st : Statement}
  {act : SourceRunner → Action Session α} {fallback : α} {rest : α → Course}

/-- A step at a line whose statement does what an action does. -/
theorem stepsAs (h : Does source b i st act fallback rest) (line : LineOf st)
    (hline : source[i]?.map Text.trim = some line.text) (hb : b.capturing = none) :
    StepsAs source b i (fun run => onLine (i + 1) fallback (act run)) rest := by
  intro run s
  have hreach : (onLine (i + 1) fallback (act run)).runFrom s =
      (guarded fallback (act run)).runFrom (s.atLine (i + 1)) := rfl
  rw [hreach, Session.runFrom_guarded, Activation.runFrom_step_of_statement line hline hb]
  have hdoes := h run (s.atLine (i + 1))
  rcases hact : (act run).runFrom (s.atLine (i + 1)) with reason | ⟨e | a, t⟩
  · rw [hact] at hdoes
    simp only at hdoes
    simp only [hdoes]
  · rw [hact] at hdoes
    obtain ⟨b', hrun, hrest⟩ := hdoes
    simp only [hrun, Action.runFrom_bind, Activation.onSession, Action.runFrom_zoom]
    rcases (Session.recover e).runFrom t with reason | ⟨e' | _, u⟩
    · rfl
    · exact ⟨b', i + 1, rfl⟩
    · exact ⟨none, b', i + 1, rfl, hrest⟩
  · rw [hact] at hdoes
    obtain ⟨b', flow, hrun, hrest⟩ := hdoes
    simp only [hrun]
    cases flow with
    | next => exact ⟨none, b', i + 1, rfl, hrest⟩
    | jump header => exact ⟨none, b', header, rfl, hrest⟩
    | finish v => exact ⟨some v, b', i + 1, rfl, hrest⟩

/-- **A line with a statement** performs what the statement does. -/
theorem performs (h : Does source b i st act fallback rest) (line : LineOf st)
    (hline : source[i]?.map Text.trim = some line.text) (hb : b.capturing = none)
    (hact : ∀ {run run' : SourceRunner},
      (∀ code zone, Follows Eq (run code zone) (run' code zone)) →
      Follows Eq (act run) (act run')) :
    Performs (goingOn source b i) (fun n => onLine (i + 1) fallback (act (runner n))) rest :=
  (h.stepsAs line hline hb).performs fun hrun => Session.onLine_follows (hact hrun)

end Does

end LineScript
