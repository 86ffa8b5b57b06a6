import LineScript.Proofs.Action
import LineScript.Proofs.Formula.Lexemes
import LineScript.Formula.Evaluation

set_option relaxedAutoImplicit false
set_option autoImplicit false

/-!
# Accepted formulas are well formed

The tokens of an accepted formula are a well-formed reverse Polish listing: taken by arity alone,
every operator finds its operands and exactly one value is left. The operands stand in the order of
the text. An evaluation of such tokens therefore never misses an operand, whatever the host does.

The pass keeps one number in balance. Every waiting binary operator has left one value more than it
will, so the height of the output is the number of waiting operators, and one more where an operand
has just been completed.

## Main definitions

* `LineScript.Formula.heightAfter` — the height of the stack after tokens, taken by arity.
* `LineScript.Formula.WellFormed` — no operand is missing and one value is left.
* `LineScript.Shunt.Emits` — waiting entries put out one after another.
* `LineScript.Shunt.Consistent` — the invariant of the pass.

## Main results

* `LineScript.Shunt.Consistent.feed`, `LineScript.Shunt.Consistent.foldlM_feed` — the invariant is
  kept by a lexeme, and by a whole text.
* `LineScript.Formula.heightAfter_of_foldlM_stepToken` — the stack of an evaluation has the height
  that the arities tell.
* `LineScript.Formula.wellFormed_of_tokens` — accepted formulas are well formed, and evaluating them
  misses no operand.
-/

namespace LineScript

open Token (isOperand)

/-! ## Heights of stacks -/

namespace Formula

/-- The height of the stack after one more token; none if an operand is missing. -/
def heightStep (height : Nat) (token : Token) : Option Nat :=
  if token.arity ≤ height then some (height - token.arity + 1) else none

/-- The height of the stack after the tokens, taken by arity; none if an operand is missing. -/
def heightAfter (tokens : List Token) (height : Nat) : Option Nat :=
  tokens.foldlM heightStep height

/-- Every operator finds its operands, and one value is left. -/
def WellFormed (tokens : List Token) : Prop :=
  heightAfter tokens 0 = some 1

/-- The height after tokens and more of them. -/
theorem heightAfter_append (tokens more : List Token) (height : Nat) :
    heightAfter (tokens ++ more) height = (heightAfter tokens height).bind (heightAfter more) :=
  List.foldlM_append

/-- The height after one token. -/
theorem heightAfter_singleton (token : Token) (height : Nat) :
    heightAfter [token] height = heightStep height token := by
  simp [heightAfter]

end Formula

open Formula (heightAfter heightStep)

namespace Shunt

/-! ## Putting out waiting entries -/

/-- From the output `output` and the waiting entries `pending`, entries are put out from the top of
the stack until `output'` and `pending'` are left. -/
inductive Emits : List Token → List Pending → List Token → List Pending → Prop
  | refl {output : List Token} {pending : List Pending} : Emits output pending output pending
  | emit {output output' : List Token} {p : Pending} {pending pending' : List Pending} :
      Emits (p.token?.toList ++ output) pending output' pending' →
        Emits output (p :: pending) output' pending'

/-- An operator puts out entries from the top, by induction on them. -/
theorem drain_emits (op : Operator) (output : List Token) (pending : List Pending) :
    Emits output pending (drain op output pending).1 (drain op output pending).2 := by
  induction pending generalizing output with
  | nil => exact .refl
  | cons p pending ih =>
    rw [drain]
    split
    · exact .emit (ih _)
    · exact .refl

/-- A closing parenthesis puts out the entries above the opening one. -/
theorem closeParen_emits {output output' : List Token} {pending pending' : List Pending}
    (h : closeParen output pending = .ok (output', pending')) :
    Emits output pending output' (.opening :: pending') := by
  induction pending generalizing output with
  | nil => cases h
  | cons p pending ih =>
    cases p with
    | opening =>
      cases h
      exact .refl
    | operator op => exact .emit (ih h)
    | negation => exact .emit (ih h)

/-- The end of a formula puts out all entries. -/
theorem flush_emits {output output' : List Token} {pending : List Pending}
    (h : flush output pending = .ok output') : Emits output pending output' [] := by
  induction pending generalizing output with
  | nil =>
    cases h
    exact .refl
  | cons p pending ih =>
    cases p with
    | opening => cases h
    | operator op => exact .emit (ih h)
    | negation => exact .emit (ih h)

/-- The number of waiting binary operators. -/
def waiting : List Pending → Nat
  | [] => 0
  | .operator _ :: pending => waiting pending + 1
  | _ :: pending => waiting pending

/-- Putting out keeps the balance: an operator takes two values and leaves one, and waits no
longer. -/
theorem Emits.heightAfter {output output' : List Token} {pending pending' : List Pending}
    (h : Emits output pending output' pending')
    (hheight : heightAfter output.reverse 0 = some (waiting pending + 1)) :
    heightAfter output'.reverse 0 = some (waiting pending' + 1) := by
  induction h with
  | refl => exact hheight
  | @emit output output' p pending pending' _ ih =>
    apply ih
    cases p with
    | opening => exact hheight
    | negation =>
      simp only [waiting] at hheight
      simp [Pending.token?, Formula.heightAfter_append, hheight, Formula.heightAfter_singleton,
        heightStep, Token.arity]
    | operator op =>
      simp only [waiting] at hheight
      simp [Pending.token?, Formula.heightAfter_append, hheight, Formula.heightAfter_singleton,
        heightStep, Token.arity]

/-- No waiting entry is an operand. -/
theorem Emits.filter_isOperand {output output' : List Token} {pending pending' : List Pending}
    (h : Emits output pending output' pending') :
    output'.reverse.filter isOperand = output.reverse.filter isOperand := by
  induction h with
  | refl => rfl
  | @emit output output' p pending pending' _ ih =>
    rw [ih]
    cases p <;> simp [Pending.token?, isOperand, Token.arity]

/-! ## The invariant of the pass -/

/-- The state after lexemes with the given operands: the output is in balance with the waiting
entries, and holds the operands in their order. -/
structure Consistent (st : Shunt) (operands : List Token) : Prop where
  height : heightAfter st.output.reverse 0 = some (waiting st.pending + st.expectsOperator.toNat)
  operands : st.output.reverse.filter isOperand = operands

/-- Before the first lexeme nothing is put out, and nothing waits. -/
theorem consistent_start : Consistent start [] :=
  ⟨rfl, rfl⟩

/-- After a completed operand, putting out waiting entries keeps the balance and the operands. -/
theorem Consistent.of_emits {st : Shunt} {operands output : List Token} {pending : List Pending}
    (h : Consistent st operands) (hexpects : st.expectsOperator = true)
    (hemits : Emits st.output st.pending output pending) :
    heightAfter output.reverse 0 = some (waiting pending + 1) ∧
      output.reverse.filter isOperand = operands := by
  have hheight := h.height
  rw [hexpects] at hheight
  refine ⟨hemits.heightAfter hheight, ?_⟩
  rw [hemits.filter_isOperand, h.operands]

/-- An operator put on the stack after a completed operand makes up for that operand. -/
theorem Consistent.pushOperator {st : Shunt} {operands : List Token} (h : Consistent st operands)
    (hexpects : st.expectsOperator = true) (op : Operator) :
    heightAfter (st.pushOperator op).output.reverse 0 =
        some (waiting (st.pushOperator op).pending) ∧
      (st.pushOperator op).output.reverse.filter isOperand = operands :=
  h.of_emits hexpects (drain_emits op st.output st.pending)

/-- Before an operand, the height is the number of waiting operators. -/
theorem Consistent.beginOperand {st : Shunt} {operands : List Token}
    (h : Consistent st operands) :
    heightAfter st.beginOperand.output.reverse 0 = some (waiting st.beginOperand.pending) ∧
      st.beginOperand.output.reverse.filter isOperand = operands := by
  unfold Shunt.beginOperand
  cases hexpects : st.expectsOperator with
  | false =>
    have hheight := h.height
    rw [hexpects] at hheight
    exact ⟨hheight, h.operands⟩
  | true => exact h.pushOperator hexpects .mul

/-- **A lexeme keeps the invariant**, and adds its operand at the end.

**Proof sketch.** By cases over the lexemes. An operand adds itself to the output, an operator and a
closing parenthesis emit pending operators (`Consistent.of_emits`), and an opening parenthesis only
changes what is pending. -/
theorem Consistent.feed {st st' : Shunt} {operands : List Token} {lexeme : Lexeme}
    (h : Consistent st operands) (harity : ∀ token, lexeme = .operand token → token.arity = 0)
    (hfeed : st.feed lexeme = .ok st') :
    Consistent st' (operands ++ lexeme.operand?.toList) := by
  cases lexeme with
  | operand token =>
    cases hfeed
    obtain ⟨hheight, hoperands⟩ := h.beginOperand
    have ha := harity token rfl
    constructor
    · simp [Formula.heightAfter_append, hheight, Formula.heightAfter_singleton, heightStep, ha]
    · simp [hoperands, isOperand, ha, Lexeme.operand?]
  | operator c op =>
    obtain ⟨hexpects, written, -, rfl⟩ | ⟨-, -, rfl⟩ := Shunt.cases_of_feed_operator hfeed
    · obtain ⟨hheight, hoperands⟩ := h.pushOperator hexpects written
      exact ⟨hheight, by simpa [Lexeme.operand?] using hoperands⟩
    · exact ⟨h.height, by simpa [Lexeme.operand?] using h.operands⟩
  | opening =>
    cases hfeed
    obtain ⟨hheight, hoperands⟩ := h.beginOperand
    exact ⟨hheight, by simpa [Lexeme.operand?] using hoperands⟩
  | closing =>
    obtain ⟨hexpects, output, pending, hclose, rfl⟩ := Shunt.exists_of_feed_closing hfeed
    obtain ⟨hheight, hoperands⟩ := h.of_emits hexpects (closeParen_emits hclose)
    refine ⟨?_, by simpa [Lexeme.operand?] using hoperands⟩
    rw [hexpects]
    exact hheight

/-- **A text keeps the invariant**, by induction on its lexemes. -/
theorem Consistent.foldlM_feed {lexemes : List Lexeme} {st st' : Shunt} {operands : List Token}
    (h : Consistent st operands) (harity : ∀ token, .operand token ∈ lexemes → token.arity = 0)
    (hfold : lexemes.foldlM Shunt.feed st = .ok st') :
    Consistent st' (operands ++ lexemes.filterMap Lexeme.operand?) := by
  induction lexemes generalizing st operands with
  | nil =>
    cases hfold
    simpa using h
  | cons lexeme lexemes ih =>
    rw [List.foldlM_cons] at hfold
    cases hfeed : st.feed lexeme with
    | error e =>
      rw [hfeed] at hfold
      cases hfold
    | ok st₁ =>
      rw [hfeed] at hfold
      have h₁ := h.feed (fun token heq => harity token (heq ▸ List.mem_cons_self)) hfeed
      have h' := ih h₁ (fun token hmem => harity token (List.mem_cons_of_mem _ hmem)) hfold
      cases lexeme <;> simpa [List.filterMap_cons, Lexeme.operand?] using h'

/-- At the end all waiting entries are put out and one value is left. -/
theorem Consistent.finish {st : Shunt} {operands tokens : List Token} (h : Consistent st operands)
    (hfinish : st.finish = .ok tokens) :
    Formula.WellFormed tokens ∧ tokens.filter isOperand = operands := by
  obtain ⟨hexpects, output, hflush, rfl⟩ := Shunt.exists_of_finish hfinish
  exact h.of_emits hexpects (flush_emits hflush)

end Shunt

/-! ## Evaluation of well-formed tokens -/

namespace Formula

variable {σ : Type}

/-- A token that is evaluated finds its operands and leaves one value for them. -/
theorem heightStep_of_stepToken {host : Host σ} {inner : String → Action σ Value} {token : Token}
    {stack stack' : List Value} {s t : σ}
    (h : (stepToken host inner stack token).runFrom s = .ok (.ok stack', t)) :
    heightStep stack.length token = some stack'.length := by
  -- operands leave the stack as it is below the new value
  have hpush : ∀ {α : Type} {act : Action σ α} {value : α → Value},
      (act >>= fun a => pure (value a :: stack)).runFrom s = .ok (.ok stack', t) →
        stack'.length = stack.length + 1 := by
    intro α act value hrun
    rcases Action.runFrom_bind_eq_ok.1 hrun with ⟨e, -, he⟩ | ⟨a, u, -, hpure⟩
    · cases he
    · cases hpure
      rfl
  cases token with
  | operator op =>
    match stack with
    | [] => cases h
    | [_] => cases h
    | rhs :: lhs :: rest =>
      rcases Action.runFrom_bind_eq_ok.1 h with ⟨e, -, he⟩ | ⟨v, u, -, hpure⟩
      · cases he
      · cases hpure
        simp [heightStep, Token.arity]
  | negation =>
    match stack with
    | [] => cases h
    | v :: rest =>
      cases h
      simp [heightStep, Token.arity]
  | word s => cases h
  | number x => cases h; simp [heightStep, Token.arity]
  | bool b => cases h; simp [heightStep, Token.arity]
  | null => cases h; simp [heightStep, Token.arity]
  | singleQuoted s => cases h; simp [heightStep, Token.arity]
  | doubleQuoted s => simp [heightStep, Token.arity, hpush h]
  | collection src => simp [heightStep, Token.arity, hpush h]
  | call src => simp [heightStep, Token.arity, hpush h]
  | reference path => simp [heightStep, Token.arity, hpush h]

/-- The stack of an evaluation has the height that the arities of its tokens tell, by induction on
the tokens. -/
theorem heightAfter_of_foldlM_stepToken {host : Host σ} {inner : String → Action σ Value}
    {tokens : List Token} {stack stack' : List Value} {s t : σ}
    (h : (tokens.foldlM (stepToken host inner) stack).runFrom s = .ok (.ok stack', t)) :
    heightAfter tokens stack.length = some stack'.length := by
  induction tokens generalizing stack s with
  | nil =>
    cases h
    rfl
  | cons token tokens ih =>
    rw [List.foldlM_cons] at h
    rcases Action.runFrom_bind_eq_ok.1 h with ⟨e, -, he⟩ | ⟨stack₁, s₁, hstep, hrest⟩
    · cases he
    · change (heightStep stack.length token).bind (heightAfter tokens) = _
      rw [heightStep_of_stepToken hstep]
      exact ih hrest

/-- An evaluation of well-formed tokens has every operand when it needs it. -/
theorem WellFormed.arity_le_length {host : Host σ} {inner : String → Action σ Value}
    {before after : List Token} {token : Token} {stack : List Value} {s t : σ}
    (h : WellFormed (before ++ token :: after))
    (hrun : (before.foldlM (stepToken host inner) []).runFrom s = .ok (.ok stack, t)) :
    token.arity ≤ stack.length := by
  have hbefore : heightAfter before 0 = some stack.length := heightAfter_of_foldlM_stepToken hrun
  unfold WellFormed at h
  rw [heightAfter_append, hbefore, Option.bind_some] at h
  rcases Nat.lt_or_ge stack.length token.arity with hlt | hle
  · have hnone : heightAfter (token :: after) stack.length = none := by
      change (heightStep stack.length token).bind (heightAfter after) = none
      simp [heightStep, Nat.not_le.2 hlt]
    rw [hnone] at h
    cases h
  · exact hle

/-- An evaluation of well-formed tokens that takes in all of them leaves one value. -/
theorem WellFormed.exists_eq_singleton {host : Host σ} {inner : String → Action σ Value}
    {tokens : List Token} {stack : List Value} {s t : σ} (h : WellFormed tokens)
    (hrun : (tokens.foldlM (stepToken host inner) []).runFrom s = .ok (.ok stack, t)) :
    ∃ v, stack = [v] := by
  have hheight := heightAfter_of_foldlM_stepToken hrun
  rw [List.length_nil, show heightAfter tokens 0 = some 1 from h] at hheight
  exact List.length_eq_one_iff.1 (Option.some.inj hheight).symm

/-- **Accepted formulas are well formed.** The tokens of an accepted formula find all their operands
and leave one value, and the operands among them are those of the text, in its order. Evaluated over
any host, a token never finds fewer values on the stack than it takes, and exactly one value is left
after the last one.

**Proof sketch.** The text is read as lexemes (`Shunt.exists_reads_of_scan`), along which the pass
keeps its output in balance with the waiting entries (`Shunt.Consistent.foldlM_feed`). The stack of
an evaluation has the heights of the listing (`heightAfter_of_foldlM_stepToken`). -/
theorem wellFormed_of_tokens {src : String} {tokens : List Token}
    (h : Formula.tokens src = .ok tokens) :
    WellFormed tokens ∧
    (∃ lexemes, Lexeme.Reads (Text.trimChars src.toList) lexemes ∧
      tokens.filter isOperand = lexemes.filterMap Lexeme.operand?) ∧
    ∀ (σ : Type) (host : Host σ) (inner : String → Action σ Value) (s t : σ) (stack : List Value),
      (∀ before token after, tokens = before ++ token :: after →
        (before.foldlM (stepToken host inner) []).runFrom s = .ok (.ok stack, t) →
          token.arity ≤ stack.length) ∧
      ((tokens.foldlM (stepToken host inner) []).runFrom s = .ok (.ok stack, t) →
        ∃ v, stack = [v]) := by
  obtain ⟨st, hscan, hfinish⟩ := exists_of_tokens h
  obtain ⟨lexemes, hreads, hfold⟩ := Shunt.exists_reads_of_scan hscan
  have hst := Shunt.consistent_start.foldlM_feed hreads.arity_operand hfold
  obtain ⟨hwell, hoperands⟩ := hst.finish hfinish
  refine ⟨hwell, ⟨lexemes, hreads, hoperands⟩, fun σ host inner s t stack => ⟨?_, ?_⟩⟩
  · rintro before token after rfl hrun
    exact hwell.arity_le_length hrun
  · exact hwell.exists_eq_singleton

/-- A formula with a negation, a juxtaposition and parentheses is accepted and well formed. -/
theorem wellFormed_of_tokens_product :
    ∃ tokens, Formula.tokens "-a (b + c) ^ 'd'" = .ok tokens ∧ WellFormed tokens := by
  have hok : (Formula.tokens "-a (b + c) ^ 'd'").isOk = true := by decide +kernel
  cases htokens : Formula.tokens "-a (b + c) ^ 'd'" with
  | error e =>
    rw [htokens] at hok
    cases hok
  | ok tokens => exact ⟨tokens, rfl, (wellFormed_of_tokens htokens).1⟩

end Formula

end LineScript
