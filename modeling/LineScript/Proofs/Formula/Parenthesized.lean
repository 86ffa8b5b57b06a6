import LineScript.Proofs.Formula.Depth
import LineScript.Proofs.Formula.Pieces
import LineScript.Proofs.Lists

set_option relaxedAutoImplicit false
set_option autoImplicit false

/-!
# Formulas in parentheses

A formula may be put in parentheses and operated on from outside. The pass over it goes as before,
with what waits outside kept below the open parenthesis; and its tokens are evaluated as before,
with the values from outside kept below its own on the stack. So the operation reads the variable,
evaluates the formula, and then applies its operator.

## Main definitions

* `LineScript.Shunt.framed` — a state of the pass inside a parenthesis.
* `LineScript.Formula.operation` — `$path op (src)`.

## Main results

* `LineScript.Layout.append` — laid out texts one after the other.
* `LineScript.Shunt.foldlM_feed_framed` — the pass inside a parenthesis.
* `LineScript.Formula.tokens_operation` — the tokens of an operation.
* `LineScript.Formula.foldlM_stepToken_append` — evaluation with more values below.
* `LineScript.Formula.evaluate_operation` — the value of an operation.
-/

namespace LineScript

/-! ## Layouts one after the other -/

/-- What is neither a character of a path nor an equals sign is no part of any piece. -/
theorem Piece.continues_of_isPathChar (p : Piece) {c : Char} (hc : Text.isPathChar c = false)
    (hequals : c ≠ '=') : p.continues c = false := by
  have hdigit : c.isDigit = false := by
    rw [Bool.eq_false_iff]
    intro hd
    rw [Text.isPathChar_of_isDigit hd] at hc
    cases hc
  have hname : Text.isNameChar c = false := by
    rw [Text.isPathChar, Bool.or_eq_false_iff] at hc
    exact hc.1
  have hpoint : (c == '.') = false := by
    rw [Text.isPathChar, Bool.or_eq_false_iff] at hc
    exact hc.2
  cases p with
  | operand o =>
    cases o with
    | integer => simp [Piece.continues, Operand.continues, hdigit, hpoint]
    | decimal => exact hdigit
    | reference => exact hc
    | word => exact hname
    | literal => rfl
  | operator op => cases op <;> simp [Piece.continues, hequals]
  | opening => rfl
  | closing => rfl

namespace Layout

/-- Blanks in front of a layout. -/
theorem blanks_append {ps : List Piece} {blanks text : List Char}
    (hblanks : ∀ b ∈ blanks, Text.isBlank b = true) (h : Layout ps text) :
    Layout ps (blanks ++ text) := by
  induction blanks with
  | nil => exact h
  | cons b blanks ih =>
    exact (ih fun c hc => hblanks c (List.mem_cons_of_mem b hc)).blank_cons
      (hblanks b List.mem_cons_self)

/-- **Laid out texts one after the other** are laid out, if no piece of the first could go on with
the second. -/
theorem append {ps qs : List Piece} {text rest : List Char} (h : Layout ps text)
    (hrest : Layout qs rest) (hhead : ∀ c ∈ rest.head?, Text.isPathChar c = false ∧ c ≠ '=') :
    Layout (ps ++ qs) (text ++ rest) := by
  induction h with
  | nil hblanks => exact hrest.blanks_append hblanks
  | @cons blanks text p ps hblanks hends _ ih =>
    rw [List.append_assoc, List.cons_append]
    refine .cons hblanks (fun c hc => ?_) ih
    rw [List.head?_append, Option.mem_def, Option.or_eq_some_iff] at hc
    rcases hc with hc | ⟨-, hc⟩
    · exact hends c hc
    · exact p.continues_of_isPathChar (hhead c hc).1 (hhead c hc).2

/-- A closing parenthesis after a formula, which need not be trimmed. -/
theorem closed {ps : List Piece} {text : List Char} (h : Layout ps (Text.trimChars text)) :
    Layout (ps ++ [.closing]) (text ++ [')']) := by
  obtain ⟨before, after, hbefore, hafter, htext⟩ := Text.exists_eq_append_trimChars text
  have hclosing : Layout [.closing] ([] ++ [')'] ++ []) :=
    .cons (by simp) (fun _ _ => rfl) (.nil (by simp))
  have hhead : ∀ c ∈ (after ++ [')']).head?, Text.isPathChar c = false ∧ c ≠ '=' := by
    intro c hc
    cases after with
    | nil =>
      obtain rfl : ')' = c := by simpa using hc
      exact ⟨by decide +kernel, by decide⟩
    | cons b after =>
      obtain rfl : b = c := by simpa using hc
      have hb : Text.isBlank b = true := hafter b List.mem_cons_self
      constructor
      · rw [Bool.eq_false_iff]
        intro hpath
        rw [Text.isBlank_of_isPathChar hpath] at hb
        cases hb
      · rintro rfl
        cases hb
  rw [htext, List.append_assoc]
  exact (h.blanks_append hbefore).append (hclosing.blanks_append hafter) hhead

end Layout

/-! ## The pass inside a parenthesis -/

namespace Shunt

/-- The state inside a parenthesis, with what was put out and what waits outside. -/
def framed (output : List Token) (pending : List Pending) (st : Shunt) : Shunt :=
  ⟨st.output ++ output, st.pending ++ .opening :: pending, st.expectsOperator⟩

variable {output : List Token} {pending : List Pending}

/-- What is expected does not depend on what is outside the parenthesis. -/
theorem expectsOperator_framed (st : Shunt) :
    (st.framed output pending).expectsOperator = st.expectsOperator := rfl

/-- An operator puts out no entry past the open parenthesis. -/
theorem drain_framed (op : Operator) (out : List Token) (entries : List Pending) :
    drain op (out ++ output) (entries ++ .opening :: pending) =
      ((drain op out entries).1 ++ output, (drain op out entries).2 ++ .opening :: pending) := by
  induction entries generalizing out with
  | nil => rfl
  | cons p entries ih =>
    rw [List.cons_append, drain, drain]
    split
    · rw [← List.append_assoc, ih]
    · rfl

/-- A closing parenthesis inside finds its opening one inside. -/
theorem closeParen_framed {out out' : List Token} {entries entries' : List Pending}
    (h : closeParen out entries = .ok (out', entries')) :
    closeParen (out ++ output) (entries ++ .opening :: pending) =
      .ok (out' ++ output, entries' ++ .opening :: pending) := by
  induction entries generalizing out with
  | nil => cases h
  | cons p entries ih =>
    cases p with
    | opening =>
      cases h
      rfl
    | operator op => exact ih h
    | negation => exact ih h

/-- An operator is pushed inside the parenthesis. -/
theorem pushOperator_framed (st : Shunt) (op : Operator) :
    (st.framed output pending).pushOperator op = (st.pushOperator op).framed output pending := by
  simp [pushOperator, framed, drain_framed]

/-- An operand is begun inside the parenthesis. -/
theorem beginOperand_framed (st : Shunt) :
    (st.framed output pending).beginOperand = st.beginOperand.framed output pending := by
  unfold beginOperand
  cases h : st.expectsOperator with
  | true => simpa [framed, h] using pushOperator_framed st .mul
  | false => simp [framed, h]

/-- **One lexeme inside a parenthesis** is taken in as outside. -/
theorem feed_framed {st st' : Shunt} {lexeme : Lexeme} (h : st.feed lexeme = .ok st') :
    (st.framed output pending).feed lexeme = .ok (st'.framed output pending) := by
  cases lexeme with
  | operand token =>
    cases h
    simp only [feed, beginOperand_framed]
    rfl
  | opening =>
    cases h
    simp only [feed, beginOperand_framed]
    rfl
  | operator c op =>
    obtain ⟨hexpects, op, rfl, rfl⟩ | ⟨hexpects, rfl, rfl⟩ := cases_of_feed_operator h
    · simp only [feed, expectsOperator_framed, hexpects, if_true]
      rw [pushOperator_framed]
      rfl
    · simp only [feed, expectsOperator_framed, hexpects, Bool.false_eq_true, if_false, if_true]
      rfl
  | closing =>
    obtain ⟨hexpects, out, entries, hclose, rfl⟩ := exists_of_feed_closing h
    have hframed : closeParen (st.framed output pending).output (st.framed output pending).pending =
        .ok (out ++ output, entries ++ .opening :: pending) := closeParen_framed hclose
    rw [feed, expectsOperator_framed, if_pos hexpects, hframed]
    rfl

/-- **The pass inside a parenthesis** goes as outside. -/
theorem foldlM_feed_framed {st st' : Shunt} {lexemes : List Lexeme}
    (h : lexemes.foldlM feed st = .ok st') :
    lexemes.foldlM feed (st.framed output pending) = .ok (st'.framed output pending) := by
  induction lexemes generalizing st with
  | nil =>
    cases h
    rfl
  | cons lexeme lexemes ih =>
    rw [List.foldlM_cons] at h ⊢
    cases hfeed : st.feed lexeme with
    | error e =>
      rw [hfeed] at h
      cases h
    | ok next =>
      rw [hfeed] at h
      rw [feed_framed hfeed]
      exact ih h

/-- Closing a parenthesis puts out what the end of the text inside it would. -/
theorem closeParen_of_flush {out out' : List Token} {entries : List Pending}
    (h : flush out entries = .ok out') :
    closeParen (out ++ output) (entries ++ .opening :: pending) =
      .ok (out' ++ output, pending) := by
  induction entries generalizing out with
  | nil =>
    cases h
    rfl
  | cons p entries ih =>
    cases p with
    | opening => cases h
    | operator op => exact ih h
    | negation => exact ih h

/-- The closing parenthesis ends what stands inside it as the end of a formula does. -/
theorem feed_closing_framed {st : Shunt} {ts : List Token} (h : st.finish = .ok ts) :
    (st.framed output pending).feed .closing = .ok ⟨ts.reverse ++ output, pending, true⟩ := by
  obtain ⟨hexpects, out, hflush, rfl⟩ := exists_of_finish h
  simp [feed, framed, hexpects, closeParen_of_flush hflush]

end Shunt

namespace Formula

/-- The text `$path op (src)`. -/
def operation (path : String) (op : Operator) (src : String) : String :=
  "$" ++ path ++ " " ++ op.symbol ++ " (" ++ src ++ ")"

section Operation

variable {path src : String} {first : Char} {rest : List Char} {ts : List Token}
  (hpath : path.toList = first :: rest) (hstart : Text.isNameStart first = true)
  (hrest : ∀ c ∈ rest, Text.isPathChar c = true) (op : Operator) (htokens : tokens src = .ok ts)

include hpath hstart hrest htokens in
/-- **The tokens of an operation**: the reference, the tokens of the formula and the operator. -/
theorem tokens_operation :
    tokens (operation path op src) = .ok (.reference path :: (ts ++ [.operator op])) := by
  obtain ⟨ps, st, hlayout, hfold, hfinish⟩ := exists_layout_of_tokens htokens
  let reference : Operand := .reference first rest hstart hrest
  have htext : (operation path op src).toList =
      [] ++ reference.text ++
        ([' '] ++ op.symbol.toList ++ ([' '] ++ ['('] ++ (src.toList ++ [')']))) := by
    simp [operation, reference, Operand.text, hpath]
  have hoperation : Layout (.operand reference :: .operator op :: .opening :: (ps ++ [.closing]))
      (operation path op src).toList := by
    rw [htext]
    have hspace : ∀ b ∈ [' '], Text.isBlank b = true := List.all_eq_true.1 rfl
    refine .cons (by simp) ?_ (.cons hspace ?_ (.cons hspace (fun _ _ => rfl) hlayout.closed))
    · rintro c ⟨⟩
      exact Piece.continues_space _
    · rintro c ⟨⟩
      exact Piece.continues_space _
  have hpass : Shunt.start.scan (Text.trimChars (operation path op src).toList) =
      .ok ⟨ts.reverse ++ [.reference path], [.operator op], true⟩ := by
    rw [Shunt.scan_of_reads hoperation.trimChars.reads]
    have hreference : reference.token = .reference path := by
      rw [← String.ofList_toList (s := path), hpath]
      rfl
    -- past the parenthesis, the pass goes on as from the start
    have hopened : (List.map Piece.lexeme
        (.operand reference :: .operator op :: .opening :: (ps ++ [.closing]))).foldlM Shunt.feed
        Shunt.start =
        (ps.map Piece.lexeme ++ [Lexeme.closing]).foldlM Shunt.feed
          (Shunt.start.framed [.reference path] [.operator op]) := by
      rw [← hreference, List.map_cons, List.map_cons, List.map_cons, List.map_append]
      rfl
    rw [hopened, List.foldlM_append, Shunt.foldlM_feed_framed hfold]
    change List.foldlM Shunt.feed _ [Lexeme.closing] = _
    rw [List.foldlM_cons, Shunt.feed_closing_framed hfinish]
    rfl
  rw [tokens, hpass]
  simp [Shunt.finish, Shunt.flush, Pending.token?]

end Operation

/-! ## Evaluation with more values below -/

section Below

variable {σ : Type} {host : Host σ} {inner : String → Action σ Value}

/-- A token leaves alone what lies below its operands. -/
theorem stepToken_append {token : Token} {stack : List Value} (h : token.arity ≤ stack.length)
    (below : List Value) :
    stepToken host inner (stack ++ below) token =
      stepToken host inner stack token >>= fun stack => pure (stack ++ below) := by
  cases token with
  | operator op =>
    rcases stack with _ | ⟨rhs, _ | ⟨lhs, stack⟩⟩
    · simp [Token.arity] at h
    · simp [Token.arity] at h
    · simp [stepToken]
  | negation =>
    rcases stack with _ | ⟨v, stack⟩
    · simp [Token.arity] at h
    · simp [stepToken]
  | word s => rfl
  | _ => simp [stepToken]

/-- **Tokens that find their operands** leave alone what lies below. By induction on the tokens: the
height of the stack after each is known beforehand. -/
theorem foldlM_stepToken_append {ts : List Token} {stack : List Value} {height : Nat}
    (h : heightAfter ts stack.length = some height) (below : List Value) (s : σ) :
    (ts.foldlM (stepToken host inner) (stack ++ below)).runFrom s =
      (ts.foldlM (stepToken host inner) stack >>= fun stack =>
        pure (stack ++ below)).runFrom s := by
  induction ts generalizing stack s with
  | nil => rfl
  | cons token ts ih =>
    rw [heightAfter, List.foldlM_cons] at h
    have harity : token.arity ≤ stack.length := by
      by_contra harity
      rw [heightStep, if_neg harity] at h
      cases h
    rw [List.foldlM_cons, List.foldlM_cons, stepToken_append harity, bind_assoc, bind_assoc,
      Action.runFrom_bind, Action.runFrom_bind]
    rcases hrun : (stepToken host inner stack token).runFrom s with reason | ⟨e | next, t⟩
    · rfl
    · rfl
    · dsimp only
      rw [pure_bind]
      refine ih ?_ t
      rw [heightStep_of_stepToken hrun] at h
      exact h

/-- The tokens of a formula are well-formed. -/
theorem tokens_wellFormed {src : String} {ts : List Token} (h : tokens src = .ok ts) :
    WellFormed ts := by
  obtain ⟨ps, st, hlayout, hfold, hfinish⟩ := exists_layout_of_tokens h
  exact ((Shunt.consistent_start.foldlM_feed hlayout.reads.arity_operand hfold).finish hfinish).1

/-- The tokens of a formula between a reference and an operator. -/
theorem evaluateTokensWith_operation {ts : List Token} (h : WellFormed ts) (path : String)
    (op : Operator) :
    evaluateTokensWith host inner (.reference path :: (ts ++ [.operator op])) =
      (do
        let v ← host.readVariable path
        let w ← evaluateTokensWith host inner ts
        Action.ofExcept (op.apply v w)) := by
  -- from the value of the variable on, the formula is evaluated above it
  have hbelow : ∀ v : Value, (ts ++ [Token.operator op]).foldlM (stepToken host inner) [v] =
      evaluateTokensWith host inner ts >>= fun w =>
        Action.ofExcept (op.apply v w) >>= fun x => pure [x] := by
    intro v
    refine funext fun s => ?_
    change Action.runFrom _ s = Action.runFrom _ s
    have hheight : heightAfter ts ([] : List Value).length = some 1 := h
    have happend : (ts.foldlM (stepToken host inner) [v]).runFrom s = _ :=
      foldlM_stepToken_append hheight [v] s
    rw [List.foldlM_append, Action.runFrom_bind, happend, evaluateTokensWith, bind_assoc,
      Action.runFrom_bind, Action.runFrom_bind]
    rcases hrun : (ts.foldlM (stepToken host inner) []).runFrom s with reason | ⟨e | stack, t⟩
    · rfl
    · rfl
    · obtain ⟨w, rfl⟩ := h.exists_eq_singleton hrun
      change ([Token.operator op].foldlM (stepToken host inner) [w, v]).runFrom t = _
      simp [stepToken]
  rw [evaluateTokensWith, List.foldlM_cons]
  simp only [stepToken, bind_assoc, pure_bind, hbelow, bind_pure]

end Below

/-- Formulas with the same tokens have the same value. -/
theorem evaluate_eq_of_tokens {σ : Type} (host : Host σ) {src src' : String}
    (h : tokens src = tokens src') :
    evaluate host src = evaluate host src' := by
  let depth := src.length + src'.length
  rw [← evaluateWithin_eq_evaluate (show src.length < depth + 1 by omega),
    ← evaluateWithin_eq_evaluate (show src'.length < depth + 1 by omega), evaluateWithin,
    evaluateWithin, h]

/-- **The value of an operation**: the variable is read, then the formula is evaluated, and then the
operator is applied. -/
theorem evaluate_operation {σ : Type} (host : Host σ) {path src : String} {first : Char}
    {rest : List Char}
    {ts : List Token} (hpath : path.toList = first :: rest) (hstart : Text.isNameStart first = true)
    (hrest : ∀ c ∈ rest, Text.isPathChar c = true) (op : Operator) (htokens : tokens src = .ok ts) :
    evaluate host (operation path op src) =
      (do
        let v ← host.readVariable path
        let w ← evaluate host src
        Action.ofExcept (op.apply v w)) := by
  have hlength : src.length < (operation path op src).length + 1 := by
    simp [operation, String.length_append]
    omega
  rw [← evaluateWithin_eq_evaluate hlength, evaluate, evaluateWithin, evaluateWithin,
    tokens_operation hpath hstart hrest op htokens, htokens]
  exact evaluateTokensWith_operation (tokens_wellFormed htokens) path op

end Formula

end LineScript
