import LineScript.Formula.Lexeme

set_option relaxedAutoImplicit false
set_option autoImplicit false

/-!
# Reverse Polish order

A formula is brought into reverse Polish order in one pass. Operands go straight to the output;
operators wait on a stack until one that binds less tightly, or a closing parenthesis, sends them
after their operands. Two operands next to each other are multiplied. A minus where an operand is
expected is a negation, which waits without sending anything ahead of it.

## Main definitions

* `LineScript.Pending` — what waits on the stack.
* `LineScript.Shunt` — the state of the pass; `LineScript.Shunt.feed` takes in a lexeme and
  `LineScript.Shunt.finish` empties the stack.
* `LineScript.Shunt.scan` — the pass over a text.
* `LineScript.Formula.tokens` — a formula in reverse Polish order.
-/

namespace LineScript

/-- What waits for its operands to be complete. -/
inductive Pending where
  | operator (op : Operator)
  | negation
  | opening
  deriving Repr, DecidableEq

/-- The token that a waiting entry becomes; a parenthesis leaves none. -/
def Pending.token? : Pending → Option Token
  | .operator op => some (.operator op)
  | .negation => some .negation
  | .opening => none

/-- How tightly a waiting entry binds; nothing passes an open parenthesis. -/
def Pending.tier? : Pending → Option Nat
  | .operator op => some op.tier
  | .negation => some Operator.negationTier
  | .opening => none

/-- Whether a waiting entry comes before an operator that is read after it: if it binds more
tightly, or as tightly and the operator groups to the left. -/
def Pending.precedes (p : Pending) (op : Operator) : Bool :=
  match p.tier? with
  | none => false
  | some tier => if op.rightAssociative then op.tier < tier else op.tier ≤ tier

/-- The state of the pass: the tokens put out so far, last one first, the waiting entries, latest
one first, and whether an operator must come next. -/
structure Shunt where
  output : List Token := []
  pending : List Pending := []
  expectsOperator : Bool := false
  deriving Repr

namespace Shunt

/-- Nothing has been read. -/
def start : Shunt := {}

/-- Waiting entries that precede `op` are put out. -/
def drain (op : Operator) (output : List Token) : List Pending → List Token × List Pending
  | [] => (output, [])
  | p :: pending =>
    if p.precedes op then drain op (p.token?.toList ++ output) pending
    else (output, p :: pending)

/-- An operator is put on the stack, after all that precedes it is put out. -/
def pushOperator (st : Shunt) (op : Operator) : Shunt :=
  let (output, pending) := drain op st.output st.pending
  { st with output := output, pending := .operator op :: pending }

/-- Before an operand: if an operator was due, the two operands are multiplied. -/
def beginOperand (st : Shunt) : Shunt :=
  if st.expectsOperator then st.pushOperator .mul else st

/-- Waiting entries are put out up to the parenthesis that is closed. -/
def closeParen (output : List Token) :
    List Pending → Except ScriptError (List Token × List Pending)
  | [] => .error .unexpectedCloseParen
  | .opening :: pending => .ok (output, pending)
  | p :: pending => closeParen (p.token?.toList ++ output) pending

/-- The state after one more lexeme. -/
def feed (st : Shunt) : Lexeme → Except ScriptError Shunt
  | .operand token =>
    let st := st.beginOperand
    .ok { st with output := token :: st.output, expectsOperator := true }
  | .operator c op =>
    if st.expectsOperator then
      match op with
      | none => .error (.unexpectedChar c)
      | some op => .ok { st.pushOperator op with expectsOperator := false }
    else if c = '-' then .ok { st with pending := .negation :: st.pending }
    else .error (.unexpectedOperator c)
  | .opening =>
    let st := st.beginOperand
    .ok { st with pending := .opening :: st.pending, expectsOperator := false }
  | .closing =>
    if st.expectsOperator then
      match closeParen st.output st.pending with
      | .error e => .error e
      | .ok (output, pending) => .ok { st with output := output, pending := pending }
    else .error .unexpectedCloseParen

/-- The state after all lexemes of a text. -/
def scan (st : Shunt) : List Char → Except ScriptError Shunt
  | [] => .ok st
  | c :: cs =>
    if Text.isBlank c then st.scan cs
    else
      match h : Lexeme.read c cs with
      | .error e => .error e
      | .ok (lexeme, rest) =>
        have : rest.length ≤ cs.length := Lexeme.length_read h
        match st.feed lexeme with
        | .error e => .error e
        | .ok st => st.scan rest
termination_by cs => cs.length

section

variable {st : Shunt} {c : Char} {cs : List Char}

/-- A blank is passed over. -/
theorem scan_of_blank (hblank : Text.isBlank c = true) : st.scan (c :: cs) = st.scan cs := by
  rw [scan, if_pos hblank]

/-- A lexeme at the start of the text is taken in, and the pass goes on after it. -/
theorem scan_of_read {lexeme : Lexeme} {rest : List Char} (hblank : Text.isBlank c = false)
    (hread : Lexeme.read c cs = .ok (lexeme, rest)) :
    st.scan (c :: cs) = st.feed lexeme >>= fun st => st.scan rest := by
  conv => lhs; unfold scan
  rw [if_neg (by simp [hblank])]
  split
  next e he => exact nomatch hread.symm.trans he
  next lexeme' rest' hread' =>
    cases hread.symm.trans hread'
    cases st.feed lexeme with
    | error e => rfl
    | ok st => rfl

/-- A text that starts with no lexeme is refused. -/
theorem scan_of_read_error {e : ScriptError} (hblank : Text.isBlank c = false)
    (hread : Lexeme.read c cs = .error e) : st.scan (c :: cs) = .error e := by
  unfold scan
  rw [if_neg (by simp [hblank])]
  split
  next e' he =>
    cases he.symm.trans hread
    rfl
  next lexeme rest hread' => exact nomatch hread.symm.trans hread'

end

/-- All waiting entries are put out; an open parenthesis among them is an error. -/
def flush (output : List Token) : List Pending → Except ScriptError (List Token)
  | [] => .ok output
  | .opening :: _ => .error .missingCloseParen
  | p :: pending => flush (p.token?.toList ++ output) pending

/-- The tokens of the formula, in order, once all of it has been read. -/
def finish (st : Shunt) : Except ScriptError (List Token) :=
  if st.expectsOperator then
    match flush st.output st.pending with
    | .error e => .error e
    | .ok output => .ok output.reverse
  else .error .missingOperand

/-! ### What is taken in -/

variable {st st' : Shunt}

/-- An operator is taken in where one is due; elsewhere only a minus is, as a negation. -/
theorem cases_of_feed_operator {c : Char} {op : Option Operator}
    (h : st.feed (.operator c op) = .ok st') :
    (st.expectsOperator = true ∧ ∃ written, op = some written ∧
      st' = { st.pushOperator written with expectsOperator := false }) ∨
    (st.expectsOperator = false ∧ c = '-' ∧
      st' = { st with pending := .negation :: st.pending }) := by
  simp only [feed] at h
  cases hexpects : st.expectsOperator with
  | true =>
    cases op with
    | none => simp [hexpects] at h
    | some written => exact .inl ⟨rfl, written, rfl, by simpa [hexpects, eq_comm] using h⟩
  | false =>
    by_cases hminus : c = '-'
    · exact .inr ⟨rfl, hminus, by simpa [hexpects, hminus, eq_comm] using h⟩
    · simp [hexpects, hminus] at h

/-- A parenthesis is closed after an operand, if one is open. -/
theorem exists_of_feed_closing (h : st.feed .closing = .ok st') :
    st.expectsOperator = true ∧ ∃ output pending,
      closeParen st.output st.pending = .ok (output, pending) ∧
        st' = { st with output := output, pending := pending } := by
  rw [feed] at h
  cases hexpects : st.expectsOperator with
  | false => simp [hexpects] at h
  | true =>
    cases hclose : closeParen st.output st.pending with
    | error e => simp [hexpects, hclose] at h
    | ok closed => exact ⟨rfl, _, _, rfl, by simpa [hexpects, hclose, eq_comm] using h⟩

/-- A formula ends after an operand, with no parenthesis left open. -/
theorem exists_of_finish {ts : List Token} (h : st.finish = .ok ts) :
    st.expectsOperator = true ∧ ∃ output,
      flush st.output st.pending = .ok output ∧ ts = output.reverse := by
  rw [finish] at h
  cases hexpects : st.expectsOperator with
  | false => simp [hexpects] at h
  | true =>
    cases hflush : flush st.output st.pending with
    | error e => simp [hexpects, hflush] at h
    | ok output => exact ⟨rfl, output, rfl, by simpa [hexpects, hflush, eq_comm] using h⟩

end Shunt

/-- A formula in reverse Polish order. -/
def Formula.tokens (src : String) : Except ScriptError (List Token) :=
  match Shunt.start.scan (Text.trimChars src.toList) with
  | .error e => .error e
  | .ok st => st.finish

/-- The tokens of a formula are those of the state after it. -/
theorem Formula.exists_of_tokens {src : String} {ts : List Token} (h : tokens src = .ok ts) :
    ∃ st, Shunt.start.scan (Text.trimChars src.toList) = .ok st ∧ st.finish = .ok ts := by
  rw [tokens] at h
  cases hscan : Shunt.start.scan (Text.trimChars src.toList) with
  | error e => simp [hscan] at h
  | ok st => exact ⟨st, rfl, by simpa [hscan] using h⟩

/-- A formula is refused for what is in it, or for what is missing at its end. -/
theorem Formula.cases_of_tokens_error {src : String} {e : ScriptError}
    (h : tokens src = .error e) :
    Shunt.start.scan (Text.trimChars src.toList) = .error e ∨
      ∃ st, Shunt.start.scan (Text.trimChars src.toList) = .ok st ∧ st.finish = .error e := by
  rw [tokens] at h
  cases hscan : Shunt.start.scan (Text.trimChars src.toList) with
  | error e' => exact .inl (by simpa [hscan] using h)
  | ok st => exact .inr ⟨st, rfl, by simpa [hscan] using h⟩

end LineScript
