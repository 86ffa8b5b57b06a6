import LineScript.Formula.Polish

set_option relaxedAutoImplicit false
set_option autoImplicit false

/-!
# The grammar of formulas

An expression is a tree of operands, negations and binary operators. It is written as a list of
*pieces*: operands, operators and parentheses. Where an expression stands decides how tightly it
must bind to need no parentheses; more of them never do harm. A product may also be written by
putting its operands next to each other. The pieces are laid out as text with blanks between them,
which may be left out where the next character cannot be taken for a part of the piece before it.

## Main definitions

* `LineScript.Operand` — an operand as it is written.
* `LineScript.Piece` — an operand, an operator or a parenthesis.
* `LineScript.Expression`, `LineScript.Expression.listing` — the trees, and their reverse Polish
  listing.
* `LineScript.Expression.Written` — the pieces an expression can be written with.
* `LineScript.Expression.minimal`, `LineScript.Expression.full` — as few parentheses as possible,
  and parentheses around every operator and its operands.
* `LineScript.Layout` — the texts that a list of pieces can be laid out as.

## Main results

* `LineScript.Expression.written_minimal`, `LineScript.Expression.written_full` — both forms are
  ways to write an expression.
* `LineScript.layout_spaced` — pieces can be laid out with single blanks.
-/

namespace LineScript

/-! ## Operands and pieces -/

/-- Inside the open literals `n`, the text stays inside, and then the character `last` closes the
last of them. -/
inductive Nesting.Encloses : Nesting → List Char → Char → Prop
  | close {n n' : Nesting} {last : Char} :
      n.feed last = .ok n' → n'.atTop = true → Encloses n [] last
  | inside {n n' : Nesting} {c last : Char} {inner : List Char} :
      n.feed c = .ok n' → n'.atTop = false → Encloses n' inner last → Encloses n (c :: inner) last

/-- An operand as it is written: digits, digits around a point, a reference `$path`, a bare word, or
a literal between delimiters. -/
inductive Operand where
  | integer (digits : List Char) (nonempty : digits ≠ [])
      (isDigit : ∀ d ∈ digits, d.isDigit = true)
  | decimal (whole fraction : List Char) (nonempty : whole ++ fraction ≠ [])
      (isDigit : ∀ d ∈ whole ++ fraction, d.isDigit = true)
  | reference (first : Char) (rest : List Char) (isStart : Text.isNameStart first = true)
      (isPath : ∀ c ∈ rest, Text.isPathChar c = true)
  | word (first : Char) (rest : List Char) (isStart : Text.isNameStart first = true)
      (isName : ∀ c ∈ rest, Text.isNameChar c = true)
  | literal (first : Char) (nesting : Nesting) (make : String → Token) (inner : List Char)
      (last : Char) (isOpener : Lexeme.literal? first = some (nesting, make))
      (encloses : nesting.Encloses inner last)

namespace Operand

/-- The characters of an operand. -/
def text : Operand → List Char
  | .integer digits _ _ => digits
  | .decimal whole fraction _ _ => whole ++ '.' :: fraction
  | .reference first rest _ _ => '$' :: first :: rest
  | .word first rest _ _ => first :: rest
  | .literal first _ _ inner last _ _ => first :: (inner ++ [last])

/-- The token that an operand stands for. -/
def token : Operand → Token
  | .integer digits _ _ => .number (Number.ofDigits digits [])
  | .decimal whole fraction _ _ => .number (Number.ofDigits whole fraction)
  | .reference first rest _ _ => .reference (String.ofList (first :: rest))
  | .word first rest _ _ => Lexeme.wordToken (first :: rest)
  | .literal _ _ make inner _ _ _ => make (String.ofList inner)

/-- Whether a character right after the operand would be taken for a part of it. -/
def continues : Operand → Char → Bool
  | .integer .., c => c.isDigit || c == '.'
  | .decimal .., c => c.isDigit
  | .reference .., c => Text.isPathChar c
  | .word .., c => Text.isNameChar c
  | .literal .., _ => false

end Operand

/-- What a formula is written with. The operator `sub` also writes a negation. -/
inductive Piece where
  | operand (o : Operand)
  | operator (op : Operator)
  | opening
  | closing

namespace Piece

/-- The characters of a piece. -/
def text : Piece → List Char
  | .operand o => o.text
  | .operator op => op.symbol.toList
  | .opening => ['(']
  | .closing => [')']

/-- The lexeme that a piece is read as. -/
def lexeme : Piece → Lexeme
  | .operand o => .operand o.token
  | .operator op => .operator (op.symbol.toList.headD ' ') (some op)
  | .opening => .opening
  | .closing => .closing

/-- Whether a character right after the piece would be taken for a part of it. -/
def continues : Piece → Char → Bool
  | .operand o, c => o.continues c
  | .operator op, c =>
    match op with
    | .lt | .gt | .eq | .ne => c == '='
    | _ => false
  | .opening, _ => false
  | .closing, _ => false

/-- The piece ends where `rest` starts. -/
def EndsBefore (p : Piece) (rest : List Char) : Prop :=
  ∀ c ∈ rest.head?, p.continues c = false

end Piece

/-! ## Expressions -/

/-- The expressions of formulas. -/
inductive Expression where
  | operand (o : Operand)
  | negation (e : Expression)
  | binary (op : Operator) (lhs rhs : Expression)

namespace Operator

/-- How tightly the left operand of an operator binds at least, without parentheses. -/
def leftTier (op : Operator) : Nat :=
  if op.rightAssociative then op.tier + 1 else op.tier

/-- How tightly the right operand of an operator binds at least, without parentheses. -/
def rightTier (op : Operator) : Nat :=
  if op.rightAssociative then op.tier else op.tier + 1

end Operator

namespace Expression

/-- The reverse Polish listing of an expression: operands first, then what is done with them. -/
def listing : Expression → List Token
  | .operand o => [o.token]
  | .negation e => e.listing ++ [.negation]
  | .binary op lhs rhs => lhs.listing ++ rhs.listing ++ [.operator op]

/-- The pieces that an expression can be written with where it must bind at least as tightly as
`tier`. Parentheses may always be written. The operand of a negation binds as tightly as a power or
is another negation. A negation needs parentheses only as the left operand of a power, where nothing
but operands and parentheses can stand. A product is written with its operator, or without it unless
its right operand starts with a minus. -/
inductive Written : Nat → Expression → List Piece → Prop
  | operand {tier : Nat} (o : Operand) : Written tier (.operand o) [.operand o]
  | parens {tier : Nat} {e : Expression} {ps : List Piece} :
      Written 0 e ps → Written tier e (.opening :: (ps ++ [.closing]))
  | negation {tier : Nat} {e : Expression} {ps : List Piece} :
      tier ≤ Operator.pow.tier → Written Operator.pow.tier e ps →
        Written tier (.negation e) (.operator .sub :: ps)
  | binary {tier : Nat} {op : Operator} {lhs rhs : Expression} {ls rs : List Piece} :
      tier ≤ op.tier → Written op.leftTier lhs ls → Written op.rightTier rhs rs →
        Written tier (.binary op lhs rhs) (ls ++ .operator op :: rs)
  | juxtaposed {tier : Nat} {lhs rhs : Expression} {ls rs : List Piece} :
      tier ≤ Operator.mul.tier → Written Operator.mul.leftTier lhs ls →
        Written Operator.mul.rightTier rhs rs → rs.head? ≠ some (.operator .sub) →
          Written tier (.binary .mul lhs rhs) (ls ++ rs)

/-- Pieces in parentheses unless these can be left out. -/
def enclose (bare : Bool) (ps : List Piece) : List Piece :=
  if bare then ps else .opening :: (ps ++ [.closing])

/-- An expression with as few parentheses as possible where it must bind at least as tightly as
`tier`. -/
def minimal : Nat → Expression → List Piece
  | _, .operand o => [.operand o]
  | tier, .negation e =>
    enclose (tier ≤ Operator.pow.tier) (.operator .sub :: e.minimal Operator.pow.tier)
  | tier, .binary op lhs rhs =>
    enclose (tier ≤ op.tier) (lhs.minimal op.leftTier ++ .operator op :: rhs.minimal op.rightTier)

/-- An expression with parentheses around every operator and its operands. -/
def full : Expression → List Piece
  | .operand o => [.operand o]
  | .negation e => enclose false (.operator .sub :: e.full)
  | .binary op lhs rhs => enclose false (lhs.full ++ .operator op :: rhs.full)

/-- What can be written bare where nothing is required can be written anywhere with parentheses. -/
theorem written_enclose {bare : Bool} {tier : Nat} {e : Expression} {ps : List Piece}
    (hbare : bare = true → Written tier e ps) (hparens : Written 0 e ps) :
    Written tier e (enclose bare ps) := by
  cases bare with
  | true => exact hbare rfl
  | false => exact .parens hparens

/-- The form with fewest parentheses is one to write the expression in. -/
theorem written_minimal (e : Expression) (tier : Nat) : Written tier e (e.minimal tier) := by
  induction e generalizing tier with
  | operand o => exact .operand o
  | negation e ih =>
    refine written_enclose (fun h => ?_) ?_
    · exact .negation (of_decide_eq_true h) (ih _)
    · exact .negation (Nat.zero_le _) (ih _)
  | binary op lhs rhs ihl ihr =>
    refine written_enclose (fun h => ?_) ?_
    · exact .binary (of_decide_eq_true h) (ihl _) (ihr _)
    · exact .binary (Nat.zero_le _) (ihl _) (ihr _)

/-- The form with all parentheses is one to write the expression in, wherever it stands. -/
theorem written_full (e : Expression) (tier : Nat) : Written tier e e.full := by
  induction e generalizing tier with
  | operand o => exact .operand o
  | negation e ih => exact .parens (.negation (Nat.zero_le _) (ih _))
  | binary op lhs rhs ihl ihr => exact .parens (.binary (Nat.zero_le _) (ihl _) (ihr _))

end Expression

/-! ## Layout -/

/-- The pieces laid out as text: blanks may stand around each of them, and a piece ends where the
text after it starts. -/
inductive Layout : List Piece → List Char → Prop
  | nil {blanks : List Char} : (∀ b ∈ blanks, Text.isBlank b = true) → Layout [] blanks
  | cons {blanks rest : List Char} {p : Piece} {ps : List Piece} :
      (∀ b ∈ blanks, Text.isBlank b = true) → p.EndsBefore rest → Layout ps rest →
        Layout (p :: ps) (blanks ++ p.text ++ rest)

/-- The pieces with a blank after each of them. -/
def spaced (ps : List Piece) : List Char :=
  ps.flatMap fun p => p.text ++ [' ']

/-- A blank is no part of any piece. -/
theorem Piece.continues_space (p : Piece) : p.continues ' ' = false := by
  have hpath : Text.isPathChar ' ' = false := by decide +kernel
  have hname : Text.isNameChar ' ' = false := by decide +kernel
  cases p with
  | operand o =>
    cases o with
    | reference => exact hpath
    | word => exact hname
    | _ => rfl
  | operator op => cases op <;> rfl
  | opening => rfl
  | closing => rfl

/-- One more blank may stand in front. -/
theorem Layout.blank_cons {ps : List Piece} {text : List Char} {c : Char}
    (hc : Text.isBlank c = true) (h : Layout ps text) : Layout ps (c :: text) := by
  cases h with
  | nil hblanks => exact .nil (List.forall_mem_cons.2 ⟨hc, hblanks⟩)
  | cons hblanks hends hrest => exact .cons (List.forall_mem_cons.2 ⟨hc, hblanks⟩) hends hrest

/-- Pieces can be laid out with a blank after each of them. -/
theorem layout_spaced (ps : List Piece) : Layout ps (spaced ps) := by
  induction ps with
  | nil => exact .nil (by simp [spaced])
  | cons p ps ih =>
    have hrest : Layout ps (' ' :: spaced ps) := ih.blank_cons (by decide)
    have hends : p.EndsBefore (' ' :: spaced ps) := by
      rintro c hc
      obtain rfl : ' ' = c := by simpa using hc
      exact p.continues_space
    have hcons : Layout (p :: ps) ([] ++ p.text ++ ' ' :: spaced ps) := .cons (by simp) hends hrest
    simpa [spaced] using hcons

end LineScript
