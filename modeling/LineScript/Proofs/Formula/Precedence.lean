import LineScript.Proofs.Formula.Lexemes
import LineScript.Proofs.Formula.Spelling

set_option relaxedAutoImplicit false
set_option autoImplicit false

/-!
# Precedence and associativity

However an expression is written, with the parentheses that the tiers require, with more of them,
and with products juxtaposed or not, the pass over its text gives its reverse Polish listing.

When the pass comes to an operand, it has entries waiting that must stay until the whole operand has
been read. It leaves the operand partly in the output and partly as new entries on the stack, and
these entries are what the next operator, the closing parenthesis or the end of the text puts out.

## Main definitions

* `LineScript.Shunt.Holds` — waiting entries that no operator from a tier on puts out.
* `LineScript.Shunt.Takes` — the pass takes in lexemes as an expression.

## Main results

* `LineScript.Expression.Written.takes` — the pass takes in an expression as it is written.
* `LineScript.Formula.tokens_of_written` — every written form of an expression gives its listing.
-/

namespace LineScript

/-- Only powers group to the right, and nothing binds more tightly. -/
theorem Operator.tier_le_pow (op : Operator) :
    op.tier ≤ pow.tier ∧ (op.rightAssociative = true ↔ op.tier = pow.tier) := by
  cases op <;> decide

namespace Shunt

/-! ## Putting out a run of entries -/

/-- The tokens of waiting entries once they are put out, last one first. -/
def emitted (entries : List Pending) : List Token :=
  (entries.filterMap Pending.token?).reverse

/-- Nothing waits, and nothing is put out. -/
@[simp]
theorem emitted_nil : emitted [] = [] :=
  rfl

/-- The topmost entry is put out first. -/
@[simp]
theorem emitted_cons (p : Pending) (entries : List Pending) :
    emitted (p :: entries) = emitted entries ++ p.token?.toList := by
  cases p <;> simp [emitted, Pending.token?, List.filterMap_cons]

/-- Entries above others are put out before them. -/
@[simp]
theorem emitted_append (entries more : List Pending) :
    emitted (entries ++ more) = emitted more ++ emitted entries := by
  simp [emitted]

/-- An operator puts out all entries that precede it, up to one that does not. -/
theorem drain_append {op : Operator} {entries pending : List Pending}
    (hentries : ∀ p ∈ entries, p.precedes op = true)
    (hpending : ∀ p ∈ pending.head?, p.precedes op = false) (output : List Token) :
    drain op output (entries ++ pending) = (emitted entries ++ output, pending) := by
  induction entries generalizing output with
  | nil =>
    cases pending with
    | nil => rfl
    | cons p pending => simp [drain, hpending p rfl]
  | cons p entries ih =>
    rw [List.cons_append, drain, if_pos (hentries p List.mem_cons_self),
      ih (fun q hq => hentries q (List.mem_cons_of_mem _ hq))]
    simp

/-- A closing parenthesis puts out all entries after the opening one. -/
theorem closeParen_append {entries : List Pending} (hentries : ∀ p ∈ entries, p ≠ .opening)
    (pending : List Pending) (output : List Token) :
    closeParen output (entries ++ .opening :: pending) =
      .ok (emitted entries ++ output, pending) := by
  induction entries generalizing output with
  | nil => rfl
  | cons p entries ih =>
    have ih := ih (fun q hq => hentries q (List.mem_cons_of_mem _ hq)) (p.token?.toList ++ output)
    cases p with
    | opening => exact absurd rfl (hentries .opening List.mem_cons_self)
    | operator op => simpa [closeParen] using ih
    | negation => simpa [closeParen] using ih

/-- The end of the text puts out all entries. -/
theorem flush_of_ne_opening {entries : List Pending} (hentries : ∀ p ∈ entries, p ≠ .opening)
    (output : List Token) : flush output entries = .ok (emitted entries ++ output) := by
  induction entries generalizing output with
  | nil => rfl
  | cons p entries ih =>
    have ih := ih (fun q hq => hentries q (List.mem_cons_of_mem _ hq)) (p.token?.toList ++ output)
    cases p with
    | opening => exact absurd rfl (hentries .opening List.mem_cons_self)
    | operator op => simpa [flush] using ih
    | negation => simpa [flush] using ih

/-! ## What waits before an operand -/

/-- No operator that binds at least as tightly as `tier` puts out any of the waiting entries. -/
def Holds (tier : Nat) (pending : List Pending) : Prop :=
  ∀ op : Operator, tier ≤ op.tier → ∀ p ∈ pending.head?, p.precedes op = false

/-- Where nothing waits, nothing is put out. -/
theorem holds_nil (tier : Nat) : Holds tier [] := by
  simp [Holds]

/-- Nothing is put out past an open parenthesis. -/
theorem holds_opening (tier : Nat) (pending : List Pending) : Holds tier (.opening :: pending) := by
  simp [Holds, Pending.precedes, Pending.tier?]

/-- A negation waits until a power after it is complete. -/
theorem holds_negation (pending : List Pending) :
    Holds Operator.pow.tier (.negation :: pending) := by
  intro op htier p hp
  obtain rfl : Pending.negation = p := by simpa using hp
  cases op <;> first | rfl | simp [Operator.tier] at htier

/-- An operator waits until its right operand is complete. -/
theorem holds_operator (op : Operator) (pending : List Pending) :
    Holds op.rightTier (.operator op :: pending) := by
  intro op' htier p hp
  obtain rfl : Pending.operator op = p := by simpa using hp
  have hop := op.tier_le_pow
  have hop' := op'.tier_le_pow
  simp only [Pending.precedes, Pending.tier?]
  unfold Operator.rightTier at htier
  cases hright : op.rightAssociative <;> cases hright' : op'.rightAssociative
  all_goals
    simp only [hright, hright', Bool.false_eq_true, if_false, if_true, true_iff, false_iff,
      decide_eq_false_iff_not] at *
    omega

/-- After the left operand of an operator, the entries it has left precede the operator. -/
theorem precedes_of_leftTier {op : Operator} {p : Pending} {tier : Nat} (hp : p.tier? = some tier)
    (htier : min op.leftTier Operator.negationTier ≤ tier)
    (hpow : op.leftTier ≤ Operator.pow.tier) :
    p.precedes op = true := by
  have hop := op.tier_le_pow
  have hneg : Operator.pow.tier = Operator.negationTier + 1 := rfl
  simp only [Pending.precedes, hp]
  unfold Operator.leftTier at htier hpow
  cases hright : op.rightAssociative
  all_goals
    simp only [hright, Bool.false_eq_true, if_false, if_true, true_iff, false_iff,
      decide_eq_true_eq] at *
    omega

/-! ## Taking in an expression -/

/-- The pass takes in the lexemes as the expression `e`, wherever an operand is expected and the
entries waiting there hold from `tier` on. What has not yet been put out of `e` waits above them,
and binds tightly enough to be put out by any operator that `e` can be the left operand of. -/
def Takes (tier : Nat) (e : Expression) (lexemes : List Lexeme) : Prop :=
  ∀ (output : List Token) (pending : List Pending), Holds tier pending →
    ∃ output' entries, lexemes.foldlM feed ⟨output, pending, false⟩ =
        .ok ⟨output', entries ++ pending, true⟩ ∧
      emitted entries ++ output' = e.listing.reverse ++ output ∧
      (∀ p ∈ entries, ∃ t, p.tier? = some t ∧ min tier Operator.negationTier ≤ t) ∧
      (Operator.pow.tier < tier → entries = [])

/-- An entry with a tier is no parenthesis. -/
theorem ne_opening_of_tier? {p : Pending} {tier bound : Nat}
    (h : ∃ t, p.tier? = some t ∧ min tier bound ≤ t) : p ≠ .opening := by
  rintro rfl
  obtain ⟨t, ht, -⟩ := h
  cases ht

/-- An operand is put out at once. -/
theorem takes_operand (tier : Nat) (o : Operand) :
    Takes tier (.operand o) [Lexeme.operand o.token] := by
  intro output pending _
  exact ⟨o.token :: output, [], rfl, rfl, by simp, fun _ => rfl⟩

/-- Parentheses shield their contents from what waits outside, and put out all of them. -/
theorem Takes.parens {e : Expression} {lexemes : List Lexeme} (h : Takes 0 e lexemes) (tier : Nat) :
    Takes tier e (.opening :: (lexemes ++ [.closing])) := by
  intro output pending _
  obtain ⟨output', entries, hfold, houtput, htiers, -⟩ :=
    h output (.opening :: pending) (holds_opening 0 pending)
  refine ⟨emitted entries ++ output', [], ?_, houtput, by simp, fun _ => rfl⟩
  have hopen : feed ⟨output, pending, false⟩ .opening = .ok ⟨output, .opening :: pending, false⟩ :=
    rfl
  have hclose : feed ⟨output', entries ++ .opening :: pending, true⟩ .closing =
      .ok ⟨emitted entries ++ output', pending, true⟩ := by
    simp only [feed, if_true]
    rw [closeParen_append fun p hp => ne_opening_of_tier? (htiers p hp)]
  rw [List.foldlM_cons, hopen]
  change List.foldlM feed _ (lexemes ++ [.closing]) = _
  rw [List.foldlM_append, hfold]
  change List.foldlM feed _ [Lexeme.closing] = _
  rw [List.foldlM_cons, hclose]
  rfl

/-- A minus where an operand is expected waits for the operand after it. -/
theorem Takes.negation {e : Expression} {lexemes : List Lexeme} {tier : Nat}
    (h : Takes Operator.pow.tier e lexemes) (htier : tier ≤ Operator.pow.tier) :
    Takes tier (.negation e) (.operator '-' (some .sub) :: lexemes) := by
  intro output pending _
  obtain ⟨output', entries, hfold, houtput, htiers, -⟩ :=
    h output (.negation :: pending) (holds_negation pending)
  refine ⟨output', entries ++ [.negation], ?_, ?_, ?_, fun hlt => absurd htier (by omega)⟩
  · rw [List.append_assoc]
    exact hfold
  · simp [houtput, Pending.token?, Expression.listing]
  · intro p hp
    rcases List.mem_append.1 hp with hp | hp
    · obtain ⟨t, ht, hle⟩ := htiers p hp
      refine ⟨t, ht, Nat.le_trans (Nat.min_le_right _ _) (Nat.le_trans ?_ hle)⟩
      decide
    · obtain rfl : p = .negation := by simpa using hp
      exact ⟨_, rfl, Nat.min_le_right _ _⟩

/-- An operator after its left operand puts out what is left of that, and nothing below. -/
theorem pushOperator_of_tiers {op : Operator} {tier : Nat} {entries pending : List Pending}
    (htier : tier ≤ op.tier) (hpending : Holds tier pending)
    (htiers : ∀ p ∈ entries, ∃ t, p.tier? = some t ∧ min op.leftTier Operator.negationTier ≤ t)
    (hpow : Operator.pow.tier < op.leftTier → entries = []) (output : List Token) :
    pushOperator ⟨output, entries ++ pending, true⟩ op =
      ⟨emitted entries ++ output, .operator op :: pending, true⟩ := by
  have hprecedes : ∀ p ∈ entries, p.precedes op = true := by
    intro p hp
    obtain ⟨t, ht, hle⟩ := htiers p hp
    refine precedes_of_leftTier ht hle (Nat.le_of_not_lt fun hlt => ?_)
    rw [hpow hlt] at hp
    cases hp
  simp only [pushOperator]
  rw [drain_append hprecedes (hpending op htier)]

/-- **An operator between its operands.** The step of the pass between them is left open: it is that
of a written operator, and that of a juxtaposition.

**Proof sketch.** The left operand is taken with what was pending, the operator emits what binds at
least as tightly as itself, and the right operand is taken above the operator. Since the tiers of
both operands are at least `tier`, what is left pending at the end has tiers of at least `tier`,
too. -/
theorem Takes.binary {op : Operator} {lhs rhs : Expression} {ls rs lexemes : List Lexeme}
    {tier : Nat} (hlhs : Takes op.leftTier lhs ls) (hrhs : Takes op.rightTier rhs rs)
    (htier : tier ≤ op.tier)
    (hstep : ∀ st : Shunt, st.expectsOperator = true →
      lexemes.foldlM feed st =
        rs.foldlM feed { st.pushOperator op with expectsOperator := false }) :
    Takes tier (.binary op lhs rhs) (ls ++ lexemes) := by
  intro output pending hpending
  have hleft : tier ≤ op.leftTier := by
    unfold Operator.leftTier
    split <;> omega
  have hright : tier ≤ op.rightTier := by
    unfold Operator.rightTier
    split <;> omega
  have hbound := op.tier_le_pow.1
  obtain ⟨output₁, entries₁, hfold₁, houtput₁, htiers₁, hpow₁⟩ :=
    hlhs output pending fun op' h => hpending op' (Nat.le_trans hleft h)
  obtain ⟨output₂, entries₂, hfold₂, houtput₂, htiers₂, -⟩ :=
    hrhs (emitted entries₁ ++ output₁) (.operator op :: pending) (holds_operator op pending)
  refine ⟨output₂, entries₂ ++ [.operator op], ?_, ?_, ?_, fun hlt => absurd htier (by omega)⟩
  · rw [List.foldlM_append, hfold₁]
    change lexemes.foldlM feed _ = _
    -- the operator emits all that the left operand has left pending
    rw [hstep _ rfl, pushOperator_of_tiers htier hpending htiers₁ hpow₁, List.append_assoc]
    exact hfold₂
  · simp [houtput₂, houtput₁, Pending.token?, Expression.listing]
  · intro p hp
    rcases List.mem_append.1 hp with hp | hp
    · obtain ⟨t, ht, hle⟩ := htiers₂ p hp
      exact ⟨t, ht, by omega⟩
    · obtain rfl : p = .operator op := by simpa using hp
      exact ⟨op.tier, rfl, Nat.le_trans (Nat.min_le_left _ _) htier⟩

/-- Where an operator is due, an operand or a parenthesis is taken in as after a written `*`. -/
theorem foldlM_feed_juxtaposed {st : Shunt} {lexeme : Lexeme} {lexemes : List Lexeme}
    (hst : st.expectsOperator = true)
    (hlexeme : lexeme = .opening ∨ ∃ token, lexeme = .operand token) :
    (lexeme :: lexemes).foldlM feed st =
      (lexeme :: lexemes).foldlM feed { st.pushOperator .mul with expectsOperator := false } := by
  have hfeed : st.feed lexeme =
      feed { st.pushOperator .mul with expectsOperator := false } lexeme := by
    rcases hlexeme with rfl | ⟨token, rfl⟩ <;> simp [feed, beginOperand, hst]
  rw [List.foldlM_cons, List.foldlM_cons, hfeed]

end Shunt

open Shunt (Takes)

namespace Expression

/-- An expression starts with an operand, a minus or an opening parenthesis. -/
theorem Written.exists_eq_cons {tier : Nat} {e : Expression} {ps : List Piece}
    (h : Written tier e ps) :
    ∃ p rest, ps = p :: rest ∧ (p = .opening ∨ p = .operator .sub ∨ ∃ o, p = .operand o) := by
  induction h with
  | operand o => exact ⟨_, _, rfl, .inr (.inr ⟨o, rfl⟩)⟩
  | parens _ _ => exact ⟨_, _, rfl, .inl rfl⟩
  | negation _ _ _ => exact ⟨_, _, rfl, .inr (.inl rfl)⟩
  | binary _ _ _ ihl _ =>
    obtain ⟨p, rest, rfl, hp⟩ := ihl
    exact ⟨p, _, rfl, hp⟩
  | juxtaposed _ _ _ _ ihl _ =>
    obtain ⟨p, rest, rfl, hp⟩ := ihl
    exact ⟨p, _, rfl, hp⟩

/-- **The pass takes in an expression as it is written**, by induction on the way it is written. -/
theorem Written.takes {tier : Nat} {e : Expression} {ps : List Piece} (h : Written tier e ps) :
    Takes tier e (ps.map Piece.lexeme) := by
  induction h with
  | operand o => exact Shunt.takes_operand _ o
  | parens _ ih => simpa [Piece.lexeme] using ih.parens _
  | negation htier _ ih => exact ih.negation htier
  | @binary tier op lhs rhs ls rs htier _ _ ihl ihr =>
    rw [List.map_append]
    refine ihl.binary ihr htier fun st hst => ?_
    rw [List.map_cons, List.foldlM_cons]
    simp only [Piece.lexeme, Shunt.feed, hst, if_true]
    rfl
  | @juxtaposed tier lhs rhs ls rs htier _ hrs hhead ihl ihr =>
    rw [List.map_append]
    refine ihl.binary ihr htier fun st hst => ?_
    obtain ⟨p, rest, rfl, hp⟩ := hrs.exists_eq_cons
    rw [List.map_cons]
    refine Shunt.foldlM_feed_juxtaposed hst ?_
    rcases hp with rfl | rfl | ⟨o, rfl⟩
    · exact .inl rfl
    · exact absurd rfl hhead
    · exact .inr ⟨o.token, rfl⟩

end Expression

namespace Formula

open Expression (Written)

/-- A written expression, laid out as text, has the listing of the expression as its tokens. -/
theorem tokens_of_layout {e : Expression} {ps : List Piece} {text : String} (h : Written 0 e ps)
    (htext : Layout ps text.toList) : tokens text = .ok e.listing := by
  obtain ⟨output, entries, hfold, houtput, htiers, -⟩ := h.takes [] [] (Shunt.holds_nil 0)
  have hscan : Shunt.start.scan (Text.trimChars text.toList) = .ok ⟨output, entries, true⟩ := by
    rw [Shunt.scan_of_reads htext.trimChars.reads, ← List.append_nil entries]
    exact hfold
  have hflush : Shunt.flush output entries = .ok e.listing.reverse := by
    rw [Shunt.flush_of_ne_opening fun p hp => Shunt.ne_opening_of_tier? (htiers p hp), houtput,
      List.append_nil]
  unfold tokens
  rw [hscan]
  simp [Shunt.finish, hflush]

/-- **Precedence and associativity.** Every written form of an expression, with at least the
parentheses that the tiers require and however it is laid out, has the reverse Polish listing of the
expression as its tokens. In particular, the forms with fewest and with all parentheses have the
same tokens. -/
theorem tokens_of_written (e : Expression) :
    (∀ (ps : List Piece) (text : String), Written 0 e ps → Layout ps text.toList →
      tokens text = .ok e.listing) ∧
    tokens (String.ofList (spaced (e.minimal 0))) = .ok e.listing ∧
    tokens (String.ofList (spaced e.full)) = .ok e.listing := by
  refine ⟨fun ps text h htext => tokens_of_layout h htext, ?_, ?_⟩
  · exact tokens_of_layout (e.written_minimal 0) (by simpa using layout_spaced _)
  · exact tokens_of_layout (e.written_full 0) (by simpa using layout_spaced _)

/-- A negation times the power of a sum, the product juxtaposed. -/
theorem tokens_of_written_product :
    ∃ (e : Expression) (ps : List Piece), Written 0 e ps ∧ Layout ps "- a ( b + c ) ^ d ".toList ∧
      tokens "- a ( b + c ) ^ d " = .ok e.listing ∧
      e.listing = [.word "a", .negation, .word "b", .word "c", .operator .add, .word "d",
        .operator .pow, .operator .mul] := by
  let word (c : Char) (hc : Text.isNameStart c = true) : Operand := .word c [] hc (by simp)
  let a := word 'a' (by decide +kernel)
  let b := word 'b' (by decide +kernel)
  let c := word 'c' (by decide +kernel)
  let d := word 'd' (by decide +kernel)
  have hsum : Written 0 (.binary .add (.operand b) (.operand c))
      [.operand b, .operator .add, .operand c] :=
    .binary (by decide) (.operand b) (.operand c)
  have hpower : Written Operator.mul.rightTier
      (.binary .pow (.binary .add (.operand b) (.operand c)) (.operand d)) _ :=
    .binary (by decide) (.parens hsum) (.operand d)
  have hwritten : Written 0 _ _ :=
    .juxtaposed (by decide) (.negation (by decide) (.operand a)) hpower (by simp)
  have hlayout : Layout _ "- a ( b + c ) ^ d ".toList := layout_spaced
    [.operator .sub, .operand a, .opening, .operand b, .operator .add, .operand c, .closing,
      .operator .pow, .operand d]
  exact ⟨_, _, hwritten, hlayout, (tokens_of_written _).1 _ _ hwritten hlayout, rfl⟩

end Formula

end LineScript
