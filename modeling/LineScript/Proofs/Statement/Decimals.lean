import LineScript.Proofs.Formula.Interpolation
import LineScript.Proofs.Number.Integers
import LineScript.Proofs.Statement.Counting

set_option relaxedAutoImplicit false
set_option autoImplicit false

/-!
# Integers in formulas

An integer in decimal notation is a formula: digits, or the negation of digits. Below `2 ^ 53` its
value is the integer itself, whoever evaluates it. A counting loop can be written with such bounds.

## Main definitions

* `LineScript.Expression.ofInt` — an integer as an expression.

## Main results

* `LineScript.Formula.evaluate_toString` — the value of an integer.
* `LineScript.Statement.parse_count_toString` — the header of a loop from integer to integer.
-/

namespace LineScript

/-- A text without blanks has none at its ends. -/
theorem Text.trimChars_eq_self {cs : List Char} (h : ∀ c ∈ cs, isBlank c = false) :
    trimChars cs = cs := by
  have hdrop : ∀ {ds : List Char}, (∀ c ∈ ds, isBlank c = false) → ds.dropWhile isBlank = ds := by
    rintro (_ | ⟨d, ds⟩) hds
    · rfl
    · rw [List.dropWhile_cons_of_neg (by simp [hds d List.mem_cons_self])]
  rw [trimChars, trimStart, hdrop h, trimEnd, hdrop (by simpa using h), List.reverse_reverse]

/-- The digits of a natural number as an operand. -/
def Operand.ofNat (m : Nat) : Operand :=
  .integer (Nat.toDigits 10 m) Nat.toDigits_ne_nil fun _ =>
    Nat.isDigit_of_mem_toDigits (by decide) (by decide)

/-- An integer as an expression. -/
def Expression.ofInt : Int → Expression
  | .ofNat m => .operand (.ofNat m)
  | .negSucc m => .negation (.operand (.ofNat (m + 1)))

/-- The pieces that an integer is written with. -/
def Piece.ofInt : Int → List Piece
  | .ofNat m => [.operand (.ofNat m)]
  | .negSucc m => [.operator .sub, .operand (.ofNat (m + 1))]

/-- The decimal digits of an integer, after a minus sign if it is negative, write an expression. -/
theorem Expression.written_ofInt (n : Int) : Written 0 (.ofInt n) (Piece.ofInt n) := by
  cases n with
  | ofNat m => exact .operand _
  | negSucc m => exact .negation (Nat.zero_le _) (.operand _)

/-- An integer in decimal notation is laid out from its pieces. -/
theorem layout_toString (n : Int) : Layout (Piece.ofInt n) (toString n).toList := by
  have hdigits : ∀ m, Layout [.operand (.ofNat m)] (Nat.toDigits 10 m) := fun m => by
    have hlayout : Layout [.operand (.ofNat m)] ([] ++ (Operand.ofNat m).text ++ []) :=
      .cons (by simp) (by simp [Piece.EndsBefore]) (.nil (by simp))
    rwa [List.nil_append, List.append_nil] at hlayout
  cases n with
  | ofNat m =>
    have htext : (toString (Int.ofNat m)).toList = Nat.toDigits 10 m := by simp [toString, Int.repr]
    rw [htext]
    exact hdigits m
  | negSucc m =>
    have htext : (toString (Int.negSucc m)).toList = [] ++ ['-'] ++ Nat.toDigits 10 (m + 1) := by
      simp [toString, Int.repr]
    rw [htext]
    exact .cons (by simp) (fun _ _ => rfl) (hdigits (m + 1))

/-- No character of an integer is blank. -/
theorem isBlank_of_mem_toString {n : Int} {c : Char} (h : c ∈ (toString n).toList) :
    Text.isBlank c = false := by
  have hdigit : ∀ {m}, c ∈ Nat.toDigits 10 m → Text.isBlank c = false := fun hc =>
    Text.isBlank_of_isPathChar
      (Text.isPathChar_of_isDigit (Nat.isDigit_of_mem_toDigits (by decide) (by decide) hc))
  cases n with
  | ofNat m => exact hdigit (by simpa [toString, Int.repr] using h)
  | negSucc m =>
    have hcases : c = '-' ∨ c ∈ Nat.toDigits 10 (m + 1) := by simpa [toString, Int.repr] using h
    rcases hcases with rfl | hc
    · decide
    · exact hdigit hc

namespace Formula

/-- The digits of an integer are read as that expression. -/
theorem tokens_toString (n : Int) : tokens (toString n) = .ok (Expression.ofInt n).listing :=
  tokens_of_layout (Expression.written_ofInt n) (layout_toString n)

/-- **The value of an integer** is the integer, whoever evaluates it. -/
theorem evaluate_toString {σ : Type} (host : Host σ) {n : Int} (h : Number.IsExact n) :
    evaluate host (toString n) = pure (.number (Number.ofInt n)) := by
  rw [evaluate_of_tokens (tokens_toString n)]
  cases n with
  | ofNat m =>
    have hvalue : Number.ofDigits (Nat.toDigits 10 m) [] = Number.ofInt (Int.ofNat m) :=
      Number.ofDigits_toDigits h
    simp only [Expression.ofInt, Expression.listing, Operand.ofNat, Operand.token, hvalue,
      evaluateTokensWith, List.foldlM_cons, List.foldlM_nil, stepToken, pure_bind]
  | negSucc m =>
    have hvalue : Number.ofDigits (Nat.toDigits 10 (m + 1)) [] =
        Number.ofInt ((m + 1 : Nat) : Int) :=
      Number.ofDigits_toDigits h
    have hneg : -Number.ofInt ((m + 1 : Nat) : Int) = Number.ofInt (Int.negSucc m) :=
      Number.neg_ofInt h (by omega)
    simp only [Expression.ofInt, Expression.listing, Operand.ofNat, Operand.token, hvalue,
      evaluateTokensWith, List.cons_append, List.nil_append, List.foldlM_cons, List.foldlM_nil,
      stepToken,
      Value.negated, Value.toNumber, hneg, pure_bind]

end Formula

/-- The tokens of an integer are numbers and negations. -/
theorem Expression.mem_listing_ofInt {n : Int} {token : Token} (h : token ∈ (ofInt n).listing) :
    token = .negation ∨ ∃ x, token = .number x := by
  cases n with
  | ofNat m => exact .inr ⟨_, by simpa [ofInt, listing, Operand.ofNat, Operand.token] using h⟩
  | negSucc m =>
    rcases List.mem_append.1 h with h | h
    · exact .inr ⟨_, by simpa [listing, Operand.ofNat, Operand.token] using h⟩
    · exact .inl (by simpa using h)

/-- No word is among the tokens of an integer. -/
theorem Expression.word_notMem_listing_ofInt (n : Int) (word : String) :
    .word word ∉ (ofInt n).listing := by
  intro h
  rcases mem_listing_ofInt h with h | ⟨x, h⟩ <;> cases h

/-- No literal is among the tokens of an integer. -/
theorem Expression.not_literalHolds_ofInt (n : Int) (word : List Char) :
    ¬Token.LiteralHolds word (ofInt n).listing := by
  rintro ⟨token, hmem, text, htext, -⟩
  rcases mem_listing_ofInt hmem with rfl | ⟨x, rfl⟩ <;> cases htext

/-- An integer can be a part of a header. -/
theorem Pattern.isPart_toString (n : Int) : IsPart (toString n) (Expression.ofInt n).listing where
  tokens := Formula.tokens_toString n
  trimmed := Text.trimChars_eq_self fun _ => isBlank_of_mem_toString
  line := by
    intro h
    cases isBlank_of_mem_toString h

/-- The step at the end of a header. -/
theorem Pattern.isTail_step {src : String} {ts : List Token} (h : IsPart src ts) :
    IsTail (" step " ++ src).toList ∧ afterStop? (" step " ++ src).toList = some (some src) := by
  have hchars : (" step " ++ src).toList =
      ' ' :: 's' :: 't' :: 'e' :: 'p' :: ' ' :: src.toList := by
    simp
  rw [hchars]
  refine ⟨⟨.inr ⟨_, rfl⟩, by simpa using h.line, ?_⟩, afterStop?_step h⟩
  rw [show ' ' :: 's' :: 't' :: 'e' :: 'p' :: ' ' :: src.toList =
    [' ', 's', 't', 'e', 'p', ' '] ++ src.toList from rfl,
    List.getLast?_append_of_ne_nil _ h.ne_nil]
  exact (Text.exists_ends_of_trimChars h.trimmed).2

/-- **The header of a loop from integer to integer**, as it is written. -/
theorem Statement.parse_count_toString {name : String}
    (hname : ∃ c taken, Text.isNameStart c = true ∧ (∀ d ∈ taken, Text.isWordChar d = true) ∧
      name.toList = c :: taken) (a b s : Int) :
    parse ("for $" ++ name ++ " = " ++ toString a ++ " to " ++ toString b ++ " step " ++
      toString s) =
      .ok (.count name (toString a) (toString b) (some (toString s))) := by
  obtain ⟨htail, hafter⟩ := Pattern.isTail_step (Pattern.isPart_toString s)
  have hiff := parse_count_iff hname (Pattern.isPart_toString a) (Pattern.isPart_toString b)
    (Expression.word_notMem_listing_ofInt a "to")
      (Expression.word_notMem_listing_ofInt b "step") htail hafter
  simpa only [String.append_assoc] using
    hiff.2 ⟨Expression.not_literalHolds_ofInt a _, Expression.not_literalHolds_ofInt b _⟩

end LineScript
