import LineScript.Formula.Polish

set_option relaxedAutoImplicit false
set_option autoImplicit false

/-!
# The lexemes of a formula

The pass over a formula reads lexemes and takes them in as it goes. Here the two are told apart: the
text stands for a list of lexemes, and the pass takes that list in.

## Main definitions

* `LineScript.Lexeme.Reads` — the lexemes of a text, from left to right.
* `LineScript.Lexeme.operand?` — the token of an operand.

## Main results

* `LineScript.Shunt.scan_of_reads` — the pass over a text takes in its lexemes.
* `LineScript.Shunt.exists_reads_of_scan` — a pass that goes through has read the whole text.
-/

namespace LineScript

namespace Lexeme

/-- The text `cs` is read, from left to right, as blanks and the given lexemes. -/
inductive Reads : List Char → List Lexeme → Prop
  | nil : Reads [] []
  | blank {c : Char} {cs : List Char} {lexemes : List Lexeme} :
      Text.isBlank c = true → Reads cs lexemes → Reads (c :: cs) lexemes
  | lexeme {c : Char} {cs rest : List Char} {lexeme : Lexeme} {lexemes : List Lexeme} :
      Text.isBlank c = false → read c cs = .ok (lexeme, rest) → Reads rest lexemes →
        Reads (c :: cs) (lexeme :: lexemes)

/-- The token of an operand. -/
def operand? : Lexeme → Option Token
  | .operand token => some token
  | _ => none

end Lexeme

namespace Token

/-- How many operands a token takes from the stack. -/
def arity : Token → Nat
  | .operator _ => 2
  | .negation => 1
  | _ => 0

/-- Whether a token is an operand, which takes nothing and leaves a value. -/
def isOperand (token : Token) : Bool :=
  token.arity == 0

end Token

namespace Lexeme

/-- A number takes no operands. -/
@[simp]
theorem arity_readNumber (cs : List Char) : (readNumber cs).1.arity = 0 := by
  unfold readNumber
  split <;> rfl

/-- A bare word takes no operands. -/
@[simp]
theorem arity_wordToken (word : List Char) : (wordToken word).arity = 0 := by
  unfold wordToken
  split <;> rfl

/-- A literal is an operand. -/
theorem arity_literal {c : Char} {n : Nesting} {token : String → Token}
    (h : literal? c = some (n, token)) (s : String) : (token s).arity = 0 := by
  cases opens_of_literal? h <;> rfl

/-- The operands that are read are tokens without operands of their own. -/
theorem arity_of_read {c : Char} {cs rest : List Char} {token : Token}
    (h : read c cs = .ok (.operand token, rest)) : token.arity = 0 := by
  cases reading_of_read h with
  | literal hliteral _ => exact arity_literal hliteral _
  | number _ => exact arity_readNumber (c :: cs)
  | reference _ _ => rfl
  | word _ => exact arity_wordToken _

/-- All operands of a text are tokens without operands of their own. -/
theorem Reads.arity_operand {cs : List Char} {lexemes : List Lexeme} (h : Reads cs lexemes) :
    ∀ token, .operand token ∈ lexemes → token.arity = 0 := by
  induction h with
  | nil => simp
  | blank _ _ ih => exact ih
  | @lexeme c cs rest lexeme lexemes _ hread _ ih =>
    intro token hmem
    rcases List.mem_cons.1 hmem with rfl | hmem
    · exact arity_of_read hread
    · exact ih token hmem

end Lexeme

namespace Shunt

/-- The pass over a text that reads as lexemes takes these in one after another.

**Proof sketch.** Induction on the lexemes: the pass reads the first one and goes on from the state
after it. -/
theorem scan_of_reads {cs : List Char} {lexemes : List Lexeme} (h : Lexeme.Reads cs lexemes)
    (st : Shunt) : st.scan cs = lexemes.foldlM feed st := by
  induction h generalizing st with
  | nil =>
    rw [scan]
    rfl
  | blank hblank _ ih => rw [scan_of_blank hblank, ih]
  | lexeme hblank hread _ ih =>
    rw [scan_of_read hblank hread, List.foldlM_cons]
    exact bind_congr ih

/-- A pass that goes through has read the whole text and taken in its lexemes. -/
theorem exists_reads_of_scan {cs : List Char} {st st' : Shunt} (h : st.scan cs = .ok st') :
    ∃ lexemes, Lexeme.Reads cs lexemes ∧ lexemes.foldlM feed st = .ok st' := by
  fun_induction scan st cs with
  | case1 st =>
    cases h
    exact ⟨[], .nil, rfl⟩
  | case2 st c cs hblank ih =>
    obtain ⟨lexemes, hreads, hfold⟩ := ih h
    exact ⟨lexemes, .blank hblank hreads, hfold⟩
  | case3 st c cs hblank e he => cases h
  | case4 st c cs hblank lexeme rest hread _ e he => cases h
  | case5 st c cs hblank lexeme rest hread _ st'' hfeed ih =>
    obtain ⟨lexemes, hreads, hfold⟩ := ih h
    refine ⟨lexeme :: lexemes, .lexeme (by simpa using hblank) hread hreads, ?_⟩
    rw [List.foldlM_cons, hfeed]
    exact hfold

end Shunt

end LineScript
