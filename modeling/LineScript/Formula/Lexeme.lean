import LineScript.Formula.Token
import LineScript.Nesting
import LineScript.Text.WordChar

set_option relaxedAutoImplicit false
set_option autoImplicit false

/-!
# Lexemes of formulas

A formula is read from left to right as operands, written operators and parentheses.

## Main definitions

* `LineScript.Lexeme` — what can stand in a formula.
* `LineScript.Lexeme.read` — the lexeme at the start of a text, and the text after it.
* `LineScript.Lexeme.Reading` — the lexemes that a text can start with.

## Main results

* `LineScript.Lexeme.reading_of_read` — what is read is one of these lexemes.
* `LineScript.Lexeme.length_read` — reading a lexeme uses up its first character.
-/

namespace LineScript

/-- A lexeme. A written operator keeps its first character, and is `none` where that character
starts no operator; whether it stands for a negation depends on what came before it. -/
inductive Lexeme where
  | operand (token : Token)
  | operator (c : Char) (op : Option Operator)
  | opening
  | closing
  deriving Repr, Inhabited

namespace Lexeme

/-- The characters that start an operator. -/
def isOperatorChar (c : Char) : Bool :=
  "+-*/%^&|~=!<>".toList.contains c

/-- The operator that `c` starts before `cs`, and the text after it. The longest form wins. -/
def readOperator (c : Char) (cs : List Char) : Option Operator × List Char :=
  match c, cs with
  | '+', cs => (some .add, cs)
  | '-', cs => (some .sub, cs)
  | '*', cs => (some .mul, cs)
  | '/', cs => (some .div, cs)
  | '%', cs => (some .rem, cs)
  | '^', cs => (some .pow, cs)
  | '&', cs => (some .and, cs)
  | '|', cs => (some .or, cs)
  | '~', cs => (some .xor, cs)
  | '<', '=' :: cs => (some .le, cs)
  | '<', cs => (some .lt, cs)
  | '>', '=' :: cs => (some .ge, cs)
  | '>', cs => (some .gt, cs)
  | '=', '=' :: '=' :: cs => (some .identical, cs)
  | '=', '=' :: cs => (some .eq, cs)
  | '!', '=' :: '=' :: cs => (some .notIdentical, cs)
  | '!', '=' :: cs => (some .ne, cs)
  | _, cs => (none, cs)

/-- The scan inside a literal, and the token its text makes, for a character that opens one. -/
def literal? (c : Char) : Option (Nesting × (String → Token)) :=
  match c with
  | '\'' => some ({ quote := some .single }, .singleQuoted)
  | '"' => some ({ quote := some .double }, .doubleQuoted)
  | '[' => some ({ brackets := 1 }, .collection)
  | '\x7b' => some ({ braces := 1 }, .call)
  | _ => none

/-- Digits, then optionally a point and more digits. -/
def readNumber (cs : List Char) : Token × List Char :=
  match cs.dropWhile Char.isDigit with
  | '.' :: rest =>
    (.number (Number.ofDigits (cs.takeWhile Char.isDigit) (rest.takeWhile Char.isDigit)),
      rest.dropWhile Char.isDigit)
  | rest => (.number (Number.ofDigits (cs.takeWhile Char.isDigit) []), rest)

/-- The token of a bare word: `true`, `false` and `null` in any case are literals. -/
def wordToken (word : List Char) : Token :=
  match String.ofList (word.map Char.toLower) with
  | "true" => .bool true
  | "false" => .bool false
  | "null" => .null
  | _ => .word (String.ofList word)

/-- Whether the text starts with a character of the class. -/
def startsWith (p : Char → Bool) : List Char → Bool
  | [] => false
  | c :: _ => p c

/-- The lexeme that starts with the non-blank character `c`, and the text after it. -/
def read (c : Char) (cs : List Char) : Except ScriptError (Lexeme × List Char) :=
  match literal? c with
  | some (nesting, token) =>
    match nesting.takeLiteral cs with
    | .error e => .error e
    | .ok (inner, rest) => .ok (.operand (token (String.ofList inner)), rest)
  | none =>
    if c = ']' then .error (.unexpectedCloser .collection)
    else if c = '\x7d' then .error (.unexpectedCloser .call)
    else if isOperatorChar c then
      let (op, rest) := readOperator c cs
      .ok (.operator c op, rest)
    else if c = '(' then .ok (.opening, cs)
    else if c = ')' then .ok (.closing, cs)
    else if c.isDigit || (c == '.' && startsWith Char.isDigit cs) then
      let (token, rest) := readNumber (c :: cs)
      .ok (.operand token, rest)
    else if c = '$' ∧ startsWith Text.isNameStart cs then
      .ok (.operand (.reference (String.ofList (cs.takeWhile Text.isPathChar))),
        cs.dropWhile Text.isPathChar)
    else if Text.isNameStart c then
      .ok (.operand (wordToken (c :: cs.takeWhile Text.isNameChar)),
        cs.dropWhile Text.isNameChar)
    else .error (.unexpectedChar c)

/-! ## What can be read -/

variable {c : Char} {cs rest : List Char}

/-- The characters that open literals, each with the scan inside the literal and the token that its
text makes. -/
inductive Opens : Char → Nesting → (String → Token) → Prop
  | single : Opens '\'' { quote := some .single } .singleQuoted
  | double : Opens '"' { quote := some .double } .doubleQuoted
  | bracket : Opens '[' { brackets := 1 } .collection
  | brace : Opens '\x7b' { braces := 1 } .call

/-- There are no other characters that open literals. -/
theorem opens_of_literal? {n : Nesting} {make : String → Token} (h : literal? c = some (n, make)) :
    Opens c n make := by
  unfold literal? at h
  split at h
  · cases h
    exact .single
  · cases h
    exact .double
  · cases h
    exact .bracket
  · cases h
    exact .brace
  · cases h

/-- A number has a point after its first digits, or ends with them. -/
theorem cases_of_readNumber (cs : List Char) :
    (∃ rest, cs.dropWhile Char.isDigit = '.' :: rest ∧ readNumber cs =
      (.number (Number.ofDigits (cs.takeWhile Char.isDigit) (rest.takeWhile Char.isDigit)),
        rest.dropWhile Char.isDigit)) ∨
    ((∀ rest, cs.dropWhile Char.isDigit ≠ '.' :: rest) ∧ readNumber cs =
      (.number (Number.ofDigits (cs.takeWhile Char.isDigit) []), cs.dropWhile Char.isDigit)) := by
  by_cases hpoint : ∃ rest, cs.dropWhile Char.isDigit = '.' :: rest
  · obtain ⟨rest, hdrop⟩ := hpoint
    exact .inl ⟨rest, hdrop, by simp only [readNumber, hdrop]⟩
  · refine .inr ⟨fun rest hdrop => hpoint ⟨rest, hdrop⟩, ?_⟩
    unfold readNumber
    split
    next rest hdrop => exact absurd ⟨rest, hdrop⟩ hpoint
    · rfl

/-- The lexemes that a text can start with, each with what it starts with and what is left. -/
inductive Reading (c : Char) (cs : List Char) : Lexeme → List Char → Prop
  | literal {n : Nesting} {make : String → Token} {inner rest : List Char} :
      literal? c = some (n, make) → n.takeLiteral cs = .ok (inner, rest) →
        Reading c cs (.operand (make (String.ofList inner))) rest
  | operator : isOperatorChar c = true →
      Reading c cs (.operator c (readOperator c cs).1) (readOperator c cs).2
  | opening : c = '(' → Reading c cs .opening cs
  | closing : c = ')' → Reading c cs .closing cs
  | number : c.isDigit = true ∨ c = '.' ∧ startsWith Char.isDigit cs = true →
      Reading c cs (.operand (readNumber (c :: cs)).1) (readNumber (c :: cs)).2
  | reference : c = '$' → startsWith Text.isNameStart cs = true →
      Reading c cs (.operand (.reference (String.ofList (cs.takeWhile Text.isPathChar))))
        (cs.dropWhile Text.isPathChar)
  | word : Text.isNameStart c = true →
      Reading c cs (.operand (wordToken (c :: cs.takeWhile Text.isNameChar)))
        (cs.dropWhile Text.isNameChar)

/-- **What is read** is one of these lexemes.

**Proof sketch.** By cases on whether `c` opens a literal. If it does, only `takeLiteral` can still
fail. If it does not, the tests of `read` are gone through in their order, and each one that
succeeds is a constructor of `Reading`. -/
theorem reading_of_read {lexeme : Lexeme} (h : read c cs = .ok (lexeme, rest)) :
    Reading c cs lexeme rest := by
  cases hliteral : literal? c with
  | some opener =>
    obtain ⟨n, make⟩ := opener
    rw [read, hliteral] at h
    cases htake : n.takeLiteral cs with
    | error e => simp [htake] at h
    | ok taken =>
      obtain ⟨inner, left⟩ := taken
      simp only [htake] at h
      cases h
      exact .literal hliteral htake
  | none =>
    simp only [read, hliteral] at h
    split at h
    · cases h
    split at h
    · cases h
    split at h
    next hoperator =>
      cases h
      exact .operator hoperator
    split at h
    next hopening =>
      cases h
      exact .opening hopening
    split at h
    next hclosing =>
      cases h
      exact .closing hclosing
    split at h
    next hnumber =>
      cases h
      exact .number (by simpa using hnumber)
    split at h
    next hreference =>
      cases h
      exact .reference hreference.1 hreference.2
    split at h
    next hword =>
      cases h
      exact .word hword
    · cases h

/-! ## What is left -/

/-- Dropping characters leaves no more than there were. -/
theorem length_dropWhile_le (p : Char → Bool) (cs : List Char) :
    (cs.dropWhile p).length ≤ cs.length :=
  (List.dropWhile_suffix p).length_le

/-- Reading an operator leaves no more than the text after its first character. -/
theorem length_readOperator (c : Char) (cs : List Char) :
    (readOperator c cs).2.length ≤ cs.length := by
  unfold readOperator
  split <;> simp only [List.length_cons] <;> omega

/-- Reading a number leaves less than there was, if it starts with a digit or a point. -/
theorem length_readNumber (cs : List Char) (h : c.isDigit = true ∨ c = '.') :
    (readNumber (c :: cs)).2.length ≤ cs.length := by
  have hcons : ∀ {rest : List Char}, c.isDigit = true →
      (c :: cs).dropWhile Char.isDigit = rest → rest.length ≤ cs.length := by
    rintro _ hdigit rfl
    rw [List.dropWhile_cons_of_pos hdigit]
    exact length_dropWhile_le _ _
  obtain ⟨rest, hdrop, hread⟩ | ⟨hpoint, hread⟩ := cases_of_readNumber (c :: cs)
  · have hfraction := length_dropWhile_le Char.isDigit rest
    rw [hread]
    refine Nat.le_trans hfraction ?_
    by_cases hdigit : c.isDigit = true
    · have hlength := hcons hdigit hdrop
      rw [List.length_cons] at hlength
      omega
    · rw [List.dropWhile_cons_of_neg hdigit] at hdrop
      obtain ⟨rfl, rfl⟩ := List.cons.inj hdrop
      exact Nat.le_refl _
  · rw [hread]
    rcases h with hdigit | rfl
    · exact hcons hdigit rfl
    · exact absurd (List.dropWhile_cons_of_neg (by decide)) (hpoint cs)

/-- Reading a lexeme leaves no more than the text after its first character. -/
theorem length_read {lexeme : Lexeme} (h : read c cs = .ok (lexeme, rest)) :
    rest.length ≤ cs.length := by
  cases reading_of_read h with
  | literal hliteral htake =>
    have hlength := Nesting.length_takeLiteral htake
    omega
  | operator hoperator => exact length_readOperator c cs
  | opening hopening => exact Nat.le_refl _
  | closing hclosing => exact Nat.le_refl _
  | number hnumber => exact length_readNumber cs (hnumber.imp_right And.left)
  | reference hdollar hstart => exact length_dropWhile_le _ _
  | word hstart => exact length_dropWhile_le _ _

end Lexeme

end LineScript
