import Mathlib.Data.List.Infix
import LineScript.Proofs.Formula.Pieces

set_option relaxedAutoImplicit false
set_option autoImplicit false

/-!
# Words that stand apart

A word may stand between two blanks of a formula as an operand of its own, or inside the text of a
literal. There is no third way: no other operand has blanks in it, and the characters that close
literals belong to no word.

## Main definitions

* `LineScript.Text.StandsApart` — a word between two blanks.
* `LineScript.Token.literalText?` — the text between the delimiters of a literal.
* `LineScript.Token.LiteralHolds` — a word that stands apart in the text of a literal.

## Main results

* `LineScript.Lexeme.Reads.standsApart` — a word that stands apart is an operand or inside a
  literal.
* `LineScript.Formula.literalHolds_of_standsApart`, `LineScript.Formula.standsApart_of_literalHolds`
  — without such an operand, a word stands apart in a formula exactly if it does in one of its
  literals.
-/

namespace LineScript

/-! ## Words between blanks -/

namespace Text

/-- A word stands apart in a text: right between two blanks. -/
def StandsApart (word cs : List Char) : Prop :=
  ∃ b b', isBlank b = true ∧ isBlank b' = true ∧ b :: (word ++ [b']) <:+: cs

variable {word cs ds : List Char}

/-- What stands apart in a part of a text stands apart in the text. -/
theorem StandsApart.mono (h : StandsApart word cs) (hpart : cs <:+: ds) : StandsApart word ds := by
  obtain ⟨b, b', hb, hb', hcs⟩ := h
  exact ⟨b, b', hb, hb', hcs.trans hpart⟩

/-- The two blanks are characters of the text, so there are finitely many to try. -/
instance (word cs : List Char) : Decidable (StandsApart word cs) :=
  decidable_of_iff
    ((cs.any fun b => cs.any fun b' =>
      isBlank b && isBlank b' && decide (b :: (word ++ [b']) <:+: cs)) = true)
    (by
      simp only [List.any_eq_true, Bool.and_eq_true, decide_eq_true_eq, and_assoc]
      exact ⟨fun ⟨b, _, b', _, h⟩ => ⟨b, b', h⟩, fun ⟨b, b', hb, hb', h⟩ =>
        ⟨b, h.subset (by simp), b', h.subset (by simp), hb, hb', h⟩⟩)

/-- A word stands apart right after the first character, or further on. -/
theorem standsApart_cons_iff {c : Char} :
    StandsApart word (c :: cs) ↔
      (isBlank c = true ∧ ∃ b, isBlank b = true ∧ word ++ [b] <+: cs) ∨ StandsApart word cs := by
  constructor
  · rintro ⟨b, b', hb, hb', h⟩
    rcases List.infix_cons_iff.1 h with hstarts | hpart
    · obtain ⟨rfl, hword⟩ := List.cons_prefix_cons.1 hstarts
      exact .inl ⟨hb, b', hb', hword⟩
    · exact .inr ⟨b, b', hb, hb', hpart⟩
  · rintro (⟨hc, b, hb, hstarts⟩ | h)
    · exact ⟨c, b, hc, hb, (List.cons_prefix_cons.2 ⟨rfl, hstarts⟩).isInfix⟩
    · exact h.mono (List.suffix_cons c cs).isInfix

/-- Characters that are no blanks in front of a text make no difference. -/
theorem StandsApart.of_append (hcs : ∀ c ∈ cs, isBlank c = false)
    (h : StandsApart word (cs ++ ds)) :
    StandsApart word ds := by
  induction cs with
  | nil => exact h
  | cons c cs ih =>
    have hc : isBlank c = false := hcs c List.mem_cons_self
    rcases standsApart_cons_iff.1 h with ⟨hblank, -⟩ | h
    · rw [hc] at hblank
      cases hblank
    · exact ih (fun d hd => hcs d (List.mem_cons_of_mem c hd)) h

/-- What starts a text and lacks one of its characters ends before that. -/
theorem prefix_of_prefix_append_cons {start : List Char} {last : Char} (hlast : last ∉ start)
    (h : start <+: cs ++ last :: ds) : start <+: cs := by
  rcases Nat.lt_or_ge cs.length start.length with hlt | hle
  · have hstarts : cs ++ [last] <+: start :=
      List.prefix_of_prefix_length_le ⟨ds, by simp⟩ h (by simpa using Nat.succ_le_of_lt hlt)
    exact absurd (hstarts.subset (by simp)) hlast
  · exact List.prefix_of_prefix_length_le h (List.prefix_append cs _) hle

/-- A word stands apart on one side of a character that is neither a blank nor one of its own. -/
theorem StandsApart.of_append_cons {last : Char} (hlast : isBlank last = false)
    (hword : last ∉ word)
    (h : StandsApart word (cs ++ last :: ds)) : StandsApart word cs ∨ StandsApart word ds := by
  induction cs with
  | nil =>
    have hafter : StandsApart word ([last] ++ ds) := h
    exact .inr (hafter.of_append (by simpa using hlast))
  | cons c cs ih =>
    rcases standsApart_cons_iff.1 h with ⟨hc, b, hb, hstarts⟩ | h
    · have hne : last ∉ word ++ [b] := by
        rw [List.mem_append, List.mem_singleton]
        rintro (hmem | rfl)
        · exact hword hmem
        · rw [hb] at hlast
          cases hlast
      exact .inl (standsApart_cons_iff.2
        (.inl ⟨hc, b, hb, prefix_of_prefix_append_cons hne hstarts⟩))
    · exact (ih h).imp_left fun h => standsApart_cons_iff.2 (.inr h)

end Text

/-! ## Literals -/

/-- The text between the delimiters of a literal. -/
def Token.literalText? : Token → Option String
  | .singleQuoted s => some s
  | .doubleQuoted s => some s
  | .collection s => some s
  | .call s => some s
  | _ => none

/-- A word stands apart in the text of a literal among the tokens. -/
def Token.LiteralHolds (word : List Char) (ts : List Token) : Prop :=
  ∃ token ∈ ts, ∃ text, token.literalText? = some text ∧ Text.StandsApart word text.toList

/-- Whether a literal holds a word can be checked. -/
theorem Token.not_literalHolds_of_all {word : List Char} {ts : List Token}
    (h : ts.all (fun token => token.literalText?.all fun text =>
      !decide (Text.StandsApart word text.toList)) =
      true) : ¬LiteralHolds word ts := by
  rintro ⟨token, hmem, text, htext, hapart⟩
  have hnot := List.all_eq_true.1 h token hmem
  simp [htext, hapart] at hnot

/-- An ordinary character closes no literal. -/
theorem Nesting.atTop_feed_of_isOrdinary {n n' : Nesting} {c : Char} (hc : isOrdinary c = true)
    (htop : n.atTop = false) (h : n.feed c = .ok n') : n'.atTop = false := by
  cases hquote : n.quote with
  | none =>
    rw [feed_of_isOrdinary hc hquote] at h
    cases h
    exact htop
  | some q =>
    have hq : c ≠ q.char := by
      rintro rfl
      cases q <;> cases hc
    rw [feed, hquote] at h
    cases h
    unfold feedQuoted
    split
    · simp [atTop, hquote]
    split
    · simp [atTop, hquote]
    · simpa [hq] using htop

/-- Literals that are open are closed by a character that is not an ordinary one. -/
theorem Nesting.Encloses.isOrdinary_last {n : Nesting} {inner : List Char} {last : Char}
    (h : n.Encloses inner last) (htop : n.atTop = false) : isOrdinary last = false := by
  induction h with
  | @close n n' last hfeed hclosed =>
    cases hlast : isOrdinary last with
    | false => rfl
    | true =>
      rw [atTop_feed_of_isOrdinary hlast htop hfeed] at hclosed
      cases hclosed
  | inside _ hopen _ ih => exact ih hopen

namespace Lexeme

variable {c : Char} {cs rest : List Char} {lexemes : List Lexeme} {token : Token}

/-- A character that opens a literal leaves it open, and makes a token with the text of it. -/
theorem of_literal? {n : Nesting} {make : String → Token} (h : literal? c = some (n, make)) :
    n.atTop = false ∧ ∀ text, (make text).literalText? = some text := by
  cases opens_of_literal? h <;> exact ⟨rfl, fun _ => rfl⟩

/-- A bare word has no text of a literal. -/
theorem literalText?_wordToken (word : List Char) : (wordToken word).literalText? = none := by
  unfold wordToken
  split <;> rfl

/-- What is read is a literal, or has no blank in it.

**Proof sketch.** A lexeme that is read is a piece (`exists_piece_of_read`). By cases over the
pieces: all of them but literals consist of characters of one class, none of which is a blank. -/
theorem cases_of_read {lexeme : Lexeme} (h : read c cs = .ok (lexeme, rest))
    (hoperator : ∀ d, d ≠ '-' → lexeme ≠ .operator d none) :
    (∃ token inner last, lexeme = .operand token ∧ token.literalText? = some (String.ofList inner) ∧
      cs = inner ++ last :: rest ∧ Nesting.isOrdinary last = false) ∨
    (∀ token, lexeme = .operand token → token.literalText? = none) ∧
      ∃ taken, c :: cs = taken ++ rest ∧ ∀ d ∈ taken, Text.isBlank d = false := by
  obtain ⟨p, rfl, htext, -⟩ := exists_piece_of_read h hoperator
  have hsolid : ∀ {taken : List Char}, taken.all (fun d => !Text.isBlank d) = true →
      ∀ d ∈ taken, Text.isBlank d = false := fun hall => by simpa using hall
  cases p with
  | opening => exact .inr ⟨nofun, _, htext, hsolid rfl⟩
  | closing => exact .inr ⟨nofun, _, htext, hsolid rfl⟩
  | operator op => exact .inr ⟨nofun, _, htext, hsolid (by cases op <;> rfl)⟩
  | operand o =>
    cases o with
    | literal first n make inner last hliteral hencloses =>
      obtain ⟨htop, hmake⟩ := of_literal? hliteral
      refine .inl ⟨_, inner, last, rfl, hmake _, ?_, hencloses.isOrdinary_last htop⟩
      simpa [Piece.text, Operand.text] using And.right (List.cons.inj htext)
    | integer digits _ hdigits =>
      refine .inr ⟨fun token htoken => ?_, _, htext, fun d hd => ?_⟩
      · cases htoken
        rfl
      · exact Text.isBlank_of_isPathChar (Text.isPathChar_of_isDigit (hdigits d hd))
    | decimal whole fraction _ hdigits =>
      refine .inr ⟨fun token htoken => ?_, _, htext, fun d hd => ?_⟩
      · cases htoken
        rfl
      · have hmem : d ∈ whole ++ fraction ∨ d = '.' := by
          simp only [Piece.text, Operand.text, List.mem_append, List.mem_cons] at hd ⊢
          tauto
        rcases hmem with hmem | rfl
        · exact Text.isBlank_of_isPathChar (Text.isPathChar_of_isDigit (hdigits d hmem))
        · decide
    | reference first path hstart hpath =>
      refine .inr ⟨fun token htoken => ?_, _, htext, ?_⟩
      · cases htoken
        rfl
      · rw [Piece.text, Operand.text, List.forall_mem_cons]
        exact ⟨by decide, fun d hd =>
          Text.isBlank_of_isPathChar (Operand.isPathChar_of_mem_cons hstart hpath d hd)⟩
    | word first name hstart hname =>
      refine .inr ⟨fun token htoken => ?_, _, htext, fun d hd => ?_⟩
      · cases htoken
        exact literalText?_wordToken _
      · refine Text.isBlank_of_isPathChar
          (Operand.isPathChar_of_mem_cons hstart (fun e he => ?_) d hd)
        simp [Text.isPathChar, hname e he]

/-! ## Words in formulas -/

/-- The text of a literal stands in the text that is read. -/
theorem Reads.infix_of_literalText? (h : Reads cs lexemes)
    (hoperator : ∀ d, d ≠ '-' → .operator d none ∉ lexemes) (hmem : .operand token ∈ lexemes)
    {text : String} (htext : token.literalText? = some text) : text.toList <:+: cs := by
  induction h with
  | nil => cases hmem
  | @blank c cs _ _ _ ih => exact (ih hoperator hmem).trans (List.suffix_cons c cs).isInfix
  | @lexeme c cs rest lexeme lexemes _ hread _ ih =>
    have hread' := cases_of_read hread fun d hd heq => hoperator d hd (heq ▸ List.mem_cons_self)
    rcases List.mem_cons.1 hmem with rfl | hmem
    · rcases hread' with ⟨_, inner, last, hlexeme, hinner, rfl, -⟩ | ⟨hnone, -⟩
      · cases hlexeme
        rw [htext, Option.some.injEq] at hinner
        rw [hinner, String.toList_ofList]
        exact ⟨[c], last :: rest, by simp⟩
      · rw [hnone token rfl] at htext
        cases htext
    · have hrest : rest <:+: c :: cs := by
        rcases hread' with ⟨_, inner, last, -, -, rfl, -⟩ | ⟨-, taken, htaken, -⟩
        · exact ⟨c :: (inner ++ [last]), [], by simp⟩
        · exact ⟨taken, [], by rw [List.append_nil, htaken]⟩
      exact (ih (fun d hd hd' => hoperator d hd (List.mem_cons_of_mem _ hd')) hmem).trans hrest

section Word

variable {first : Char} {name : List Char} (hstart : Text.isNameStart first = true)
  (hname : ∀ d ∈ name, Text.isNameChar d = true)
include hstart hname

/-- All characters of a word may stand in a path. -/
theorem isPathChar_of_mem_word {d : Char} (hd : d ∈ first :: name) : Text.isPathChar d = true :=
  Operand.isPathChar_of_mem_cons hstart (fun e he => by simp [Text.isPathChar, hname e he]) d hd

/-- A word at the start of a text, before a blank or its end, is read as an operand. -/
theorem Reads.operand_of_starts (h : Reads cs lexemes) {b : Char} (hb : Text.isBlank b = true)
    (hstarts : first :: name ++ [b] <+: cs ++ [' ']) :
    .operand (wordToken (first :: name)) ∈ lexemes := by
  have hnot : ∀ d, Text.isBlank d = true → d ∉ first :: name := by
    intro d hd hmem
    rw [Text.isBlank_of_isPathChar (isPathChar_of_mem_word hstart hname hmem)] at hd
    cases hd
  obtain ⟨rest, rfl⟩ :=
    Text.prefix_of_prefix_append_cons (hnot ' ' rfl) ((List.prefix_append _ _).trans hstarts)
  rw [List.append_assoc, List.prefix_append_right_inj] at hstarts
  have hrest : ∀ d ∈ rest.head?, Text.isNameChar d = false := by
    intro d hd
    obtain ⟨ds, rfl⟩ := List.head?_eq_some_iff.1 hd
    obtain ⟨rfl, -⟩ := List.cons_prefix_cons.1 hstarts
    rw [Bool.eq_false_iff]
    intro hd
    rw [Text.isBlank_of_isPathChar (by simp [Text.isPathChar, hd])] at hb
    cases hb
  cases h with
  | blank hblank _ => exact absurd List.mem_cons_self (hnot first hblank)
  | lexeme _ hread _ =>
    rw [List.append_eq, read_word hstart hname hrest] at hread
    cases hread
    exact List.mem_cons_self

/-- **A word that stands apart** is an operand of its own, or stands apart in a literal. The end of
the text counts as a blank. -/
theorem Reads.standsApart (h : Reads cs lexemes)
    (hoperator : ∀ d, d ≠ '-' → .operator d none ∉ lexemes)
    (hapart : Text.StandsApart (first :: name) (cs ++ [' '])) :
    .operand (wordToken (first :: name)) ∈ lexemes ∨
      ∃ token text, .operand token ∈ lexemes ∧ token.literalText? = some text ∧
        Text.StandsApart (first :: name) text.toList := by
  induction h with
  | nil =>
    obtain ⟨b, b', -, -, hpart⟩ := hapart
    have hlength := hpart.length_le
    simp at hlength
  | blank hblank hreads ih =>
    rcases Text.standsApart_cons_iff.1 hapart with ⟨-, b, hb, hstarts⟩ | hapart
    · exact .inl (operand_of_starts hstart hname hreads hb hstarts)
    · exact ih hoperator hapart
  | @lexeme c cs rest lexeme lexemes hc hread _ ih =>
    -- past what is read here, the lexemes after it have the word
    have hlater : Text.StandsApart (first :: name) (rest ++ [' ']) →
        .operand (wordToken (first :: name)) ∈ lexeme :: lexemes ∨
          ∃ token text, .operand token ∈ lexeme :: lexemes ∧ token.literalText? = some text ∧
            Text.StandsApart (first :: name) text.toList := fun hapart =>
      (ih (fun d hd hmem => hoperator d hd (List.mem_cons_of_mem _ hmem)) hapart).imp
        (List.mem_cons_of_mem lexeme) fun ⟨token, text, hmem, htext⟩ =>
          ⟨token, text, List.mem_cons_of_mem lexeme hmem, htext⟩
    rcases cases_of_read hread fun d hd heq => hoperator d hd (heq ▸ List.mem_cons_self) with
      ⟨token, inner, last, rfl, htext, rfl, hlast⟩ | ⟨-, taken, htaken, hnot⟩
    · have hclass : ∀ p : Char → Bool, Nesting.isOrdinaryClass p = true → p last = false := by
        intro p hp
        rw [Bool.eq_false_iff]
        intro htrue
        rw [Nesting.isOrdinary_of_class hp htrue] at hlast
        cases hlast
      have hword : last ∉ first :: name := by
        intro hmem
        have hpath := isPathChar_of_mem_word hstart hname hmem
        rw [hclass Text.isPathChar (by decide)] at hpath
        cases hpath
      have hinner : Text.StandsApart (first :: name) (inner ++ last :: (rest ++ [' '])) := by
        have hafter : Text.StandsApart (first :: name)
            ([c] ++ (inner ++ last :: (rest ++ [' ']))) := by
          simpa using hapart
        exact hafter.of_append (by simpa using hc)
      rcases hinner.of_append_cons (hclass _ (by decide)) hword with hinner | hrest
      · exact .inr ⟨token, _, List.mem_cons_self, htext, by rwa [String.toList_ofList]⟩
      · exact hlater hrest
    · rw [htaken, List.append_assoc] at hapart
      exact hlater (hapart.of_append hnot)

end Word

end Lexeme

/-- No pass over a formula meets a sign that starts no operator. -/
theorem Formula.operator_none_notMem {src : String} {ts : List Token} (h : tokens src = .ok ts)
    {lexemes : List Lexeme} (hreads : Lexeme.Reads (Text.trimChars src.toList) lexemes) {d : Char}
    (hd : d ≠ '-') : .operator d none ∉ lexemes := by
  obtain ⟨ps, st, hlayout, hfold, -⟩ := exists_layout_of_tokens h
  rw [hreads.unique hlayout.reads]
  exact Shunt.operator_none_notMem hfold hd

/-- **A word that stands apart in a formula**, and is none of its operands, stands apart in a
literal. The end of the formula counts as a blank. -/
theorem Formula.literalHolds_of_standsApart {src : String} {ts : List Token}
    (h : tokens src = .ok ts)
    {first : Char} {name : List Char} (hstart : Text.isNameStart first = true)
    (hname : ∀ d ∈ name, Text.isNameChar d = true)
    (hoperand : Lexeme.wordToken (first :: name) ∉ ts)
    (hapart : Text.StandsApart (first :: name) (Text.trimChars src.toList ++ [' '])) :
    Token.LiteralHolds (first :: name) ts := by
  obtain ⟨lexemes, hreads, hmem⟩ := exists_reads_of_tokens h
  rcases hreads.standsApart hstart hname (fun _ => operator_none_notMem h hreads) hapart with
    hword | ⟨token, text, htoken, htext⟩
  · exact absurd ((hmem _).1 hword).1 hoperand
  · exact ⟨token, ((hmem _).1 htoken).1, text, htext⟩

/-- **A word that stands apart in a literal** stands apart in the formula. -/
theorem Formula.standsApart_of_literalHolds {src : String} {ts : List Token}
    (h : tokens src = .ok ts) {word : List Char} (hholds : Token.LiteralHolds word ts) :
    Text.StandsApart word (Text.trimChars src.toList) := by
  obtain ⟨token, htoken, text, htext, hapart⟩ := hholds
  obtain ⟨lexemes, hreads, hmem⟩ := exists_reads_of_tokens h
  have hoperand : token.isOperand = true := by
    cases token <;> first | rfl | cases htext
  exact hapart.mono (hreads.infix_of_literalText? (fun _ => operator_none_notMem h hreads)
    ((hmem token).2 ⟨htoken, hoperand⟩) htext)

end LineScript
