import LineScript.Proofs.Formula.Grammar
import LineScript.Proofs.Formula.Lexemes
import LineScript.Proofs.Text

set_option relaxedAutoImplicit false
set_option autoImplicit false

/-!
# Reading back what is written

Pieces laid out as text are read back as their lexemes, with or without the blanks at the two ends
of the text.

## Main results

* `LineScript.Piece.read_text` — a piece at the start of a text is read as its lexeme, up to its
  end.
* `LineScript.Layout.reads` — a laid out text reads as the lexemes of its pieces.
* `LineScript.Layout.trimChars` — a laid out text may be trimmed.
-/

namespace LineScript

/-! ## Lexemes at the start of a text -/

namespace Lexeme

/-- A character that starts neither a literal nor an operator, and is no bracket. -/
def isPlain (c : Char) : Bool :=
  Text.isPathChar c || c == '$'

/-- A plain character starts no literal. -/
theorem literal?_of_isPlain {c : Char} (h : isPlain c = true) : literal? c = none := by
  unfold literal?
  split
  all_goals first | rfl | (revert h; decide)

/-- A plain character starts no operator. -/
theorem isOperatorChar_of_isPlain {c : Char} (h : isPlain c = true) :
    isOperatorChar c = false := by
  rw [Bool.eq_false_iff]
  intro hc
  simp only [isOperatorChar, List.contains_iff_mem] at hc
  have hall : "+-*/%^&|~=!<>".toList.all (fun d => !isPlain d) = true := by decide
  have hplain := List.all_eq_true.1 hall c hc
  rw [h] at hplain
  cases hplain

/-- A plain character starts a number, a reference or a word. -/
theorem read_of_isPlain {c : Char} (h : isPlain c = true) (cs : List Char) :
    read c cs =
      if c.isDigit || (c == '.' && startsWith Char.isDigit cs) then
        .ok (.operand (readNumber (c :: cs)).1, (readNumber (c :: cs)).2)
      else if c = '$' ∧ startsWith Text.isNameStart cs then
        .ok (.operand (.reference (String.ofList (cs.takeWhile Text.isPathChar))),
          cs.dropWhile Text.isPathChar)
      else if Text.isNameStart c then
        .ok (.operand (wordToken (c :: cs.takeWhile Text.isNameChar)),
          cs.dropWhile Text.isNameChar)
      else .error (.unexpectedChar c) := by
  have hne : ∀ d, isPlain d = false → c ≠ d := by
    rintro d hd rfl
    rw [h] at hd
    cases hd
  unfold read
  rw [literal?_of_isPlain h]
  simp only
  rw [if_neg (hne _ (by decide)), if_neg (hne _ (by decide)),
    if_neg (by rw [isOperatorChar_of_isPlain h]; decide), if_neg (hne _ (by decide)),
    if_neg (hne _ (by decide))]

/-- Digits that neither digits nor a point follow are a number. -/
theorem readNumber_integer {digits rest : List Char} (hdigits : ∀ d ∈ digits, d.isDigit = true)
    (hrest : ∀ c ∈ rest.head?, (c.isDigit || c == '.') = false) :
    readNumber (digits ++ rest) = (.number (Number.ofDigits digits []), rest) := by
  obtain ⟨htake, hdrop⟩ := Text.takeWhile_append_of_head? hdigits
    fun c hc => (Bool.or_eq_false_iff.1 (hrest c hc)).1
  unfold readNumber
  rw [htake, hdrop]
  split
  · have hdot := hrest '.' (by simp)
    cases hdot
  · rfl

/-- Digits around a point, that no digits follow, are a number. -/
theorem readNumber_decimal {whole fraction rest : List Char}
    (hdigits : ∀ d ∈ whole ++ fraction, d.isDigit = true)
    (hrest : ∀ c ∈ rest.head?, c.isDigit = false) :
    readNumber (whole ++ '.' :: (fraction ++ rest)) =
      (.number (Number.ofDigits whole fraction), rest) := by
  have hdot : ∀ c ∈ ('.' :: (fraction ++ rest)).head?, c.isDigit = false := by simp
  obtain ⟨htake, hdrop⟩ := Text.takeWhile_append_of_head?
    (fun d hd => hdigits d (List.mem_append_left _ hd)) hdot
  obtain ⟨htake', hdrop'⟩ := Text.takeWhile_append_of_head?
    (fun d hd => hdigits d (List.mem_append_right _ hd)) hrest
  unfold readNumber
  rw [htake, hdrop]
  simp only
  rw [htake', hdrop']

/-- A number that starts with a digit. -/
theorem read_of_isDigit {d : Char} (hd : d.isDigit = true) (cs : List Char) :
    read d cs = .ok (.operand (readNumber (d :: cs)).1, (readNumber (d :: cs)).2) := by
  rw [read_of_isPlain (by simp [isPlain, Text.isPathChar_of_isDigit hd]), if_pos (by simp [hd])]

/-- A reference, up to the first character that is not of its path. -/
theorem read_reference {first : Char} {path rest : List Char}
    (hstart : Text.isNameStart first = true)
    (hpath : ∀ c ∈ first :: path, Text.isPathChar c = true)
    (hrest : ∀ c ∈ rest.head?, Text.isPathChar c = false) :
    read '$' (first :: path ++ rest) =
      .ok (.operand (.reference (String.ofList (first :: path))), rest) := by
  obtain ⟨htake, hdrop⟩ := Text.takeWhile_append_of_head? hpath hrest
  rw [read_of_isPlain (by decide), if_neg (by simp),
    if_pos ⟨rfl, by simpa [startsWith] using hstart⟩, htake, hdrop]

/-- A word, up to the first character that is not of its name. -/
theorem read_word {first : Char} {name rest : List Char} (hstart : Text.isNameStart first = true)
    (hname : ∀ c ∈ name, Text.isNameChar c = true)
    (hrest : ∀ c ∈ rest.head?, Text.isNameChar c = false) :
    read first (name ++ rest) = .ok (.operand (wordToken (first :: name)), rest) := by
  have hpath := Text.isPathChar_of_isNameStart hstart
  have hne : ∀ d, Text.isNameStart d = false → first ≠ d := by
    rintro d hd rfl
    rw [hstart] at hd
    cases hd
  have hdigit : (first.isDigit || (first == '.' && startsWith Char.isDigit (name ++ rest))) =
      false := by
    simp [Text.isDigit_of_isNameStart hstart, hne '.' (by decide)]
  obtain ⟨htake, hdrop⟩ := Text.takeWhile_append_of_head? hname hrest
  rw [read_of_isPlain (by simp [isPlain, hpath]), if_neg (by simp [hdigit]),
    if_neg (by simp [hne '$' (by decide)]), if_pos hstart, htake, hdrop]

/-- The operators that a further equals sign would make longer, read where none follows. -/
theorem readOperator_short {rest : List Char} (h : ∀ c ∈ rest.head?, (c == '=') = false) :
    readOperator '<' rest = (some .lt, rest) ∧ readOperator '>' rest = (some .gt, rest) ∧
      readOperator '=' ('=' :: rest) = (some .eq, rest) ∧
      readOperator '!' ('=' :: rest) = (some .ne, rest) := by
  refine ⟨?_, ?_, ?_, ?_⟩
  all_goals
    unfold readOperator
    split <;> simp_all

end Lexeme

/-- A literal is taken up to the character that closes it. -/
theorem Nesting.Encloses.takeLiteral {n : Nesting} {inner : List Char} {last : Char}
    (h : n.Encloses inner last) (rest : List Char) :
    n.takeLiteral (inner ++ last :: rest) = .ok (inner, rest) := by
  induction h with
  | close hfeed htop =>
    rw [List.nil_append, Nesting.takeLiteral, hfeed]
    simp [htop]
  | inside hfeed htop _ ih =>
    rw [List.cons_append, Nesting.takeLiteral, hfeed]
    simp [htop, ih]

/-- A blank closes no literal. -/
theorem Nesting.atTop_feed_of_isBlank {n n' : Nesting} {c : Char} (hc : Text.isBlank c = true)
    (htop : n.atTop = false) (h : n.feed c = .ok n') : n'.atTop = false := by
  have hne : ∀ d, Text.isBlank d = false → c ≠ d := by
    rintro d hd rfl
    rw [hc] at hd
    cases hd
  obtain ⟨quote, escaped, brackets, braces⟩ := n
  cases quote with
  | some q =>
    have hq : c ≠ q.char := hne _ (by cases q <;> decide)
    simp only [Nesting.feed, Nesting.feedQuoted, if_neg hq, if_neg (hne '\\' (by decide))] at h
    cases h
    cases escaped <;> rfl
  | none =>
    -- none of the delimiters is a blank, so the state is as before
    cases plainStep_of_feedPlain h with
    | quote quote => exact absurd rfl (hne quote.char (by cases quote <;> decide))
    | other _ => exact htop
    | _ => exact absurd hc (by decide)

/-- Literals that are open are closed by a character that is not a blank. -/
theorem Nesting.Encloses.isBlank_last {n : Nesting} {inner : List Char} {last : Char}
    (h : n.Encloses inner last) (htop : n.atTop = false) : Text.isBlank last = false := by
  induction h with
  | @close n n' last hfeed hclosed =>
    cases hblank : Text.isBlank last with
    | false => rfl
    | true =>
      rw [Nesting.atTop_feed_of_isBlank hblank htop hfeed] at hclosed
      cases hclosed
  | inside _ hopen _ ih => exact ih hopen

namespace Operand

/-- What starts like a name and goes on like a path has only characters of a path. -/
theorem isPathChar_of_mem_cons {first : Char} {path : List Char}
    (hstart : Text.isNameStart first = true) (hpath : ∀ c ∈ path, Text.isPathChar c = true) :
    ∀ c ∈ first :: path, Text.isPathChar c = true := by
  intro c hc
  rcases List.mem_cons.1 hc with rfl | hc
  · exact Text.isPathChar_of_isNameStart hstart
  · exact hpath c hc

/-- An operand at the start of a text is read as its token, up to its end.

**Proof sketch.** By cases over the operands. Each kind is told by its first character: a digit, a
dot with a digit after it, a dollar sign, the start of a name, or the opener of a literal. The rest
of it is taken up to where `h` says that the operand does not go on. -/
theorem read_text (o : Operand) {rest : List Char}
    (h : ∀ c ∈ rest.head?, o.continues c = false) :
    ∃ c cs, o.text = c :: cs ∧ Text.isBlank c = false ∧
      Lexeme.read c (cs ++ rest) = .ok (.operand o.token, rest) := by
  cases o with
  | integer digits nonempty isDigit =>
    obtain ⟨d, ds, rfl⟩ := List.exists_cons_of_ne_nil nonempty
    have hd : d.isDigit = true := isDigit d List.mem_cons_self
    refine ⟨d, ds, rfl, Text.isBlank_of_isPathChar (Text.isPathChar_of_isDigit hd), ?_⟩
    rw [Lexeme.read_of_isDigit hd, ← List.cons_append, Lexeme.readNumber_integer isDigit h]
    rfl
  | decimal whole fraction nonempty isDigit =>
    have hnumber := Lexeme.readNumber_decimal isDigit h
    cases whole with
    | nil =>
      obtain ⟨f, fs, rfl⟩ := List.exists_cons_of_ne_nil nonempty
      have hf : f.isDigit = true := isDigit f List.mem_cons_self
      refine ⟨'.', f :: fs, rfl, by decide, ?_⟩
      rw [List.nil_append] at hnumber
      rw [Lexeme.read_of_isPlain (by decide), if_pos (by simp [Lexeme.startsWith, hf]), hnumber]
      rfl
    | cons d ds =>
      have hd : d.isDigit = true := isDigit d List.mem_cons_self
      refine ⟨d, ds ++ '.' :: fraction, rfl,
        Text.isBlank_of_isPathChar (Text.isPathChar_of_isDigit hd), ?_⟩
      rw [List.cons_append] at hnumber
      rw [Lexeme.read_of_isDigit hd, List.append_assoc, List.cons_append, hnumber]
      rfl
  | reference first path isStart isPath =>
    exact ⟨'$', first :: path, rfl, by decide,
      Lexeme.read_reference isStart (isPathChar_of_mem_cons isStart isPath) h⟩
  | word first name isStart isName =>
    exact ⟨first, name, rfl, Text.isBlank_of_isPathChar (Text.isPathChar_of_isNameStart isStart),
      Lexeme.read_word isStart isName h⟩
  | literal first nesting make inner last isOpener encloses =>
    have hblank : Text.isBlank first = false := by
      unfold Lexeme.literal? at isOpener
      split at isOpener
      all_goals first | decide | cases isOpener
    refine ⟨first, inner ++ [last], rfl, hblank, ?_⟩
    unfold Lexeme.read
    rw [isOpener]
    simp only [List.append_assoc, List.singleton_append]
    rw [encloses.takeLiteral rest]
    rfl

/-- An operand ends with no blank. -/
theorem exists_text_eq_append (o : Operand) :
    ∃ cs c, o.text = cs ++ [c] ∧ Text.isBlank c = false := by
  -- apart from literals, the last character is one of a path
  have hlast : ∀ cs : List Char, cs ≠ [] → (∀ c ∈ cs, Text.isPathChar c = true) →
      ∃ ds c, cs = ds ++ [c] ∧ Text.isBlank c = false := by
    intro cs hcs hpath
    refine ⟨cs.dropLast, cs.getLast hcs, (List.dropLast_concat_getLast hcs).symm, ?_⟩
    exact Text.isBlank_of_isPathChar (hpath _ (List.getLast_mem hcs))
  cases o with
  | integer digits nonempty isDigit =>
    exact hlast digits nonempty fun d hd => Text.isPathChar_of_isDigit (isDigit d hd)
  | decimal whole fraction nonempty isDigit =>
    refine hlast _ (by simp [text]) fun c hc => ?_
    rcases List.mem_append.1 hc with hc | hc
    · exact Text.isPathChar_of_isDigit (isDigit c (List.mem_append_left _ hc))
    · rcases List.mem_cons.1 hc with rfl | hc
      · decide
      · exact Text.isPathChar_of_isDigit (isDigit c (List.mem_append_right _ hc))
  | reference first path isStart isPath =>
    obtain ⟨ds, c, hds, hc⟩ := hlast (first :: path) (by simp)
      (isPathChar_of_mem_cons isStart isPath)
    exact ⟨'$' :: ds, c, by rw [text, hds, List.cons_append], hc⟩
  | word first name isStart isName =>
    refine hlast (first :: name) (by simp) (isPathChar_of_mem_cons isStart fun c hc => ?_)
    simp [Text.isPathChar, isName c hc]
  | literal first nesting make inner last isOpener encloses =>
    refine ⟨first :: inner, last, rfl, encloses.isBlank_last ?_⟩
    unfold Lexeme.literal? at isOpener
    split at isOpener
    all_goals
      cases isOpener
      try rfl

end Operand

namespace Piece

/-- A piece at the start of a text is read as its lexeme, up to its end. -/
theorem read_text (p : Piece) {rest : List Char} (h : p.EndsBefore rest) :
    ∃ c cs, p.text = c :: cs ∧ Text.isBlank c = false ∧
      Lexeme.read c (cs ++ rest) = .ok (p.lexeme, rest) := by
  cases p with
  | operand o => exact o.read_text h
  | opening => exact ⟨'(', [], rfl, by decide, rfl⟩
  | closing => exact ⟨')', [], rfl, by decide, rfl⟩
  | operator op =>
    have hread : ∀ {c : Char} {cs : List Char} {result : Option Operator × List Char},
        Lexeme.readOperator c cs = result →
        Lexeme.read c cs = .ok (.operator c (Lexeme.readOperator c cs).1,
          (Lexeme.readOperator c cs).2) →
        Lexeme.read c cs = .ok (.operator c result.1, result.2) := by
      intro c cs result hresult h
      rw [h, hresult]
    cases op with
    | lt => exact ⟨'<', [], rfl, by decide, hread (Lexeme.readOperator_short h).1 rfl⟩
    | gt => exact ⟨'>', [], rfl, by decide, hread (Lexeme.readOperator_short h).2.1 rfl⟩
    | eq => exact ⟨'=', ['='], rfl, by decide, hread (Lexeme.readOperator_short h).2.2.1 rfl⟩
    | ne => exact ⟨'!', ['='], rfl, by decide, hread (Lexeme.readOperator_short h).2.2.2 rfl⟩
    | _ => exact ⟨_, _, rfl, by decide, rfl⟩

/-- A piece ends with no blank. -/
theorem exists_text_eq_append (p : Piece) :
    ∃ cs c, p.text = cs ++ [c] ∧ Text.isBlank c = false := by
  cases p with
  | operand o => exact o.exists_text_eq_append
  | opening => exact ⟨[], '(', rfl, by decide⟩
  | closing => exact ⟨[], ')', rfl, by decide⟩
  | operator op =>
    cases op with
    | eq => exact ⟨['='], '=', rfl, by decide⟩
    | ne => exact ⟨['!'], '=', rfl, by decide⟩
    | identical => exact ⟨['=', '='], '=', rfl, by decide⟩
    | notIdentical => exact ⟨['!', '='], '=', rfl, by decide⟩
    | le => exact ⟨['<'], '=', rfl, by decide⟩
    | ge => exact ⟨['>'], '=', rfl, by decide⟩
    | _ => exact ⟨[], _, rfl, by decide⟩

end Piece

/-! ## Laid out texts -/

/-- Blanks in front of a text do not change what is read. -/
theorem Lexeme.Reads.blanks_append {blanks cs : List Char} {lexemes : List Lexeme}
    (hblanks : ∀ b ∈ blanks, Text.isBlank b = true) (h : Reads cs lexemes) :
    Reads (blanks ++ cs) lexemes := by
  induction blanks with
  | nil => exact h
  | cons b blanks ih =>
    exact .blank (hblanks b List.mem_cons_self) (ih fun c hc =>
      hblanks c (List.mem_cons_of_mem _ hc))

namespace Layout

/-- **A laid out text reads as its pieces.** -/
theorem reads {ps : List Piece} {text : List Char} (h : Layout ps text) :
    Lexeme.Reads text (ps.map Piece.lexeme) := by
  induction h with
  | @nil blanks hblanks =>
    rw [← List.append_nil blanks]
    exact .blanks_append hblanks .nil
  | @cons blanks rest p ps hblanks hends _ ih =>
    obtain ⟨c, cs, htext, hblank, hread⟩ := p.read_text hends
    rw [List.append_assoc, htext, List.cons_append]
    exact .blanks_append hblanks (.lexeme hblank hread ih)

/-- Blanks at the start may be left out. -/
theorem trimStart {ps : List Piece} {text : List Char} (h : Layout ps text) :
    Layout ps (Text.trimStart text) := by
  unfold Text.trimStart
  cases h with
  | nil hblanks =>
    rw [← List.append_nil text, List.dropWhile_append_of_pos hblanks]
    exact .nil (by simp)
  | @cons blanks rest p ps hblanks hends hrest =>
    obtain ⟨c, cs, htext, hblank, -⟩ := p.read_text hends
    rw [List.append_assoc, List.dropWhile_append_of_pos hblanks, htext, List.cons_append,
      List.dropWhile_cons_of_neg (by simp [hblank]), ← List.cons_append, ← htext]
    rw [← List.nil_append (p.text ++ rest), ← List.append_assoc]
    exact .cons (by simp) hends hrest

/-- Trimming a text at its end trims its last part, and goes on only if nothing of that is left. -/
theorem trimEnd_append (cs rest : List Char) :
    Text.trimEnd (cs ++ rest) =
      if Text.trimEnd rest = [] then Text.trimEnd cs else cs ++ Text.trimEnd rest := by
  unfold Text.trimEnd
  rw [List.reverse_append, List.dropWhile_append]
  simp only [List.isEmpty_iff, List.reverse_eq_nil_iff]
  split
  · rfl
  · simp

/-- Blanks at the end may be left out. -/
theorem trimEnd {ps : List Piece} {text : List Char} (h : Layout ps text) :
    Layout ps (Text.trimEnd text) := by
  induction h with
  | @nil blanks hblanks =>
    refine .nil fun b hb => hblanks b ?_
    simpa using (List.dropWhile_suffix (l := blanks.reverse) Text.isBlank).subset
      (List.mem_reverse.1 hb)
  | @cons blanks rest p ps hblanks hends _ ih =>
    rw [trimEnd_append]
    by_cases hnil : Text.trimEnd rest = []
    · -- nothing but blanks follows, and the piece itself ends with none
      rw [if_pos hnil]
      obtain ⟨cs, c, htext, hc⟩ := p.exists_text_eq_append
      have htrim : Text.trimEnd (blanks ++ p.text) = blanks ++ p.text ++ [] := by
        simp [Text.trimEnd, htext, hc]
      rw [hnil] at ih
      rw [htrim]
      exact .cons hblanks (by simp [Piece.EndsBefore]) ih
    · rw [if_neg hnil]
      refine .cons hblanks (fun c hc => hends c ?_) ih
      -- what is left of the rest starts as the rest does
      obtain ⟨t, ht⟩ : Text.trimEnd rest <+: rest := by
        have hsuffix := List.dropWhile_suffix (l := rest.reverse) Text.isBlank
        simpa [Text.trimEnd] using List.reverse_prefix.2 hsuffix
      rw [← ht]
      cases htrim : Text.trimEnd rest with
      | nil => exact absurd htrim hnil
      | cons d ds =>
        rw [htrim] at hc
        simpa using hc

/-- **A laid out text may be trimmed.** -/
theorem trimChars {ps : List Piece} {text : List Char} (h : Layout ps text) :
    Layout ps (Text.trimChars text) :=
  h.trimStart.trimEnd

end Layout

end LineScript
