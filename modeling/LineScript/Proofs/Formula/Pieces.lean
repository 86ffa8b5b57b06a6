import LineScript.Proofs.Formula.Nested

set_option relaxedAutoImplicit false
set_option autoImplicit false

/-!
# Formulas as laid out pieces

A text that is laid out from pieces is read as their lexemes (`LineScript.Layout.reads`). Here is
the way back: what is read at the start of a text is a piece, written there up to where it ends, so
that a formula is laid out from the pieces that its tokens come from. Only a sign that starts no
operator is no piece, and no pass goes on after one.

## Main results

* `LineScript.Lexeme.exists_piece_of_read` — a lexeme that is read is a piece of the text.
* `LineScript.Lexeme.Reads.exists_layout` — a text that is read is laid out from pieces.
* `LineScript.Formula.exists_layout_of_tokens` — a formula is laid out from pieces, and the pass
  over them gives its tokens.
-/

namespace LineScript

namespace Lexeme

variable {c : Char} {cs rest : List Char}

/-! ## One lexeme -/

/-- The first character after those of a class is not of it. -/
theorem not_of_head?_dropWhile {p : Char → Bool} {d : Char} (h : d ∈ (cs.dropWhile p).head?) :
    p d = false := by
  have hnot := List.head?_dropWhile_not p cs
  rw [Option.mem_def.1 h] at hnot
  simpa using hnot

/-- An operator that is read is the longest that is written there. -/
theorem eq_append_of_readOperator {op : Operator} (h : readOperator c cs = (some op, rest)) :
    c :: cs = op.symbol.toList ++ rest ∧ op.symbol.toList.headD ' ' = c ∧
      (Piece.operator op).EndsBefore rest := by
  have hlong : ∀ {ds : List Char}, (∀ es, ds = '=' :: es → False) →
      ∀ d ∈ ds.head?, (d == '=') = false := by
    intro ds hds d hd
    obtain ⟨es, rfl⟩ := List.head?_eq_some_iff.1 hd
    rw [beq_eq_false_iff_ne]
    rintro rfl
    exact hds es rfl
  unfold readOperator at h
  split at h
  all_goals cases h
  -- an operator that could go on with an equals sign is read only where none follows
  all_goals first
    | exact ⟨rfl, rfl, fun _ _ => rfl⟩
    | exact ⟨rfl, rfl, hlong ‹_›⟩

/-- A number that is read is written as digits, up to where these end. -/
theorem exists_operand_of_readNumber
    (h : c.isDigit = true ∨ c = '.' ∧ startsWith Char.isDigit cs = true) :
    ∃ o : Operand, o.token = (readNumber (c :: cs)).1 ∧
      c :: cs = o.text ++ (readNumber (c :: cs)).2 ∧
      (Piece.operand o).EndsBefore (readNumber (c :: cs)).2 := by
  have hsplit := List.takeWhile_append_dropWhile (p := Char.isDigit) (l := c :: cs)
  have hwhole : ∀ d ∈ (c :: cs).takeWhile Char.isDigit, d.isDigit = true :=
    fun _ => List.mem_takeWhile_imp
  -- digits before the point, or else a digit right after it
  have hsome : (c :: cs).takeWhile Char.isDigit ≠ [] ∨
      (c :: cs).dropWhile Char.isDigit = '.' :: cs ∧ cs.takeWhile Char.isDigit ≠ [] := by
    rcases h with hc | ⟨rfl, hcs⟩
    · exact .inl (by simp [hc])
    · cases cs with
      | nil => cases hcs
      | cons d ds =>
        have hd : d.isDigit = true := hcs
        exact .inr ⟨rfl, by simp [hd]⟩
  obtain ⟨fraction, hdrop, hread⟩ | ⟨hpoint, hread⟩ := cases_of_readNumber (c :: cs)
  · rw [hread]
    have hne : (c :: cs).takeWhile Char.isDigit ++ fraction.takeWhile Char.isDigit ≠ [] := by
      rw [hdrop] at hsome
      rcases hsome with hne | ⟨hcs, hne⟩
      · simp [hne]
      · cases hcs
        simp [hne]
    have hdigits : ∀ d ∈ (c :: cs).takeWhile Char.isDigit ++ fraction.takeWhile Char.isDigit,
        d.isDigit = true := by
      intro d hd
      rcases List.mem_append.1 hd with hd | hd
      · exact hwhole d hd
      · exact List.mem_takeWhile_imp hd
    refine ⟨.decimal _ _ hne hdigits, rfl, ?_, fun d hd => not_of_head?_dropWhile hd⟩
    rw [hdrop] at hsplit
    simp only [Operand.text, List.append_assoc, List.cons_append, List.takeWhile_append_dropWhile]
    exact hsplit.symm
  · rw [hread]
    have hne : (c :: cs).takeWhile Char.isDigit ≠ [] :=
      hsome.resolve_right fun hcs => hpoint cs hcs.1
    refine ⟨.integer _ hne hwhole, rfl, hsplit.symm, fun d hd => ?_⟩
    rw [Piece.continues, Operand.continues, not_of_head?_dropWhile hd, Bool.false_or,
      beq_eq_false_iff_ne]
    rintro rfl
    obtain ⟨ds, hds⟩ := List.head?_eq_some_iff.1 hd
    exact hpoint ds hds

/-- A reference is written as its path after a dollar sign. -/
theorem exists_operand_of_reference (hstart : startsWith Text.isNameStart cs = true) :
    ∃ o : Operand, o.token = .reference (String.ofList (cs.takeWhile Text.isPathChar)) ∧
      '$' :: cs = o.text ++ cs.dropWhile Text.isPathChar ∧
      (Piece.operand o).EndsBefore (cs.dropWhile Text.isPathChar) := by
  cases cs with
  | nil => cases hstart
  | cons first path =>
    have hfirst : Text.isPathChar first = true := Text.isPathChar_of_isNameStart hstart
    refine ⟨.reference first (path.takeWhile Text.isPathChar) hstart
      fun _ => List.mem_takeWhile_imp, ?_, ?_, fun d hd => not_of_head?_dropWhile hd⟩
    · rw [List.takeWhile_cons_of_pos hfirst]
      rfl
    · simp [Operand.text, hfirst]

/-- **A lexeme that is read is a piece**, written at the start of the text up to where it ends.

**Proof sketch.** By the cases of what `read` can have read (`reading_of_read`). A number, a
reference and an operator have their own lemma that gives the piece; a sign that is no operator is
not a minus sign, so that `hoperator` rules it out. For the other lexemes the piece is written down.
-/
theorem exists_piece_of_read {lexeme : Lexeme} (h : read c cs = .ok (lexeme, rest))
    (hoperator : ∀ d, d ≠ '-' → lexeme ≠ .operator d none) :
    ∃ p : Piece, p.lexeme = lexeme ∧ c :: cs = p.text ++ rest ∧ p.EndsBefore rest := by
  cases reading_of_read h with
  | @literal n make inner rest hliteral htake =>
    obtain ⟨last, rfl, hencloses⟩ := Nesting.exists_encloses_of_takeLiteral htake
    refine ⟨.operand (.literal c n make inner last hliteral hencloses), rfl, ?_, fun _ _ => rfl⟩
    simp [Piece.text, Operand.text]
  | operator _ =>
    cases hop : (readOperator c cs).1 with
    | none =>
      have hminus : c ≠ '-' := by
        rintro rfl
        cases hop
      exact absurd (congrArg (operator c) hop) (hoperator c hminus)
    | some op =>
      obtain ⟨htext, hhead, hends⟩ := eq_append_of_readOperator (Prod.ext hop rfl)
      exact ⟨.operator op, by rw [Piece.lexeme, hhead], htext, hends⟩
  | opening hopening => exact ⟨.opening, rfl, by rw [hopening]; rfl, fun _ _ => rfl⟩
  | closing hclosing => exact ⟨.closing, rfl, by rw [hclosing]; rfl, fun _ _ => rfl⟩
  | number hnumber =>
    obtain ⟨o, htoken, htext, hends⟩ := exists_operand_of_readNumber hnumber
    exact ⟨.operand o, congrArg operand htoken, htext, hends⟩
  | reference hdollar hstart =>
    obtain ⟨o, htoken, htext, hends⟩ := exists_operand_of_reference hstart
    exact ⟨.operand o, congrArg operand htoken, by rw [hdollar]; exact htext, hends⟩
  | word hstart =>
    refine ⟨.operand (.word c (cs.takeWhile Text.isNameChar) hstart
      fun _ => List.mem_takeWhile_imp), rfl, ?_, fun d hd => not_of_head?_dropWhile hd⟩
    simp [Piece.text, Operand.text]

/-! ## Whole texts -/

/-- A text is read in one way only. -/
theorem Reads.unique {lexemes lexemes' : List Lexeme} (h : Reads cs lexemes)
    (h' : Reads cs lexemes') :
    lexemes = lexemes' := by
  induction h generalizing lexemes' with
  | nil =>
    cases h'
    rfl
  | blank hblank _ ih =>
    cases h' with
    | blank _ h' => exact ih h'
    | lexeme hnot _ _ => rw [hblank] at hnot; cases hnot
  | lexeme hnot hread _ ih =>
    cases h' with
    | blank hblank _ => rw [hblank] at hnot; cases hnot
    | lexeme _ hread' h' =>
      rw [hread] at hread'
      cases hread'
      rw [ih h']

/-- **A text that is read is laid out from pieces**, by induction on its lexemes. -/
theorem Reads.exists_layout {lexemes : List Lexeme} (h : Reads cs lexemes)
    (hoperator : ∀ d, d ≠ '-' → .operator d none ∉ lexemes) :
    ∃ ps, ps.map Piece.lexeme = lexemes ∧ Layout ps cs := by
  induction h with
  | nil => exact ⟨[], rfl, .nil (by simp)⟩
  | blank hblank _ ih =>
    obtain ⟨ps, hps, hlayout⟩ := ih hoperator
    exact ⟨ps, hps, hlayout.blank_cons hblank⟩
  | lexeme _ hread _ ih =>
    obtain ⟨ps, hps, hlayout⟩ := ih fun d hd hmem => hoperator d hd (List.mem_cons_of_mem _ hmem)
    obtain ⟨p, hp, htext, hends⟩ :=
      exists_piece_of_read hread fun d hd heq => hoperator d hd (heq ▸ List.mem_cons_self)
    refine ⟨p :: ps, by rw [List.map_cons, hp, hps], ?_⟩
    rw [htext, ← List.nil_append p.text]
    exact .cons (by simp) hends hlayout

end Lexeme

/-- No pass goes on after a sign that starts no operator. -/
theorem Shunt.operator_none_notMem {lexemes : List Lexeme} {st st' : Shunt}
    (h : lexemes.foldlM feed st = .ok st') {d : Char} (hd : d ≠ '-') :
    .operator d none ∉ lexemes := by
  induction lexemes generalizing st with
  | nil => simp
  | cons lexeme lexemes ih =>
    rw [List.foldlM_cons] at h
    rw [List.mem_cons, not_or]
    cases hfeed : st.feed lexeme with
    | error e =>
      rw [hfeed] at h
      cases h
    | ok next =>
      rw [hfeed] at h
      refine ⟨?_, ih h⟩
      rintro rfl
      rw [feed, if_neg hd] at hfeed
      split at hfeed
      · cases hfeed
      · cases hfeed

/-- **A formula is laid out from pieces**, and the pass over their lexemes gives its tokens. -/
theorem Formula.exists_layout_of_tokens {src : String} {ts : List Token} (h : tokens src = .ok ts) :
    ∃ ps st, Layout ps (Text.trimChars src.toList) ∧
      (ps.map Piece.lexeme).foldlM Shunt.feed Shunt.start = .ok st ∧ st.finish = .ok ts := by
  obtain ⟨st, hscan, hfinish⟩ := exists_of_tokens h
  obtain ⟨lexemes, hreads, hfold⟩ := Shunt.exists_reads_of_scan hscan
  obtain ⟨ps, rfl, hlayout⟩ := hreads.exists_layout fun _ => Shunt.operator_none_notMem hfold
  exact ⟨ps, st, hlayout, hfold, hfinish⟩

end LineScript
