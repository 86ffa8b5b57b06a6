import LineScript.Proofs.Formula.Apart
import LineScript.Proofs.Statement.Call

set_option relaxedAutoImplicit false
set_option autoImplicit false

/-!
# Headers of counting loops

The header `$name = start to stop step width` is cut at the first `to` and then at the first `step`
that stand apart, wherever that is. Formulas without these words as operands are found again between
them, unless a literal of the start holds a `to`, or one of the stop a `step`, between blanks: there
the header is cut in the middle of the literal.

## Main results

* `LineScript.Pattern.cutBefore_append_iff` — when a text is cut where it was put together.
* `LineScript.Pattern.bounds?_iff` — when the bounds of a loop are found as they were put together.
* `LineScript.Statement.count_parts_iff` — the statement of a counting loop, for any formulas.
-/

namespace LineScript

/-- A trimmed text starts and ends with no blank. -/
theorem Text.exists_ends_of_trimChars {cs : List Char} (h : trimChars cs = cs) :
    (∀ c ∈ cs.head?, isBlank c = false) ∧ ∀ c ∈ cs.getLast?, isBlank c = false := by
  have hstart : trimStart cs = cs := by
    have hlength := congrArg List.length h
    have hend : (trimEnd (trimStart cs)).length ≤ (trimStart cs).length := by
      simpa [trimEnd] using (List.dropWhile_suffix (l := (trimStart cs).reverse) isBlank).length_le
    exact (List.dropWhile_suffix isBlank).eq_of_length_le (by rw [← hlength]; exact hend)
  constructor
  · intro c hc
    rw [← hstart] at hc
    exact Lexeme.not_of_head?_dropWhile hc
  · intro c hc
    rw [← h, trimChars, trimEnd, List.getLast?_reverse] at hc
    exact Lexeme.not_of_head?_dropWhile hc

/-- A formula is more than blanks. -/
theorem Formula.trimChars_ne_nil_of_tokens {src : String} {ts : List Token}
    (h : tokens src = .ok ts) :
    Text.trimChars src.toList ≠ [] := by
  intro hnil
  rw [tokens, hnil, Shunt.scan_of_reads .nil] at h
  cases h

/-- A literal alone is one token. -/
theorem Formula.tokens_of_literal (c : Char) {src text : String} {last : Char} {n : Nesting}
    {make : String → Token}
    (hsrc : src.toList = c :: (text.toList ++ [last]))
    (hliteral : Lexeme.literal? c = some (n, make))
    (htake : n.takeLiteral (text.toList ++ [last]) = .ok (text.toList, [])) :
    tokens src = .ok [make text] := by
  obtain ⟨last', hlast, hencloses⟩ := Nesting.exists_encloses_of_takeLiteral htake
  obtain rfl : last = last' := by simpa using hlast
  have htokens := tokens_of_operand (.literal c n make text.toList last hliteral hencloses)
  rwa [Operand.text, Operand.token, ← hsrc, String.ofList_toList, String.ofList_toList] at htokens

namespace Pattern

/-! ## Cuts -/

section Cuts

variable {α β : Type} {start : List Char}

/-- The first cut that is accepted is no longer than any other one. -/
theorem exists_firstCut (accept : List Char → List Char → Option α) (taken : List Char)
    (hne : start ≠ []) (hline : '\n' ∉ start) (rest : List Char)
    (h : (accept (taken ++ start) rest).isSome = true) :
    ∃ p q, start = p ++ q ∧ p ≠ [] ∧ (accept (taken ++ p) (q ++ rest)).isSome = true ∧
      firstCut accept taken (start ++ rest) = accept (taken ++ p) (q ++ rest) := by
  induction start generalizing taken with
  | nil => exact absurd rfl hne
  | cons c cs ih =>
    rw [List.mem_cons, not_or] at hline
    rw [List.cons_append, firstCut, if_neg (Ne.symm hline.1)]
    cases haccept : accept (taken ++ [c]) (cs ++ rest) with
    | some a => exact ⟨[c], cs, rfl, by simp, by rw [haccept]; rfl, haccept.symm⟩
    | none =>
      cases cs with
      | nil =>
        rw [List.nil_append] at haccept
        rw [haccept] at h
        cases h
      | cons d ds =>
        obtain ⟨p, q, hpq, -, hsome, hcut⟩ := ih (taken ++ [c]) (by simp) hline.2 (by simpa using h)
        rw [List.append_assoc] at hsome hcut
        exact ⟨c :: p, q, by rw [hpq, List.cons_append], by simp, hsome, hcut⟩

/-- The start of a text before the first place where the rest of it fits, and what the rest gives.
-/
def cutBefore (f : List Char → Option β) (cs : List Char) : Option (String × β) :=
  firstCut (fun start rest => (f rest).map fun b => (String.ofList start, b)) [] cs

variable {f : List Char → Option β} {rest : List Char} {b : β}

/-- Where the rest fits, the text is cut there or earlier. -/
theorem exists_cutBefore (hne : start ≠ []) (hline : '\n' ∉ start) (hrest : f rest = some b) :
    ∃ p q b', start = p ++ q ∧ p ≠ [] ∧ f (q ++ rest) = some b' ∧
      cutBefore f (start ++ rest) = some (String.ofList p, b') := by
  obtain ⟨p, q, hpq, hp, hsome, hcut⟩ := exists_firstCut
    (fun start rest => (f rest).map fun b => (String.ofList start, b)) [] hne hline rest
      (by simp [hrest])
  rw [Option.isSome_map] at hsome
  obtain ⟨b', hb'⟩ := Option.isSome_iff_exists.1 hsome
  exact ⟨p, q, b', hpq, hp, hb', hcut.trans (congrArg (Option.map _) hb')⟩

/-- **A text is cut where it was put together** exactly if no shorter start of it fits. -/
theorem cutBefore_append_iff (hne : start ≠ []) (hline : '\n' ∉ start) (hrest : f rest = some b)
    {given : β} :
    cutBefore f (start ++ rest) = some (String.ofList start, given) ↔
      b = given ∧ ∀ p q, start = p ++ q → p ≠ [] → q ≠ [] → f (q ++ rest) = none := by
  constructor
  · intro hcut
    -- a part where the rest fits is cut off there or earlier, so it is all of the start
    have hall : ∀ p q b', start = p ++ q → p ≠ [] → f (q ++ rest) = some b' →
        q = [] ∧ b = given := by
      rintro p q b' rfl hp hb'
      obtain ⟨p', q', given', rfl, -, hgiven, hcut'⟩ :=
        exists_cutBefore hp (fun hmem => hline (List.mem_append_left q hmem)) hb'
      rw [List.append_assoc, hcut', Option.some.injEq, Prod.mk.injEq] at hcut
      have hlength := congrArg List.length (String.ofList_injective hcut.1)
      simp only [List.length_append] at hlength
      have hq : q = [] := List.eq_nil_of_length_eq_zero (by omega)
      have hq' : q' = [] := List.eq_nil_of_length_eq_zero (by omega)
      rw [hq, hq', List.nil_append, List.nil_append, hrest] at hgiven
      cases hgiven
      exact ⟨hq, hcut.2⟩
    refine ⟨(hall start [] b (by simp) hne hrest).2, fun p q hpq hp hq => ?_⟩
    rw [Option.eq_none_iff_forall_ne_some]
    intro b' hb'
    exact hq (hall p q b' hpq hp hb').1
  · rintro ⟨rfl, hshorter⟩
    obtain ⟨p, q, b', rfl, hp, hb', hcut⟩ := exists_cutBefore hne hline hrest
    cases q with
    | nil =>
      rw [List.nil_append, hrest] at hb'
      cases hb'
      rw [hcut, List.append_nil]
    | cons d ds =>
      rw [hshorter p (d :: ds) rfl hp (by simp)] at hb'
      cases hb'

end Cuts

/-! ## Keywords -/

/-- What is left of a text after a word that it starts with. -/
theorem afterWord?_eq_some_iff {word cs rest : List Char} :
    afterWord? word cs = some rest ↔ cs = word ++ rest := by
  induction word generalizing cs with
  | nil => simp [afterWord?]
  | cons w word ih =>
    cases cs with
    | nil => simp [afterWord?]
    | cons c cs =>
      rw [afterWord?]
      by_cases hw : w = c
      · simp [hw, ih]
      · simp [hw, Ne.symm hw]

/-- Blanks, a word and a blank start a text. -/
def Leads (word cs : List Char) : Prop :=
  ∃ blanks b rest, blanks ≠ [] ∧ (∀ c ∈ blanks, Text.isBlank c = true) ∧ Text.isBlank b = true ∧
    cs = blanks ++ (word ++ b :: rest)

/-- The text after blanks and a word that starts with no blank. -/
theorem afterBlanksAndWord?_eq_some_iff {word : String} {cs rest more : List Char} {first : Char}
    (hword : word.toList = first :: more) (hfirst : Text.isBlank first = false) :
    afterBlanksAndWord? word cs = some rest ↔
      ∃ blanks, blanks ≠ [] ∧ (∀ c ∈ blanks, Text.isBlank c = true) ∧
        cs = blanks ++ (word.toList ++ rest) := by
  constructor
  · intro h
    cases cs with
    | nil => cases h
    | cons c cs =>
      obtain ⟨hc, hafter⟩ := Option.ite_none_right_eq_some.1 h
      rw [afterWord?_eq_some_iff] at hafter
      refine ⟨(c :: cs).takeWhile Text.isBlank, by simp [hc], fun _ => List.mem_takeWhile_imp, ?_⟩
      rw [← hafter, Text.trimStart, List.takeWhile_append_dropWhile]
  · rintro ⟨blanks, hne, hblanks, rfl⟩
    obtain ⟨b, bs, rfl⟩ := List.exists_cons_of_ne_nil hne
    have hhead : ∀ c ∈ (word.toList ++ rest).head?, Text.isBlank c = false := by
      intro c hc
      obtain rfl : first = c := by simpa [hword] using hc
      exact hfirst
    have hdrop := (Text.takeWhile_append_of_head? hblanks hhead).2
    rw [List.cons_append, afterBlanksAndWord?, if_pos (hblanks b List.mem_cons_self),
      afterWord?_eq_some_iff]
    exact hdrop

/-- A word that leads a text stands apart in the part of it that holds the word. -/
theorem standsApart_of_leads {word cs rest : List Char} (hword : ∀ c ∈ word, Text.isBlank c = false)
    (hne : cs ≠ []) (hlast : ∀ c ∈ cs.getLast?, Text.isBlank c = false)
    (hrest : rest = [] ∨ ∃ more, rest = ' ' :: more) (h : Leads word (cs ++ rest)) :
    Text.StandsApart word (cs ++ [' ']) := by
  obtain ⟨blanks, b, more, hblanks, hall, hb, heq⟩ := h
  -- the blanks end before the last character of the part
  have hsplit : ∃ tail, cs = blanks ++ tail ∧ word ++ b :: more = tail ++ rest := by
    rcases List.append_eq_append_iff.1 heq with ⟨tail, hcs, -⟩ | ⟨tail, hcs, hmore⟩
    · have hmem := List.getLast_mem hne
      rw [hcs] at hall
      have hblank := hall _ (List.mem_append_left tail hmem)
      rw [hlast _ (List.getLast?_eq_some_getLast hne)] at hblank
      cases hblank
    · exact ⟨tail, hcs, hmore⟩
  obtain ⟨tail, rfl, htail⟩ := hsplit
  have hstarts : ∃ b', Text.isBlank b' = true ∧ word ++ [b'] <+: tail ++ [' '] := by
    rcases hrest with rfl | ⟨rest, rfl⟩
    · refine ⟨b, hb, more ++ [' '], ?_⟩
      rw [List.append_nil] at htail
      rw [← htail]
      simp
    · have hspace : ' ' ∉ word := fun hmem => nomatch (hword ' ' hmem).symm.trans rfl
      obtain ⟨left, rfl⟩ := Text.prefix_of_prefix_append_cons hspace ⟨b :: more, htail⟩
      rw [List.append_assoc, List.append_cancel_left_eq] at htail
      cases left with
      | nil => exact ⟨' ', rfl, by simp⟩
      | cons d left =>
        cases htail
        exact ⟨b, hb, left ++ [' '], by simp⟩
  obtain ⟨b', hb', hstarts⟩ := hstarts
  obtain ⟨before, b₀, rfl⟩ := (List.eq_nil_or_concat' blanks).resolve_left hblanks
  have hpart : b₀ :: (word ++ [b']) <:+: b₀ :: (tail ++ [' ']) :=
    (List.cons_prefix_cons.2 ⟨rfl, hstarts⟩).isInfix
  refine ⟨b₀, b', hall b₀ (by simp), hb', hpart.trans ⟨before, [], by simp⟩⟩

/-- A word that stands apart leads a later part of the text. -/
theorem exists_leads_of_standsApart {word cs : List Char}
    (hstart : ∀ c ∈ cs.head?, Text.isBlank c = false) (h : Text.StandsApart word cs) :
    ∃ p q, cs = p ++ q ∧ p ≠ [] ∧ q ≠ [] ∧ ∀ rest, Leads word (q ++ rest) := by
  obtain ⟨b, b', hb, hb', p, t, rfl⟩ := h
  refine ⟨p, b :: (word ++ b' :: t), by simp, ?_, by simp, fun rest => ?_⟩
  · rintro rfl
    rw [hstart b (by simp)] at hb
    cases hb
  · exact ⟨[b], b', t ++ rest, by simp, by simpa using hb, hb', by simp⟩

/-! ## The parts of a header -/

/-- The step that follows a stop: none at the end. -/
def afterStop? (rest : List Char) : Option (Option String) :=
  match stepPart? rest with
  | some step => some (some step)
  | none => if rest.isEmpty then some none else none

/-- The stop and the step that follow a start. -/
def afterStart? (rest : List Char) : Option (String × Option String) :=
  (afterBlanksAndWord? "to" rest).bind (skippingBlanks 1 stopPart?)

/-- The second bound is what comes before the step, or all of it. -/
theorem stopPart?_eq (cs : List Char) : stopPart? cs = cutBefore afterStop? cs := by
  unfold stopPart? cutBefore
  congr 1
  funext stop rest
  unfold afterStop?
  cases stepPart? rest with
  | some step => rfl
  | none => cases rest <;> rfl

/-- The first bound is what comes before the second one. -/
theorem bounds?_eq (cs : List Char) : bounds? cs = cutBefore afterStart? cs := by
  unfold bounds? cutBefore
  congr 1
  funext start rest
  unfold afterStart?
  cases afterBlanksAndWord? "to" rest <;> rfl

/-- A text that is accepted without its first blanks is accepted so. -/
theorem skippingBlanks_append {α : Type} {least : Nat} {accept : List Char → Option α}
    {blanks cs : List Char} {a : α} (hblanks : ∀ c ∈ blanks, Text.isBlank c = true)
    (hleast : least ≤ blanks.length) (hcs : ∀ c ∈ cs.head?, Text.isBlank c = false)
    (h : accept cs = some a) : skippingBlanks least accept (blanks ++ cs) = some a := by
  obtain ⟨n, hn⟩ : ∃ n, blanks.length + 1 - least = n + 1 := ⟨blanks.length - least, by omega⟩
  unfold skippingBlanks
  dsimp only
  rw [(Text.takeWhile_append_of_head? hblanks hcs).1, hn, List.range_succ_eq_map, List.map_cons,
    List.findSome?_cons, Nat.sub_zero, List.drop_left, h]

/-- Every line that is not empty has a stop. -/
theorem exists_stopPart? {cs : List Char} (hne : cs ≠ []) (hline : '\n' ∉ cs) :
    ∃ stop, stopPart? cs = some stop := by
  obtain ⟨p, q, step, -, -, -, hcut⟩ :=
    exists_cutBefore hne hline (show afterStop? [] = some none from rfl)
  rw [stopPart?_eq, ← List.append_nil cs]
  exact ⟨_, hcut⟩

/-- A text without line feeds fits on a line. -/
theorem fits_of_notMem {cs : List Char} (h : '\n' ∉ cs) : fits false cs = true := by
  rw [fits, Bool.false_or, Bool.not_eq_true', ← Bool.not_eq_true, List.contains_iff_mem]
  exact h

/-- On texts that end with no blank, `f` takes what the word leads. -/
def LedBy {β : Type} (word : List Char) (f : List Char → Option β) : Prop :=
  ∀ cs, cs ≠ [] → '\n' ∉ cs → (∀ c ∈ cs.getLast?, Text.isBlank c = false) →
    ((f cs).isSome = true ↔ Leads word cs)

/-- After the blank that ends a keyword, a text that ends with no blank has more than blanks. -/
theorem exists_of_getLast? {b : Char} {front rest : List Char} (hb : Text.isBlank b = true)
    (hline : '\n' ∉ front ++ b :: rest)
    (hlast : ∀ c ∈ (front ++ b :: rest).getLast?, Text.isBlank c = false) :
    ∃ blanks d ds, blanks ≠ [] ∧ (∀ c ∈ blanks, Text.isBlank c = true) ∧ Text.isBlank d = false ∧
      '\n' ∉ d :: ds ∧ b :: rest = blanks ++ d :: ds := by
  have hsplit := List.takeWhile_append_dropWhile (p := Text.isBlank) (l := b :: rest)
  cases hdrop : (b :: rest).dropWhile Text.isBlank with
  | nil =>
    rw [List.dropWhile_eq_nil_iff] at hdrop
    have hblank := hdrop _ (List.getLast_mem (List.cons_ne_nil b rest))
    rw [hlast _ (by simp [List.getLast?_eq_some_getLast])] at hblank
    cases hblank
  | cons d ds =>
    refine ⟨(b :: rest).takeWhile Text.isBlank, d, ds, by simp [hb], fun _ =>
      List.mem_takeWhile_imp, ?_, ?_, ?_⟩
    · exact Lexeme.not_of_head?_dropWhile (by rw [hdrop]; rfl)
    · rw [← hdrop]
      exact fun hmem => hline (List.mem_append_right front ((List.dropWhile_suffix _).subset hmem))
    · rw [← hdrop, hsplit]

/-- The step is led by its word between blanks.

**Proof sketch.** From left to right, the pattern has found blanks, the word and a rest, which
starts with a blank. From right to left, the text after the word is blanks and a character that is
none, since its last one is none, so that the pattern finds a step. -/
theorem ledBy_afterStop? : LedBy "step".toList afterStop? := by
  intro cs hne hline hlast
  constructor
  · intro h
    have hstep : ∃ step, stepPart? cs = some step := by
      cases hstep : stepPart? cs with
      | some step => exact ⟨step, rfl⟩
      | none => simp [afterStop?, hstep, hne] at h
    obtain ⟨step, hstep⟩ := hstep
    rw [stepPart?] at hstep
    cases hafter : afterBlanksAndWord? "step" cs with
    | none => simp [hafter] at hstep
    | some rest =>
      simp only [hafter] at hstep
      obtain ⟨blanks, hblanks, hall, rfl⟩ := (afterBlanksAndWord?_eq_some_iff rfl rfl).1 hafter
      cases rest with
      | nil => cases hstep
      | cons b rest =>
        exact ⟨blanks, b, rest, hblanks, hall, isBlank_of_restAfter? hstep b rfl, rfl⟩
  · rintro ⟨blanks, b, rest, hblanks, hall, hb, rfl⟩
    have hafter : afterBlanksAndWord? "step" (blanks ++ ("step".toList ++ b :: rest)) =
        some (b :: rest) :=
      (afterBlanksAndWord?_eq_some_iff rfl rfl).2 ⟨blanks, hblanks, hall, rfl⟩
    rw [← List.append_assoc] at hlast hline
    obtain ⟨between, d, ds, hbetween, hbetween', hd, hline', hrest⟩ :=
      exists_of_getLast? hb hline hlast
    rw [afterStop?, stepPart?, hafter, hrest]
    dsimp only
    rw [restAfter?_append hbetween' (List.length_pos_of_ne_nil hbetween) hd (fits_of_notMem hline')]
    rfl

/-- The second bound is led by its word between blanks. -/
theorem ledBy_afterStart? : LedBy "to".toList afterStart? := by
  intro cs hne hline hlast
  constructor
  · intro h
    obtain ⟨stop, hstop⟩ := Option.isSome_iff_exists.1 h
    obtain ⟨rest, hafter, hskip⟩ := Option.bind_eq_some_iff.1 hstop
    obtain ⟨blanks, hblanks, hall, hcs⟩ := (afterBlanksAndWord?_eq_some_iff rfl rfl).1 hafter
    cases rest with
    | nil => cases hskip
    | cons b rest =>
      have hb : Text.isBlank b = true := by
        by_contra hb
        simp [skippingBlanks, hb] at hskip
      exact ⟨blanks, b, rest, hblanks, hall, hb, hcs⟩
  · rintro ⟨blanks, b, rest, hblanks, hall, hb, rfl⟩
    have hafter : afterBlanksAndWord? "to" (blanks ++ ("to".toList ++ b :: rest)) =
        some (b :: rest) :=
      (afterBlanksAndWord?_eq_some_iff rfl rfl).2 ⟨blanks, hblanks, hall, rfl⟩
    rw [← List.append_assoc] at hlast hline
    obtain ⟨between, d, ds, hbetween, hbetween', hd, hline', hrest⟩ :=
      exists_of_getLast? hb hline hlast
    obtain ⟨stop, hstop⟩ := exists_stopPart? (List.cons_ne_nil d ds) hline'
    rw [afterStart?, hafter, hrest, Option.bind_some,
      skippingBlanks_append hbetween' (List.length_pos_of_ne_nil hbetween)
      (by simpa using hd) hstop]
    rfl

/-- A part of a header: a formula without line feeds that starts and ends with no blank. -/
structure IsPart (src : String) (ts : List Token) : Prop where
  tokens : Formula.tokens src = .ok ts
  trimmed : Text.trimChars src.toList = src.toList
  line : '\n' ∉ src.toList

/-- What follows a part: nothing, or a blank and more on the same line up to its last character. -/
structure IsTail (rest : List Char) : Prop where
  spaced : rest = [] ∨ ∃ more, rest = ' ' :: more
  line : '\n' ∉ rest
  last : ∀ c ∈ rest.getLast?, Text.isBlank c = false

section Parts

variable {src : String} {ts : List Token} {rest : List Char}

/-- A part of a header is not empty, as an empty formula has no tokens. -/
theorem IsPart.ne_nil (h : IsPart src ts) : src.toList ≠ [] := by
  rw [← h.trimmed]
  exact Formula.trimChars_ne_nil_of_tokens h.tokens

/-- A later piece of a part with what follows is on one line, and ends with no blank. -/
theorem IsPart.append_isTail (h : IsPart src ts) (hrest : IsTail rest) {p q : List Char}
    (hpq : src.toList = p ++ q) :
    '\n' ∉ q ++ rest ∧ ∀ c ∈ (q ++ rest).getLast?, Text.isBlank c = false := by
  obtain ⟨-, hlast⟩ := Text.exists_ends_of_trimChars h.trimmed
  have hline := h.line
  rw [hpq] at hline hlast
  constructor
  · rw [List.mem_append, not_or]
    exact ⟨fun hmem => hline (List.mem_append_right p hmem), hrest.line⟩
  · intro c hc
    rw [List.getLast?_append, Option.mem_def, Option.or_eq_some_iff] at hc
    rcases hc with hc | ⟨-, hc⟩
    · exact hrest.last c hc
    · refine hlast c ?_
      rw [List.getLast?_append, hc]
      rfl

/-- **A part is cut off whole** before a keyword, exactly if none of its literals holds the keyword
between blanks. -/
theorem IsPart.cutBefore_iff {β : Type} {f : List Char → Option β} {first : Char} {name : List Char}
    (hstart : Text.isNameStart first = true) (hname : ∀ d ∈ name, Text.isNameChar d = true)
    (hled : LedBy (first :: name) f) (h : IsPart src ts)
    (hoperand : Lexeme.wordToken (first :: name) ∉ ts)
    (hrest : IsTail rest) {b given : β} (hb : f rest = some b) :
    cutBefore f (src.toList ++ rest) = some (src, given) ↔
      b = given ∧ ¬Token.LiteralHolds (first :: name) ts := by
  obtain ⟨hhead, -⟩ := Text.exists_ends_of_trimChars h.trimmed
  have hcut : cutBefore f (src.toList ++ rest) = some (String.ofList src.toList, given) ↔ _ :=
    cutBefore_append_iff h.ne_nil h.line hb
  rw [String.ofList_toList] at hcut
  rw [hcut]
  refine and_congr_right fun _ => ?_
  -- a later piece of the part, with the rest after it, is taken exactly if the keyword leads it
  have hlater : ∀ p q, src.toList = p ++ q → q ≠ [] →
      (f (q ++ rest) = none ↔ ¬Leads (first :: name) (q ++ rest)) := by
    intro p q hpq hq
    obtain ⟨hline, hlast⟩ := h.append_isTail hrest hpq
    rw [← hled (q ++ rest) (by simp [hq]) hline hlast]
    simp
  constructor
  · intro hnone hholds
    have hapart := Formula.standsApart_of_literalHolds h.tokens hholds
    rw [h.trimmed] at hapart
    obtain ⟨p, q, hpq, hp, hq, hleads⟩ := exists_leads_of_standsApart hhead hapart
    exact (hlater p q hpq hq).1 (hnone p q hpq hp hq) (hleads rest)
  · intro hholds p q hpq _ hq
    refine (hlater p q hpq hq).2 fun hleads => hholds ?_
    refine Formula.literalHolds_of_standsApart h.tokens hstart hname hoperand ?_
    rw [h.trimmed, hpq, List.append_assoc]
    have hblank : ∀ d ∈ first :: name, Text.isBlank d = false := fun d hd =>
      Text.isBlank_of_isPathChar (Lexeme.isPathChar_of_mem_word hstart hname hd)
    have hlast : ∀ c ∈ q.getLast?, Text.isBlank c = false := by
      have hlast := (h.append_isTail ⟨.inl rfl, by simp, by simp⟩ hpq).2
      rwa [List.append_nil] at hlast
    exact (standsApart_of_leads hblank hq hlast hrest.spaced hleads).mono
      (List.suffix_append _ _).isInfix

/-- The keyword before a stop. -/
theorem afterStart?_to (hhead : ∀ c ∈ rest.head?, Text.isBlank c = false)
    {stop : String × Option String}
    (hstop : stopPart? rest = some stop) :
    afterStart? (' ' :: 't' :: 'o' :: ' ' :: rest) = some stop := by
  have hword : afterBlanksAndWord? "to" (' ' :: 't' :: 'o' :: ' ' :: rest) = some (' ' :: rest) :=
    (afterBlanksAndWord?_eq_some_iff rfl rfl).2 ⟨[' '], by simp, List.all_eq_true.1 rfl, rfl⟩
  rw [afterStart?, hword, Option.bind_some, ← List.singleton_append]
  exact skippingBlanks_append (List.all_eq_true.1 rfl) (by simp) hhead hstop

/-- The keyword before a step. -/
theorem afterStop?_step (h : IsPart src ts) :
    afterStop? (' ' :: 's' :: 't' :: 'e' :: 'p' :: ' ' :: src.toList) = some (some src) := by
  obtain ⟨d, ds, hchars⟩ := List.exists_cons_of_ne_nil h.ne_nil
  have hd : Text.isBlank d = false :=
    (Text.exists_ends_of_trimChars h.trimmed).1 d (by simp [hchars])
  have hfits : fits false (d :: ds) = true := fits_of_notMem (hchars ▸ h.line)
  have hword : afterBlanksAndWord? "step" (' ' :: 's' :: 't' :: 'e' :: 'p' :: ' ' :: src.toList) =
      some (' ' :: src.toList) :=
    (afterBlanksAndWord?_eq_some_iff rfl rfl).2 ⟨[' '], by simp, List.all_eq_true.1 rfl, rfl⟩
  have hrest : restAfter? 1 false (' ' :: src.toList) = some src := by
    rw [← String.ofList_toList (s := src), String.toList_ofList, hchars, ← List.singleton_append]
    exact restAfter?_append (List.all_eq_true.1 rfl) (by simp) hd hfits
  rw [afterStop?, stepPart?, hword]
  dsimp only
  rw [hrest]

variable {start stop : String} {us : List Token} {step : Option String}

/-- **The bounds of a loop** are found as they were put together, exactly if no literal of the start
holds a `to` and none of the stop a `step` between blanks.

**Proof sketch.** The header is cut twice: at the first `to` after which a stop can be read, and at
the first `step` of what follows. Each cut is where the header was put together exactly if no
literal before it holds the word (`IsPart.cutBefore_iff`), and some cut is found in any case. -/
theorem bounds?_iff (hstart : IsPart start ts) (hstop : IsPart stop us) (hto : .word "to" ∉ ts)
    (hstep : .word "step" ∉ us) (hrest : IsTail rest) (hafter : afterStop? rest = some step) :
    (∃ found, bounds? (start.toList ++ ' ' :: 't' :: 'o' :: ' ' :: (stop.toList ++ rest)) =
      some found) ∧
    (bounds? (start.toList ++ ' ' :: 't' :: 'o' :: ' ' :: (stop.toList ++ rest)) =
        some (start, stop, step) ↔
      ¬Token.LiteralHolds "to".toList ts ∧ ¬Token.LiteralHolds "step".toList us) := by
  obtain ⟨hline, hlast⟩ := hstop.append_isTail hrest (List.nil_append _).symm
  have hhead : ∀ c ∈ (stop.toList ++ rest).head?, Text.isBlank c = false := by
    rw [List.head?_append_of_ne_nil _ hstop.ne_nil]
    exact (Text.exists_ends_of_trimChars hstop.trimmed).1
  have htail : IsTail (' ' :: 't' :: 'o' :: ' ' :: (stop.toList ++ rest)) := by
    refine ⟨.inr ⟨_, rfl⟩, by simpa using hline, ?_⟩
    rw [show ' ' :: 't' :: 'o' :: ' ' :: (stop.toList ++ rest) =
      [' ', 't', 'o', ' '] ++ (stop.toList ++ rest)
      from rfl, List.getLast?_append_of_ne_nil _ (by simp [hstop.ne_nil])]
    exact hlast
  obtain ⟨found, hfound⟩ := exists_stopPart? (by simp [hstop.ne_nil]) hline
  have hkeyword := afterStart?_to hhead hfound
  have hcutStop : cutBefore afterStop? (stop.toList ++ rest) = some (stop, step) ↔
      step = step ∧ ¬Token.LiteralHolds ['s', 't', 'e', 'p'] us :=
    hstop.cutBefore_iff rfl (List.all_eq_true.1 rfl) ledBy_afterStop? hstep hrest hafter
  have hcutStart : cutBefore afterStart?
      (start.toList ++ ' ' :: 't' :: 'o' :: ' ' :: (stop.toList ++ rest)) =
        some (start, (stop, step)) ↔
      found = (stop, step) ∧ ¬Token.LiteralHolds ['t', 'o'] ts :=
    hstart.cutBefore_iff rfl (List.all_eq_true.1 rfl) ledBy_afterStart? hto htail hkeyword
  rw [← stopPart?_eq, hfound, Option.some.injEq] at hcutStop
  constructor
  · -- the `to` of the header itself is a place to cut at, if there is no earlier one
    obtain ⟨p, q, given, -, -, -, hcut⟩ := exists_cutBefore hstart.ne_nil hstart.line hkeyword
    exact ⟨_, (bounds?_eq _).trans hcut⟩
  · rw [bounds?_eq, hcutStart, hcutStop]
    exact ⟨fun h => ⟨h.2, h.1.2⟩, fun h => ⟨⟨rfl, h.2⟩, h.1⟩⟩

end Parts

/-- The header of a loop, up to its start. -/
theorem forHeader?_append {c : Char} {taken cs : List Char} (hstart : Text.isNameStart c = true)
    (htaken : ∀ d ∈ taken, Text.isWordChar d = true) (hcs : ∀ d ∈ cs.head?, Text.isBlank d = false)
    {start stop : String} {step : Option String} (h : bounds? cs = some (start, stop, step)) :
    forHeader? ('$' :: (c :: taken ++ (' ' :: '=' :: ' ' :: cs))) =
      some ⟨String.ofList (c :: taken), start, stop, step⟩ := by
  have hspace : ∀ d ∈ (' ' :: '=' :: ' ' :: cs).head?, Text.isWordChar d = false := by
    intro d hd
    obtain rfl : ' ' = d := by simpa using hd
    decide +kernel
  have hname : dollarName? Text.isWordChar ('$' :: (c :: taken ++ (' ' :: '=' :: ' ' :: cs))) =
      some (String.ofList (c :: taken), ' ' :: '=' :: ' ' :: cs) :=
    name?_append hstart htaken hspace
  have htrim : Text.trimStart (' ' :: '=' :: ' ' :: cs) = '=' :: ' ' :: cs := rfl
  have hskip : skippingBlanks 0 bounds? ([' '] ++ cs) = some (start, stop, step) :=
    skippingBlanks_append (List.all_eq_true.1 rfl) (by simp) hcs h
  rw [List.singleton_append] at hskip
  rw [forHeader?, hname]
  dsimp only
  rw [htrim]
  exact congrArg (Option.map _) hskip

end Pattern

namespace Statement

/-- The line of a counting loop is read as the parts of its header.

**Proof sketch.** The line is taken apart from left to right: the word `for` and the text after it
(`hcommand`), the name and the bounds in this text (`hheader`). -/
theorem parse_for {name text : String}
    (hname : ∃ c taken, Text.isNameStart c = true ∧ (∀ d ∈ taken, Text.isWordChar d = true) ∧
      name.toList = c :: taken)
    (hhead : ∀ d ∈ text.toList.head?, Text.isBlank d = false) (hline : '\n' ∉ text.toList)
    {start stop : String} {step : Option String}
    (h : Pattern.bounds? text.toList = some (start, stop, step)) :
    parse ("for $" ++ name ++ " = " ++ text) = .ok (.count name start stop step) := by
  obtain ⟨c, taken, hstart, htaken, hchars⟩ := hname
  have hheader := Pattern.forHeader?_append hstart htaken hhead h
  have hfits : Pattern.fits false ('$' :: (c :: taken ++ (' ' :: '=' :: ' ' :: text.toList))) =
      true := by
    have hname : '\n' ∉ c :: taken := by
      intro hmem
      rcases List.mem_cons.1 hmem with rfl | hmem
      · exact absurd hstart (by decide +kernel)
      · exact absurd (htaken _ hmem) (by decide +kernel)
    refine Pattern.fits_of_notMem ?_
    rw [List.mem_cons, List.mem_append, not_or, not_or]
    exact ⟨by decide, hname, by simpa using hline⟩
  have hcommand : Pattern.command? Pattern.isQualifiedChar false
      ("for $" ++ name ++ " = " ++ text).toList =
      some ("for",
        some (String.ofList ('$' :: (c :: taken ++ (' ' :: '=' :: ' ' :: text.toList))))) := by
    have happend : ("for $" ++ name ++ " = " ++ text).toList =
        'f' :: ['o', 'r'] ++
          ([' '] ++ '$' :: (c :: taken ++ (' ' :: '=' :: ' ' :: text.toList))) := by
      simp [String.toList_append, hchars]
    rw [happend]
    exact Pattern.command?_append rfl (List.all_eq_true.1 rfl) (by simp)
      (List.all_eq_true.1 rfl) rfl hfits
  have hfor : parseFor (String.ofList ('$' :: (c :: taken ++ (' ' :: '=' :: ' ' :: text.toList)))) =
      .ok (.count name start stop step) := by
    rw [parseFor, String.toList_ofList, hheader, ← hchars, String.ofList_toList]
  rw [parse, hcommand]
  exact hfor

/-- The parts of a loop, for a header that ends after its stop or goes on with a step. -/
theorem parse_count_iff {name start stop rest : String} {ts us : List Token} {step : Option String}
    (hname : ∃ c taken, Text.isNameStart c = true ∧ (∀ d ∈ taken, Text.isWordChar d = true) ∧
      name.toList = c :: taken)
    (hstart : Pattern.IsPart start ts) (hstop : Pattern.IsPart stop us) (hto : .word "to" ∉ ts)
    (hstep : .word "step" ∉ us) (hrest : Pattern.IsTail rest.toList)
    (hafter : Pattern.afterStop? rest.toList = some step) :
    parse ("for $" ++ name ++ " = " ++ (start ++ " to " ++ stop ++ rest)) =
        .ok (.count name start stop step) ↔
      ¬Token.LiteralHolds "to".toList ts ∧ ¬Token.LiteralHolds "step".toList us := by
  have htext : (start ++ " to " ++ stop ++ rest).toList =
      start.toList ++ ' ' :: 't' :: 'o' :: ' ' :: (stop.toList ++ rest.toList) := by
    simp
  obtain ⟨⟨⟨start', stop', step'⟩, hfound⟩, hiff⟩ :=
    Pattern.bounds?_iff hstart hstop hto hstep hrest hafter
  have hline : '\n' ∉ (start ++ " to " ++ stop ++ rest).toList := by
    simp [hstart.line, hstop.line, hrest.line]
  have hhead : ∀ c ∈ (start ++ " to " ++ stop ++ rest).toList.head?, Text.isBlank c = false := by
    rw [htext, List.head?_append_of_ne_nil _ hstart.ne_nil]
    exact (Text.exists_ends_of_trimChars hstart.trimmed).1
  rw [← htext] at hfound hiff
  rw [parse_for hname hhead hline hfound, ← hiff, hfound]
  simp

/-- **The statement of a counting loop** has the parts its header was put together from, with or
without a step, exactly if no literal of the start holds a `to` between blanks, and none of the stop
a `step`. The formulas themselves may be any, but for these two words as operands.

**Proof sketch.** The header is cut at the first place where something fits
(`Pattern.exists_firstCut`), which is where a keyword stands between blanks, or the end. In a
formula, a word between blanks is an operand or inside a literal (`Lexeme.Reads.standsApart`), so
without the operands only literals can have the header cut too early
(`Pattern.IsPart.cutBefore_iff`). -/
theorem count_parts_iff (name start stop step : String) {ts us vs : List Token}
    (hname : ∃ c taken, Text.isNameStart c = true ∧ (∀ d ∈ taken, Text.isWordChar d = true) ∧
      name.toList = c :: taken)
    (hstart : Pattern.IsPart start ts) (hstop : Pattern.IsPart stop us)
    (hstep : Pattern.IsPart step vs) (hto : .word "to" ∉ ts) (hword : .word "step" ∉ us) :
    (parse ("for $" ++ name ++ " = " ++ start ++ " to " ++ stop) =
      .ok (.count name start stop none) ↔
      ¬Token.LiteralHolds "to".toList ts ∧ ¬Token.LiteralHolds "step".toList us) ∧
    (parse ("for $" ++ name ++ " = " ++ start ++ " to " ++ stop ++ " step " ++ step) =
        .ok (.count name start stop (some step)) ↔
      ¬Token.LiteralHolds "to".toList ts ∧ ¬Token.LiteralHolds "step".toList us) := by
  constructor
  · have hiff : parse ("for $" ++ name ++ " = " ++ (start ++ " to " ++ stop ++ "")) = _ ↔ _ :=
      parse_count_iff hname hstart hstop hto hword ⟨.inl rfl, by simp, by simp⟩ rfl
    simpa only [String.append_empty, String.append_assoc] using hiff
  · have hchars : (" step " ++ step).toList =
        ' ' :: 's' :: 't' :: 'e' :: 'p' :: ' ' :: step.toList := by
      simp
    have htail : Pattern.IsTail (" step " ++ step).toList := by
      rw [hchars]
      refine ⟨.inr ⟨_, rfl⟩, by simpa using hstep.line, ?_⟩
      rw [show ' ' :: 's' :: 't' :: 'e' :: 'p' :: ' ' :: step.toList =
        [' ', 's', 't', 'e', 'p', ' '] ++ step.toList from rfl,
        List.getLast?_append_of_ne_nil _ hstep.ne_nil]
      exact (Text.exists_ends_of_trimChars hstep.trimmed).2
    have hafter : Pattern.afterStop? (" step " ++ step).toList = some (some step) := by
      rw [hchars]
      exact Pattern.afterStop?_step hstep
    have hiff := parse_count_iff hname hstart hstop hto hword htail hafter
    simpa only [String.append_assoc] using hiff

/-- A call with a `to` before a quote, a collection with a `step` before each of two quotes, and a
reference. -/
theorem count_parts_iff_quoted :
    parse ("for $" ++ "i" ++ " = " ++ "\x7blen 'go to'\x7d" ++ " to " ++ "['step', 'a step']" ++
      " step " ++
      "$w") = .ok (.count "i" "\x7blen 'go to'\x7d" "['step', 'a step']" (some "$w")) := by
  have hcall : Nesting.takeLiteral { braces := 1 } ("len 'go to'".toList ++ ['\x7d']) =
      .ok ("len 'go to'".toList, []) := by
    rfl
  have hcollection : Nesting.takeLiteral { brackets := 1 } ("'step', 'a step'".toList ++ [']']) =
      .ok ("'step', 'a step'".toList, []) := by
    rfl
  have hstart : Pattern.IsPart "\x7blen 'go to'\x7d" [.call "len 'go to'"] :=
    ⟨Formula.tokens_of_literal '\x7b' (by decide +kernel) rfl hcall, by decide +kernel,
      by decide +kernel⟩
  have hstop : Pattern.IsPart "['step', 'a step']" [.collection "'step', 'a step'"] :=
    ⟨Formula.tokens_of_literal '[' (by decide +kernel) rfl hcollection, by decide +kernel,
      by decide +kernel⟩
  have hstep : Pattern.IsPart "$w" [.reference "w"] :=
    ⟨Formula.tokens_of_operand (.reference 'w' [] (by decide +kernel) (by simp)), by decide +kernel,
      by decide +kernel⟩
  have hto : ¬Token.LiteralHolds "to".toList [.call "len 'go to'"] :=
    Token.not_literalHolds_of_all (by decide +kernel)
  have hheld : ¬Token.LiteralHolds "step".toList [.collection "'step', 'a step'"] :=
    Token.not_literalHolds_of_all (by decide +kernel)
  exact (count_parts_iff "i" _ _ _ ⟨'i', [], by decide +kernel, by simp, rfl⟩ hstart hstop hstep
    (by simp) (by simp)).2.2 ⟨hto, hheld⟩

/-- **A literal that is cut in two.** The call of the start holds a `to` between blanks, so the
header is cut there, though its parts are formulas without either word as an operand. -/
theorem count_cuts_literal :
    Pattern.IsPart "\x7bstring:length 'a to b'\x7d" [.call "string:length 'a to b'"] ∧
    Pattern.IsPart "9" [.number (Number.ofDigits ['9'] [])] ∧
    parse ("for $" ++ "i" ++ " = " ++ "\x7bstring:length 'a to b'\x7d" ++ " to " ++ "9") =
      .ok (.count "i" "\x7bstring:length 'a" "b'\x7d to 9" none) := by
  have hcall : Nesting.takeLiteral { braces := 1 } ("string:length 'a to b'".toList ++ ['\x7d']) =
      .ok ("string:length 'a to b'".toList, []) := by
    rfl
  have hnumber : Formula.tokens "9" = .ok [.number (Number.ofDigits ['9'] [])] :=
    Formula.tokens_of_operand (.integer ['9'] (by simp) (List.all_eq_true.1 rfl))
  exact ⟨⟨Formula.tokens_of_literal '\x7b' (by decide +kernel) rfl hcall, by decide +kernel,
    by decide +kernel⟩, ⟨hnumber, by decide +kernel, by decide +kernel⟩, by decide +kernel⟩

end Statement

end LineScript
