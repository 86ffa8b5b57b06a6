import LineScript.Proofs.Formula.Depth
import LineScript.Proofs.Lists

set_option relaxedAutoImplicit false
set_option autoImplicit false

/-!
# Texts that end inside a literal

A text that ends inside a literal is refused, and the error names a delimiter that is still open.
The stack of the open brackets and braces has the innermost one on top. The scan has two counters in
its place, which have forgotten in what order they were opened: it names a string if the text ends
inside one, else a bracket if any is open, else a brace. That is the innermost delimiter, but for a
brace inside a bracket.

## Main definitions

* `LineScript.openString` — in which string a text ends.
* `LineScript.Delimiter.openIn?` — the brackets and braces that are open at the end of a text.
* `LineScript.Delimiter.innermost?`, `LineScript.Delimiter.reported?` — the innermost delimiter, and
  the one that is named.
* `LineScript.Nesting.Tallies` — the counters of a scan that agree with a stack.
* `LineScript.Shunt.Strands`, `LineScript.Formula.EndsInside` — the formulas that end inside a
  literal.

## Main results

* `LineScript.Nesting.scan_tallies` — over a text that is nested so far, counters and stack agree.
* `LineScript.Lexeme.exists_scan_of_read` — the scan over a lexeme comes back to where it was.
* `LineScript.Formula.endsInside_iff` — the formulas that are refused at their end.
* `LineScript.Formula.unterminated_reported` — the delimiter that is named.
* `LineScript.Formula.unterminated_brace_in_bracket` — a brace inside a bracket.
-/

namespace LineScript

/-! ## What is open at the end of a text -/

/-- In which string a text ends, if it starts in the string of the given quote or outside strings.
-/
def openString : Option Quote → List Char → Option Quote
  | quote, [] => quote
  | none, '\'' :: cs => openString (some .single) cs
  | none, '"' :: cs => openString (some .double) cs
  | none, _ :: cs => openString none cs
  | some quote, '\\' :: _ :: cs => openString (some quote) cs
  | some quote, c :: cs => openString (if c = quote.char then none else some quote) cs

namespace Delimiter

/-- The brackets and braces outside strings that are open at the end of a text, the most recent one
first. There are none to tell if a closer did not match the most recent opener. -/
def openIn? (s : String) : Option (List Delimiter) :=
  (outsideStrings none s.toList).foldlM stackAfter? []

/-- The innermost delimiter that is open at the end of a text: a string, else the most recent
bracket or brace. -/
def innermost? (s : String) (opened : List Delimiter) : Option Delimiter :=
  if (openString none s.toList).isSome then some .string else opened.head?

/-- The text ends inside a brace, outside strings, and a bracket is open around the brace. -/
def BraceInBracket (s : String) (opened : List Delimiter) : Prop :=
  openString none s.toList = none ∧ opened.head? = some .call ∧ .collection ∈ opened

/-- Whether a brace is innermost but a bracket is open can be decided. -/
instance (s : String) (opened : List Delimiter) : Decidable (BraceInBracket s opened) :=
  inferInstanceAs (Decidable (_ ∧ _))

/-- The delimiter that is named when a text ends inside it: the innermost one, but the bracket
around a brace. -/
def reported? (s : String) (opened : List Delimiter) : Option Delimiter :=
  if BraceInBracket s opened then some .collection else innermost? s opened

/-! ### What the stack accepts -/

/-- The ways in which the stack accepts a character outside strings. -/
inductive StackStep : List Delimiter → Char → List Delimiter → Prop
  | openBracket (opened : List Delimiter) : StackStep opened '[' (.collection :: opened)
  | openBrace (opened : List Delimiter) : StackStep opened '\x7b' (.call :: opened)
  | closeBracket (outer : List Delimiter) : StackStep (.collection :: outer) ']' outer
  | closeBrace (outer : List Delimiter) : StackStep (.call :: outer) '\x7d' outer
  | other {opened : List Delimiter} {c : Char} :
      c ∉ ['[', '\x7b', ']', '\x7d'] → StackStep opened c opened

/-- A character that the stack accepts is accepted in one of these ways. -/
theorem stackStep_of_stackAfter? {opened opened' : List Delimiter} {c : Char}
    (h : stackAfter? opened c = some opened') : StackStep opened c opened' := by
  unfold stackAfter? at h
  split at h
  · cases h
    exact .openBracket opened
  · cases h
    exact .openBrace opened
  · cases h
    exact .closeBracket opened'
  · cases h
    exact .closeBrace opened'
  · cases h
  · cases h
  · cases h
    exact .other (by simp_all)

end Delimiter

namespace Nesting

variable {n m : Nesting} {cs ds : List Char} {opened opened' : List Delimiter}

/-! ## Counters and stack -/

/-- The counters of the scan count the brackets and braces on the stack. -/
structure Tallies (n : Nesting) (opened : List Delimiter) : Prop where
  brackets : n.brackets = opened.count .collection
  braces : n.braces = opened.count .call
  noString : .string ∉ opened

/-- Scanning a text and then another one. -/
theorem scan_append_of_scan (h : n.scan cs = .ok m) (ds : List Char) :
    n.scan (cs ++ ds) = m.scan ds := by
  rw [scan, List.foldlM_append, ← scan, h]
  rfl

/-- Scanning a text after its first character. -/
theorem scan_of_feed {c : Char} (h : n.feed c = .ok m) (cs : List Char) :
    n.scan (c :: cs) = m.scan cs := by
  rw [scan_cons, h]
  rfl

/-- A character that the stack accepts outside strings is counted. -/
theorem Tallies.feed {b k : Nat} {c : Char} (h : Tallies ⟨none, false, b, k⟩ opened)
    (hsingle : c ≠ '\'') (hdouble : c ≠ '"')
    (hstack : Delimiter.stackAfter? opened c = some opened') :
    ∃ b' k', Nesting.feed ⟨none, false, b, k⟩ c = .ok ⟨none, false, b', k'⟩ ∧
      Tallies ⟨none, false, b', k'⟩ opened' := by
  obtain ⟨hb, hk, hstring⟩ := h
  dsimp only at hb hk
  subst hb hk
  cases Delimiter.stackStep_of_stackAfter? hstack with
  | openBracket => exact ⟨_, _, rfl, by simp, by simp, by simpa using hstring⟩
  | openBrace => exact ⟨_, _, rfl, by simp, by simp, by simpa using hstring⟩
  -- a closer that the stack accepts is on top of it, so that its counter is not zero
  | closeBracket =>
    refine ⟨opened'.count .collection, opened'.count .call, ?_, rfl, rfl, by simpa using hstring⟩
    simp [Nesting.feed, feedPlain]
  | closeBrace =>
    refine ⟨opened'.count .collection, opened'.count .call, ?_, rfl, rfl, by simpa using hstring⟩
    simp [Nesting.feed, feedPlain]
  | other hother =>
    refine ⟨opened.count .collection, opened.count .call, ?_, rfl, rfl, hstring⟩
    simp_all [Nesting.feed, feedPlain]

/-- **Counters and stack agree** over a text that is nested so far.

**Proof sketch.** Induction along the characters outside of strings. Such a character changes the
counters as it changes the stack (`Tallies.feed`); one within a string changes neither. -/
theorem scan_tallies {quote : Option Quote} {b k : Nat} (h : Tallies ⟨quote, false, b, k⟩ opened)
    (hstack : (outsideStrings quote cs).foldlM Delimiter.stackAfter? opened = some opened') :
    ∃ m, scan ⟨quote, false, b, k⟩ cs = .ok m ∧ m.quote = openString quote cs ∧
      m.Tallies opened' := by
  fun_induction outsideStrings quote cs generalizing b k opened with
  | case1 quote =>
    cases hstack
    exact ⟨_, rfl, by rw [openString], h⟩
  | case2 cs ih => exact ih ⟨h.brackets, h.braces, h.noString⟩ hstack
  | case3 cs ih => exact ih ⟨h.brackets, h.braces, h.noString⟩ hstack
  | case4 c cs hsingle hdouble ih =>
    rw [List.foldlM_cons] at hstack
    obtain ⟨opened₁, hafter, hstack⟩ := Option.bind_eq_some_iff.1 hstack
    obtain ⟨b₁, k₁, hfeed, htallies⟩ := h.feed hsingle hdouble hafter
    rw [scan_of_feed hfeed, openString]
    · exact ih htallies hstack
    · exact hsingle
    · exact hdouble
  | case5 quote escaped cs ih => exact ih h hstack
  | case6 quote c cs hescape ih =>
    by_cases hbackslash : c = '\\'
    · -- a backslash at the end of the text takes nothing with it
      obtain rfl : cs = [] := by
        cases cs with
        | nil => rfl
        | cons d ds => exact absurd rfl (hescape d ds hbackslash)
      cases hstack
      subst hbackslash
      exact ⟨⟨some quote, true, b, k⟩, rfl, by cases quote <;> rfl, h.brackets, h.braces,
        h.noString⟩
    · have hfeed : Nesting.feed ⟨some quote, false, b, k⟩ c =
          .ok ⟨if c = quote.char then none else some quote, false, b, k⟩ := by
        simp only [Nesting.feed, feedQuoted, if_neg hbackslash, Bool.false_eq_true, if_false]
        by_cases hquote : c = quote.char
        · rw [if_pos hquote, if_pos hquote]
        · rw [if_neg hquote, if_neg hquote]
      rw [scan_of_feed hfeed, openString]
      · exact ih ⟨h.brackets, h.braces, h.noString⟩ hstack
      · exact hescape

/-- What is named for counters that agree with a stack. -/
theorem Tallies.unterminated? {s : String} (h : n.Tallies opened)
    (hquote : n.quote = openString none s.toList) :
    n.unterminated? = Delimiter.reported? s opened := by
  unfold Nesting.unterminated? Delimiter.reported? Delimiter.innermost?
  rw [hquote, h.brackets, h.braces]
  cases hopen : openString none s.toList with
  | some quote => simp [Delimiter.BraceInBracket, hopen]
  | none =>
    have hstring := h.noString
    cases opened with
    | nil => simp [Delimiter.BraceInBracket]
    | cons d outer =>
      cases d with
      | string => simp at hstring
      | collection => simp [Delimiter.BraceInBracket]
      | call =>
        by_cases hmem : .collection ∈ outer
        · simp [Delimiter.BraceInBracket, hopen, hmem, List.count_eq_zero]
        · simp [Delimiter.BraceInBracket, hopen, hmem, List.count_eq_zero]

end Nesting

/-- **The delimiter that is named** after a text that is nested so far. -/
theorem exists_scan_of_openIn? {s : String} {opened : List Delimiter}
    (h : Delimiter.openIn? s = some opened) :
    ∃ n, Nesting.start.scan s.toList = .ok n ∧ n.unterminated? = Delimiter.reported? s opened := by
  have hstart : Nesting.start.Tallies [] := ⟨rfl, rfl, by simp⟩
  obtain ⟨n, hscan, hquote, htallies⟩ := Nesting.scan_tallies hstart h
  exact ⟨n, hscan, htallies.unterminated? hquote⟩

/-- The innermost delimiter is named, but for a brace inside a bracket. -/
theorem Delimiter.innermost?_eq_reported?_iff (s : String) (opened : List Delimiter) :
    innermost? s opened = reported? s opened ↔ ¬BraceInBracket s opened := by
  unfold reported?
  by_cases hinside : BraceInBracket s opened
  · simp [hinside, innermost?, hinside.1, hinside.2.1]
  · simp [hinside]

/-! ## The scan over nested texts and literals -/

/-- The body of a string is scanned inside the string. By induction on the body, in which an escape
takes the next character with it. -/
theorem Quote.Body.scan {quote : Quote} {inner : List Char} (h : quote.Body inner) (b k : Nat) :
    Nesting.scan ⟨some quote, false, b, k⟩ inner = .ok ⟨some quote, false, b, k⟩ := by
  induction h with
  | nil => rfl
  | escape _ ih => exact ih
  | @char c cs hescape hquote _ ih =>
    have hfeed : Nesting.feed ⟨some quote, false, b, k⟩ c = .ok ⟨some quote, false, b, k⟩ := by
      simp [Nesting.feed, Nesting.feedQuoted, hescape, hquote]
    rw [Nesting.scan_of_feed hfeed, ih]

/-- **The scan is as before** after a nested text. -/
theorem Nested.scan {cs : List Char} (h : Nested cs) (b k : Nat) :
    Nesting.scan ⟨none, false, b, k⟩ cs = .ok ⟨none, false, b, k⟩ := by
  induction h generalizing b k with
  | nil => rfl
  | ordinary hc _ ih => rw [Nesting.scan_of_feed (Nesting.feed_of_isOrdinary hc rfl), ih]
  | comma _ ih => exact ih b k
  | @string quote inner cs hinner _ ih =>
    have hopen : Nesting.feed ⟨none, false, b, k⟩ quote.char = .ok ⟨some quote, false, b, k⟩ := by
      cases quote <;> rfl
    have hclose : Nesting.feed ⟨some quote, false, b, k⟩ quote.char = .ok ⟨none, false, b, k⟩ := by
      cases quote <;> rfl
    rw [Nesting.scan_of_feed hopen, Nesting.scan_append_of_scan (hinner.scan b k),
      Nesting.scan_of_feed hclose, ih]
  | brackets _ _ ihinner ih =>
    have hopen : Nesting.feed ⟨none, false, b, k⟩ '[' = .ok ⟨none, false, b + 1, k⟩ := rfl
    have hclose : Nesting.feed ⟨none, false, b + 1, k⟩ ']' = .ok ⟨none, false, b, k⟩ := rfl
    rw [Nesting.scan_of_feed hopen, Nesting.scan_append_of_scan (ihinner (b + 1) k),
      Nesting.scan_of_feed hclose, ih]
  | braces _ _ ihinner ih =>
    have hopen : Nesting.feed ⟨none, false, b, k⟩ '\x7b' = .ok ⟨none, false, b, k + 1⟩ := rfl
    have hclose : Nesting.feed ⟨none, false, b, k + 1⟩ '\x7d' = .ok ⟨none, false, b, k⟩ := rfl
    rw [Nesting.scan_of_feed hopen, Nesting.scan_append_of_scan (ihinner b (k + 1)),
      Nesting.scan_of_feed hclose, ih]

namespace Nesting

variable {n m : Nesting} {cs inner : List Char} {last : Char} {e : ScriptError}

/-- After a literal, nothing is open. -/
theorem Encloses.scan (h : n.Encloses inner last) (hn : n.Settled) :
    n.scan (inner ++ [last]) = .ok .start := by
  induction h with
  | close hfeed htop =>
    rw [List.nil_append, scan_of_feed hfeed, (hn.feed hfeed).eq_start htop]
    rfl
  | inside hfeed _ _ ih =>
    rw [List.cons_append, scan_of_feed hfeed]
    exact ih (hn.feed hfeed)

/-- **A literal that cannot be taken** has a stray closer in it, or the text ends inside it.

**Proof sketch.** Induction on the text. The literal fails at a character that the scan refuses,
too, or it comes to the end of the text with a state that is not the top. -/
theorem scan_of_takeLiteral (hn : n.atTop = false) (h : n.takeLiteral cs = .error e) :
    n.scan cs = .error e ∨
      ∃ m d, n.scan cs = .ok m ∧ m.unterminated? = some d ∧ e = .unterminated d := by
  induction cs generalizing n with
  | nil =>
    cases hopen : n.unterminated? with
    | none =>
      rw [atTop_of_unterminated? hopen] at hn
      cases hn
    | some d =>
      rw [takeLiteral, hopen] at h
      cases h
      exact .inr ⟨n, d, rfl, hopen, rfl⟩
  | cons c cs ih =>
    rw [takeLiteral] at h
    cases hfeed : n.feed c with
    | error e' =>
      obtain rfl : e' = e := by simpa [hfeed] using h
      left
      rw [scan_cons, hfeed]
      rfl
    | ok n' =>
      rw [scan_of_feed hfeed]
      cases htop : n'.atTop with
      | true => simp [hfeed, htop] at h
      | false =>
        refine ih htop ?_
        cases htake : n'.takeLiteral cs with
        | error e' => simpa [hfeed, htop, htake] using h
        | ok taken => simp [hfeed, htop, htake] at h

/-- A blank outside of strings changes nothing. -/
theorem feed_of_isBlank {c : Char} (hc : Text.isBlank c = true) (hquote : n.quote = none) :
    n.feed c = .ok n :=
  feed_of_isOrdinary (isOrdinary_of_class (by decide) hc) hquote

/-- A literal can be taken exactly if some character closes it. -/
theorem takeLiteral_fails_iff : (∃ e, n.takeLiteral cs = .error e) ↔
    ∀ inner last rest, cs = inner ++ last :: rest → ¬n.Encloses inner last := by
  constructor
  · rintro ⟨e, htake⟩ inner last rest rfl hencloses
    rw [hencloses.takeLiteral] at htake
    cases htake
  · intro hopen
    cases htake : n.takeLiteral cs with
    | error e => exact ⟨e, rfl⟩
    | ok taken =>
      obtain ⟨last, htext, hencloses⟩ := exists_encloses_of_takeLiteral htake
      exact absurd hencloses (hopen taken.1 last taken.2 htext)

/-- Blanks open and close nothing. -/
theorem exists_feed_of_isBlank {c : Char} (hc : Text.isBlank c = true) (n : Nesting) :
    ∃ m, n.feed c = .ok m ∧ m.unterminated? = n.unterminated? := by
  obtain ⟨quote, escaped, b, k⟩ := n
  cases quote with
  | none => exact ⟨_, feed_of_isBlank hc rfl, rfl⟩
  | some quote =>
    refine ⟨_, rfl, ?_⟩
    have hquote : c ≠ quote.char := by
      rintro rfl
      cases quote <;> cases hc
    simp only [feedQuoted, if_neg hquote]
    split
    · rfl
    · split <;> rfl

/-- Blanks leave open what is open, inside a string, too. By induction on them. -/
theorem exists_scan_of_isBlank (hcs : ∀ c ∈ cs, Text.isBlank c = true) (n : Nesting) :
    ∃ m, n.scan cs = .ok m ∧ m.unterminated? = n.unterminated? := by
  induction cs generalizing n with
  | nil => exact ⟨n, rfl, rfl⟩
  | cons c cs ih =>
    obtain ⟨n', hfeed, hopen⟩ := exists_feed_of_isBlank (hcs c List.mem_cons_self) n
    obtain ⟨m, hscan, hopen'⟩ := ih (fun d hd => hcs d (List.mem_cons_of_mem _ hd)) n'
    exact ⟨m, by rw [scan_of_feed hfeed, hscan], hopen'.trans hopen⟩

/-- What can be scanned can be scanned up to any place in it. -/
theorem exists_scan_of_append {ds : List Char} (h : n.scan (cs ++ ds) = .ok m) :
    ∃ k, n.scan cs = .ok k := by
  cases hscan : n.scan cs with
  | error e =>
    rw [scan, List.foldlM_append, ← scan, hscan] at h
    cases h
  | ok k => exact ⟨k, rfl⟩

/-- **Blanks around a text** make no difference to what is open after it. -/
theorem exists_scan_of_trimChars (h : start.scan (Text.trimChars cs) = .ok n) :
    ∃ m, start.scan cs = .ok m ∧ m.unterminated? = n.unterminated? := by
  obtain ⟨before, after, hbefore, hafter, htext⟩ := Text.exists_eq_append_trimChars cs
  obtain ⟨m, hscan, hopen⟩ := exists_scan_of_isBlank hafter n
  refine ⟨m, ?_, hopen⟩
  have hfront : start.scan before = .ok start := (nested_of_isBlank hbefore).scan 0 0
  rw [htext, List.append_assoc, scan_append_of_scan hfront, scan_append_of_scan h, hscan]

end Nesting

/-! ## Formulas -/

/-- The errors that are meant for a text which ends inside a literal. -/
def ScriptError.EndsInside : ScriptError → Prop
  | .internal => True
  | .unterminated _ => True
  | _ => False

/-- A token without a formula in it has none that is open. -/
theorem Token.innerNested_of_inner? (token : Token) (h : token.inner? = none) :
    token.InnerNested := by
  cases token with
  | collection _ => cases h
  | call _ => cases h
  | _ => trivial

namespace Lexeme

variable {c : Char} {cs rest : List Char} {lexeme : Lexeme} {e : ScriptError}

/-- A character that opens a literal opens it for the scan. -/
theorem feed_of_literal? {n : Nesting} {make : String → Token} (h : literal? c = some (n, make)) :
    Nesting.start.feed c = .ok n ∧ n.atTop = false := by
  cases opens_of_literal? h <;> exact ⟨rfl, rfl⟩

/-- No blank starts a literal. -/
theorem isBlank_of_literal? {n : Nesting} {make : String → Token}
    (h : literal? c = some (n, make)) :
    Text.isBlank c = false := by
  cases opens_of_literal? h <;> rfl

/-- What is read neither goes on to the end of the text nor holds formulas. -/
def IsPlain (result : Except ScriptError (Lexeme × List Char)) : Prop :=
  (∀ e, result = .error e → ¬e.EndsInside) ∧
    ∀ token rest, result = .ok (.operand token, rest) → token.inner? = none

/-- A failure that is not about an open literal. -/
theorem isPlain_error (h : ¬e.EndsInside) : IsPlain (.error e) := by
  refine ⟨?_, fun _ _ heq => nomatch heq⟩
  rintro _ ⟨⟩
  exact h

/-- An operand without a formula in it. -/
theorem isPlain_operand {token : Token} (h : token.inner? = none) (rest : List Char) :
    IsPlain (.ok (.operand token, rest)) := by
  refine ⟨fun _ heq => (nomatch heq), ?_⟩
  rintro _ _ ⟨⟩
  exact h

/-- An operator or a parenthesis. -/
theorem isPlain_sign (h : ∀ token, lexeme ≠ .operand token) (rest : List Char) :
    IsPlain (.ok (lexeme, rest)) := by
  refine ⟨fun _ heq => (nomatch heq), fun token _ heq => ?_⟩
  cases heq
  exact absurd rfl (h token)

/-- A character that opens no literal starts a plain lexeme, in each of the cases that are told
apart. -/
theorem isPlain_read (hliteral : literal? c = none) (cs : List Char) : IsPlain (read c cs) := by
  rw [read, hliteral]
  dsimp only
  -- closing brackets and braces, operators, parentheses
  refine iteInduction (fun _ => isPlain_error id) fun _ => ?_
  refine iteInduction (fun _ => isPlain_error id) fun _ => ?_
  refine iteInduction (fun _ => isPlain_sign (by simp) _) fun _ => ?_
  refine iteInduction (fun _ => isPlain_sign (by simp) _) fun _ => ?_
  refine iteInduction (fun _ => isPlain_sign (by simp) _) fun _ => ?_
  -- numbers, references, words
  refine iteInduction (fun _ => isPlain_operand (inner?_readNumber (c :: cs)) _) fun _ => ?_
  refine iteInduction (fun _ => isPlain_operand rfl _) fun _ => ?_
  refine iteInduction (fun _ => isPlain_operand (inner?_wordToken _) _) fun _ => ?_
  exact isPlain_error id

/-- **The scan over a lexeme** comes back to where it was. -/
theorem exists_scan_of_read (h : read c cs = .ok (lexeme, rest)) :
    ∃ taken, c :: cs = taken ++ rest ∧ Nesting.start.scan taken = .ok .start := by
  cases hliteral : literal? c with
  | none =>
    have hinner : ∀ token, lexeme = .operand token → token.InnerNested := by
      rintro token rfl
      exact token.innerNested_of_inner? ((isPlain_read hliteral cs).2 token rest h)
    obtain ⟨taken, htext, htaken⟩ := exists_nested_of_read h hinner
    exact ⟨taken, htext, htaken.scan 0 0⟩
  | some literal =>
    obtain ⟨n, make⟩ := literal
    obtain ⟨hfeed, -⟩ := feed_of_literal? hliteral
    simp only [read, hliteral] at h
    cases htake : n.takeLiteral cs with
    | error e => simp [htake] at h
    | ok taken =>
      obtain ⟨inner, rest'⟩ := taken
      simp only [htake] at h
      cases h
      obtain ⟨last, rfl, hencloses⟩ := Nesting.exists_encloses_of_takeLiteral htake
      refine ⟨c :: (inner ++ [last]), by simp, ?_⟩
      rw [Nesting.scan_of_feed hfeed]
      exact hencloses.scan (Nesting.settled_start.feed hfeed)

/-- The scan over a formula comes back to where it was, by induction on its lexemes. -/
theorem Reads.scan {lexemes : List Lexeme} (h : Reads cs lexemes) :
    Nesting.start.scan cs = .ok .start := by
  induction h with
  | nil => rfl
  | blank hblank _ ih =>
    rw [Nesting.scan_of_feed (Nesting.feed_of_isBlank hblank rfl), ih]
  | lexeme _ hread _ ih =>
    obtain ⟨taken, htext, htaken⟩ := exists_scan_of_read hread
    rw [htext, Nesting.scan_append_of_scan htaken, ih]

/-- Only a literal that cannot be taken goes on to the end of the text. -/
theorem exists_literal_of_read_error (h : read c cs = .error e) (he : e.EndsInside) :
    ∃ n make, literal? c = some (n, make) ∧ n.takeLiteral cs = .error e := by
  cases hliteral : literal? c with
  | none => exact absurd he ((isPlain_read hliteral cs).1 e h)
  | some literal =>
    obtain ⟨n, make⟩ := literal
    refine ⟨n, make, rfl, ?_⟩
    simp only [read, hliteral] at h
    cases htake : n.takeLiteral cs with
    | error e' => simpa [htake] using h
    | ok taken => simp [htake] at h

/-- The error at the end of the text names what the scan does. -/
theorem exists_scan_of_read_error (h : read c cs = .error e) (he : e.EndsInside) :
    ∃ m d, Nesting.start.scan (c :: cs) = .ok m ∧ m.unterminated? = some d ∧
      e = .unterminated d := by
  obtain ⟨n, make, hliteral, htake⟩ := exists_literal_of_read_error h he
  obtain ⟨hfeed, htop⟩ := feed_of_literal? hliteral
  rw [Nesting.scan_of_feed hfeed]
  rcases Nesting.scan_of_takeLiteral htop htake with hscan | hopen
  · obtain ⟨_, _, _, _, _, _, _, _, rfl⟩ := Nesting.scan_eq_error_iff.1 hscan
    cases he
  · exact hopen

/-- A literal that no character closes is not read, and goes on to the end of the text unless there
is a stray closer in it. -/
theorem exists_read_error {n m : Nesting} {make : String → Token}
    (hliteral : literal? c = some (n, make))
    (hopen : ∀ inner last rest, cs = inner ++ last :: rest → ¬n.Encloses inner last)
    (hscan : Nesting.start.scan (c :: cs) = .ok m) : ∃ e, read c cs = .error e ∧ e.EndsInside := by
  obtain ⟨hfeed, htop⟩ := feed_of_literal? hliteral
  obtain ⟨e, htake⟩ := Nesting.takeLiteral_fails_iff.2 hopen
  refine ⟨e, by simp only [read, hliteral, htake], ?_⟩
  rw [Nesting.scan_of_feed hfeed] at hscan
  rcases Nesting.scan_of_takeLiteral htop htake with herror | ⟨_, _, _, _, rfl⟩
  · cases hscan.symm.trans herror
  · trivial

end Lexeme

namespace Shunt

/-- The pass over a text comes to a literal that no character of the text closes. -/
inductive Strands : Shunt → List Char → Prop
  | blank {st : Shunt} {c : Char} {cs : List Char} :
      Text.isBlank c = true → Strands st cs → Strands st (c :: cs)
  | lexeme {st st' : Shunt} {c : Char} {cs rest : List Char} {lexeme : Lexeme} :
      Text.isBlank c = false → Lexeme.read c cs = .ok (lexeme, rest) → st.feed lexeme = .ok st' →
        Strands st' rest → Strands st (c :: cs)
  | literal {st : Shunt} {c : Char} {cs : List Char} {n : Nesting} {make : String → Token} :
      Lexeme.literal? c = some (n, make) →
        (∀ inner last rest, cs = inner ++ last :: rest → ¬n.Encloses inner last) →
        Strands st (c :: cs)

variable {st st' : Shunt} {cs : List Char} {e : ScriptError}

/-- A parenthesis that was not opened is no open literal. -/
theorem not_endsInside_of_closeParen {output : List Token} {pending : List Pending}
    (h : closeParen output pending = .error e) : ¬e.EndsInside := by
  induction pending generalizing output with
  | nil =>
    cases h
    exact id
  | cons p pending ih =>
    cases p with
    | opening => cases h
    | operator op => exact ih h
    | negation => exact ih h

/-- What is wrong with the order of lexemes is no open literal.

**Proof sketch.** By cases over the lexemes and the tests of `feed`: each error is about an
operator, an operand or a parenthesis that is not expected. -/
theorem not_endsInside_of_feed {lexeme : Lexeme} (h : st.feed lexeme = .error e) :
    ¬e.EndsInside := by
  cases lexeme with
  | operand token => cases h
  | operator c op =>
    simp only [feed] at h
    split at h
    · cases op with
      | none =>
        cases h
        exact id
      | some op => cases h
    · split at h
      · cases h
      · cases h
        exact id
  | opening => cases h
  | closing =>
    rw [feed] at h
    cases hclose : closeParen st.output st.pending with
    | error e' =>
      rw [hclose] at h
      split at h
      · cases h
        exact not_endsInside_of_closeParen hclose
      · cases h
        exact id
    | ok closed =>
      rw [hclose] at h
      split at h
      · cases h
      · cases h
        exact id

/-- A parenthesis that is left open is no open literal: it has a failure of its own. -/
theorem not_endsInside_of_flush {output : List Token} {pending : List Pending}
    (h : flush output pending = .error e) : ¬e.EndsInside := by
  induction pending generalizing output with
  | nil => cases h
  | cons p pending ih =>
    cases p with
    | opening =>
      cases h
      exact id
    | operator op => exact ih h
    | negation => exact ih h

/-- What is wrong at the end of a formula is no open literal. -/
theorem not_endsInside_of_finish (h : st.finish = .error e) : ¬e.EndsInside := by
  rw [finish] at h
  cases hflush : flush st.output st.pending with
  | error e' =>
    rw [hflush] at h
    split at h
    · cases h
      exact not_endsInside_of_flush hflush
    · cases h
      exact id
  | ok output =>
    rw [hflush] at h
    split at h
    · cases h
    · cases h
      exact id

/-- **A formula that ends inside a literal** is refused, and the error names what the scan does. -/
theorem exists_scan_of_scan_error (h : st.scan cs = .error e) (he : e.EndsInside) :
    ∃ m d, Nesting.start.scan cs = .ok m ∧ m.unterminated? = some d ∧ e = .unterminated d := by
  fun_induction Shunt.scan st cs with
  | case1 => cases h
  | case2 st c cs hblank ih =>
    rw [Nesting.scan_of_feed (Nesting.feed_of_isBlank hblank rfl)]
    exact ih h
  | case3 st c cs hblank e' hread =>
    cases h
    exact Lexeme.exists_scan_of_read_error hread he
  | case4 st c cs hblank lexeme rest hread _ e' hfeed =>
    cases h
    exact absurd he (not_endsInside_of_feed hfeed)
  | case5 st c cs hblank lexeme rest hread _ st₁ hfeed ih =>
    obtain ⟨taken, htext, htaken⟩ := Lexeme.exists_scan_of_read hread
    rw [htext, Nesting.scan_append_of_scan htaken]
    exact ih h

/-- A pass that fails at the end of a text has come to a literal that is not closed. -/
theorem strands_of_scan (h : st.scan cs = .error e) (he : e.EndsInside) : st.Strands cs := by
  fun_induction Shunt.scan st cs with
  | case1 => cases h
  | case2 st c cs hblank ih => exact .blank hblank (ih h)
  | case3 st c cs hblank e' hread =>
    cases h
    obtain ⟨n, make, hliteral, htake⟩ := Lexeme.exists_literal_of_read_error hread he
    exact .literal hliteral (Nesting.takeLiteral_fails_iff.1 ⟨e, htake⟩)
  | case4 st c cs hblank lexeme rest hread _ e' hfeed =>
    cases h
    exact absurd he (not_endsInside_of_feed hfeed)
  | case5 st c cs hblank lexeme rest hread _ st₁ hfeed ih =>
    exact .lexeme (by simpa using hblank) hread hfeed (ih h)

/-- A pass that comes to such a literal fails there, if there is no stray closer.

**Proof sketch.** Induction on what comes before the literal: the scan for brackets goes on past each
lexeme that the pass takes in. The literal that is left open then fails, with an error that says so
since there is no stray closer. -/
theorem Strands.exists_scan_error {m : Nesting} (h : st.Strands cs)
    (hscan : Nesting.start.scan cs = .ok m) : ∃ e, st.scan cs = .error e ∧ e.EndsInside := by
  induction h with
  | blank hblank _ ih =>
    rw [Nesting.scan_of_feed (Nesting.feed_of_isBlank hblank rfl)] at hscan
    rw [scan_of_blank hblank]
    exact ih hscan
  | lexeme hblank hread hfeed _ ih =>
    obtain ⟨taken, htext, htaken⟩ := Lexeme.exists_scan_of_read hread
    rw [htext, Nesting.scan_append_of_scan htaken] at hscan
    rw [scan_of_read hblank hread, hfeed]
    exact ih hscan
  | literal hliteral hopen =>
    obtain ⟨e, hread, he⟩ := Lexeme.exists_read_error hliteral hopen hscan
    exact ⟨e, scan_of_read_error (Lexeme.isBlank_of_literal? hliteral) hread, he⟩

end Shunt

namespace Formula

variable {src : String} {e : ScriptError}

/-- **A formula that ends inside a literal** leaves something open when it is scanned as a whole,
and that is what is named. By the scan of its lexemes up to the literal. -/
theorem exists_scan_of_tokens_error (h : tokens src = .error e) (he : e.EndsInside) :
    ∃ n d, Nesting.start.scan src.toList = .ok n ∧ n.unterminated? = some d ∧
      e = .unterminated d := by
  obtain hscan | ⟨st, -, hfinish⟩ := cases_of_tokens_error h
  · obtain ⟨n, d, htrimmed, hopen, heq⟩ := Shunt.exists_scan_of_scan_error hscan he
    obtain ⟨m, hm, hopen'⟩ := Nesting.exists_scan_of_trimChars htrimmed
    exact ⟨m, d, hm, hopen'.trans hopen, heq⟩
  · exact absurd he (Shunt.not_endsInside_of_finish hfinish)

/-- **A formula that is read** leaves nothing open. -/
theorem exists_scan_of_tokens {ts : List Token} (h : tokens src = .ok ts) :
    ∃ n, Nesting.start.scan src.toList = .ok n ∧ n.unterminated? = none := by
  obtain ⟨lexemes, hreads, -⟩ := exists_reads_of_tokens h
  exact Nesting.exists_scan_of_trimChars hreads.scan

/-- A formula ends inside a literal: the pass over it comes to a literal that no character closes.
-/
def EndsInside (src : String) : Prop :=
  Shunt.start.Strands (Text.trimChars src.toList)

/-- **The formulas that are refused at their end**, among those without a stray closer. -/
theorem endsInside_iff {n : Nesting} (hscan : Nesting.start.scan src.toList = .ok n) :
    EndsInside src ↔ ∃ e, tokens src = .error e ∧ e.EndsInside := by
  constructor
  · intro hstrands
    obtain ⟨before, after, hbefore, -, htext⟩ := Text.exists_eq_append_trimChars src.toList
    have hfront : Nesting.start.scan before = .ok .start := (nested_of_isBlank hbefore).scan 0 0
    rw [htext, List.append_assoc, Nesting.scan_append_of_scan hfront] at hscan
    obtain ⟨m, hm⟩ := Nesting.exists_scan_of_append hscan
    obtain ⟨e, herror, he⟩ := hstrands.exists_scan_error hm
    exact ⟨e, by rw [tokens, herror], he⟩
  · rintro ⟨e, htokens, he⟩
    obtain herror | ⟨st, -, hfinish⟩ := cases_of_tokens_error htokens
    · exact Shunt.strands_of_scan herror he
    · exact absurd he (Shunt.not_endsInside_of_finish hfinish)

/-- **The delimiter that is named** when a text ends inside a literal, with its brackets and braces
nested so far. A list is refused exactly if one is open at its end, and the error names the string,
else a bracket around the end, else a brace. A formula that is refused at its end, and not for
another reason before it, is refused with the same error; and none is read while a delimiter is
open. The delimiter is the innermost one exactly if the text does not end in a brace inside a
bracket.

**Proof sketch.** The counters agree with the stack (`Nesting.scan_tallies`), but a counter tells
only whether a delimiter of its kind is open. Formulas scan each literal from counters at zero; the
scan over the lexemes before it comes back there, too (`Lexeme.exists_scan_of_read`). -/
theorem unterminated_reported {opened : List Delimiter}
    (hopened : Delimiter.openIn? src = some opened) :
    (∀ e, splitList src = .error e ↔
      ∃ d, Delimiter.reported? src opened = some d ∧ e = .unterminated d) ∧
    (∀ d, tokens src = .error (.unterminated d) ↔
      EndsInside src ∧ Delimiter.reported? src opened = some d) ∧
    tokens src ≠ .error .internal ∧
    (∀ ts, tokens src = .ok ts → Delimiter.reported? src opened = none) ∧
    (Delimiter.reported? src opened = Delimiter.innermost? src opened ↔
      ¬Delimiter.BraceInBracket src opened) := by
  obtain ⟨n, hscan, hreported⟩ := exists_scan_of_openIn? hopened
  have hnamed : ∀ e, tokens src = .error e → e.EndsInside →
      ∃ d, Delimiter.reported? src opened = some d ∧ e = .unterminated d := by
    intro e h he
    obtain ⟨m, d, hm, hopen, heq⟩ := exists_scan_of_tokens_error h he
    cases hscan.symm.trans hm
    exact ⟨d, hreported.symm.trans hopen, heq⟩
  refine ⟨fun e => ?_, fun d => ⟨fun h => ?_, ?_⟩, fun h => ?_, fun ts h => ?_, ?_⟩
  · rw [splitList_eq_error_iff, Nesting.pieces_eq_error_iff, hscan]
    simp [hreported]
  · obtain ⟨d', hd', heq⟩ := hnamed _ h trivial
    cases heq
    exact ⟨(endsInside_iff hscan).2 ⟨_, h, trivial⟩, hd'⟩
  · rintro ⟨hends, hd⟩
    obtain ⟨e, h, he⟩ := (endsInside_iff hscan).1 hends
    obtain ⟨d', hd', rfl⟩ := hnamed e h he
    cases hd.symm.trans hd'
    exact h
  · obtain ⟨_, _, heq⟩ := hnamed _ h trivial
    cases heq
  · obtain ⟨m, hm, hopen⟩ := exists_scan_of_tokens h
    cases hscan.symm.trans hm
    exact hreported.symm.trans hopen
  · rw [eq_comm, Delimiter.innermost?_eq_reported?_iff]

/-- Errors can be told without a look at the results, in which numbers cannot be compared. -/
theorem eq_error_of_map {α : Type} {r : Except ScriptError α} (h : r.map (fun _ => ()) = .error e) :
    r = .error e := by
  cases r with
  | error e' =>
    cases h
    rfl
  | ok a => cases h

/-- A text that ends in a bracket inside a brace, after a call and a string with a closer in it. -/
def openBracket : String :=
  "(1) * \x7bf [\x7bg\x7d, ']', 2"

/-- The bracket is the innermost delimiter, and is named. -/
theorem unterminated_reported_openBracket :
    Delimiter.openIn? openBracket = some [.collection, .call] ∧
    Delimiter.innermost? openBracket [.collection, .call] = some .collection ∧
    splitList openBracket = .error (.unterminated .collection) ∧
    EndsInside openBracket ∧ tokens openBracket = .error (.unterminated .collection) := by
  have hopened : Delimiter.openIn? openBracket = some [.collection, .call] := by decide +kernel
  obtain ⟨hlist, hformula, -, -, hinnermost⟩ := unterminated_reported hopened
  have htokens : tokens openBracket = .error (.unterminated .collection) :=
    eq_error_of_map (by decide +kernel)
  obtain ⟨hends, hreported⟩ := (hformula .collection).1 htokens
  refine ⟨hopened, ?_, (hlist _).2 ⟨_, hreported, rfl⟩, hends, htokens⟩
  exact (hinnermost.2 (by decide +kernel)).symm.trans hreported

/-- **A brace inside a bracket** is the innermost delimiter, but the bracket around it is named. -/
theorem unterminated_brace_in_bracket :
    Delimiter.openIn? "[\x7b" = some [.call, .collection] ∧
    Delimiter.innermost? "[\x7b" [.call, .collection] = some .call ∧
    splitList "[\x7b" = .error (.unterminated .collection) ∧
    EndsInside "[\x7b" ∧ tokens "[\x7b" = .error (.unterminated .collection) := by
  have htokens : tokens "[\x7b" = .error (.unterminated .collection) :=
    eq_error_of_map (by decide +kernel)
  have hscan : Nesting.start.scan "[\x7b".toList = .ok ⟨none, false, 1, 1⟩ := by decide
  exact ⟨by decide, by decide, by decide, (endsInside_iff hscan).2 ⟨_, htokens, trivial⟩, htokens⟩

end Formula

end LineScript
