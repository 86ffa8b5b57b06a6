import LineScript.Proofs.Nesting

set_option relaxedAutoImplicit false
set_option autoImplicit false

/-!
# Properly nested texts

Brackets and braces are properly nested if each closer matches the most recent opener that is not
closed yet, and none is left open; those inside strings do not count. This is told with a stack. The
scan over literals has two counters in its place, which do not see a bracket and a brace that cross
each other. Over a text that is properly nested, the counters come back to where they were, so that
the character which closes a literal after such a text is the closer of its opener.

## Main definitions

* `LineScript.outsideStrings` — the characters of a text outside its strings.
* `LineScript.Delimiter.stackAfter?` — the open brackets and braces after one more character.
* `LineScript.ProperlyNested` — brackets and braces match, as told by the stack.
* `LineScript.Nested` — the same as a grammar, with strings that end.

## Main results

* `LineScript.Nested.properlyNested` — texts of the grammar are properly nested.
* `LineScript.Nested.encloses` — the scan over literals comes back to where it was.
* `LineScript.nested_of_splitList` — a list is nested if its items are.
-/

namespace LineScript

/-! ## The stack -/

/-- The characters of a text outside its strings, where `quote` is that of the string in which the
text starts. Inside a string, a backslash takes the next character with it. -/
def outsideStrings : Option Quote → List Char → List Char
  | _, [] => []
  | none, '\'' :: cs => outsideStrings (some .single) cs
  | none, '"' :: cs => outsideStrings (some .double) cs
  | none, c :: cs => c :: outsideStrings none cs
  | some quote, '\\' :: _ :: cs => outsideStrings (some quote) cs
  | some quote, c :: cs => outsideStrings (if c = quote.char then none else some quote) cs

/-- The open brackets and braces after one more character, the most recent one first. A closer is
accepted only if it matches that one. -/
def Delimiter.stackAfter? (opened : List Delimiter) (c : Char) : Option (List Delimiter) :=
  match c, opened with
  | '[', _ => some (.collection :: opened)
  | '\x7b', _ => some (.call :: opened)
  | ']', .collection :: outer => some outer
  | '\x7d', .call :: outer => some outer
  | ']', _ => none
  | '\x7d', _ => none
  | _, _ => some opened

/-- Outside strings, each closing bracket or brace of the text matches the most recent opening one
that is not closed yet, and none is left open. -/
def ProperlyNested (s : String) : Prop :=
  (outsideStrings none s.toList).foldlM Delimiter.stackAfter? [] = some []

/-- Proper nesting is decided by a stack of delimiters. -/
instance (s : String) : Decidable (ProperlyNested s) :=
  inferInstanceAs (Decidable (_ = _))

/-! ## The grammar -/

/-- The texts that may stand between two quotes. -/
inductive Quote.Body (quote : Quote) : List Char → Prop
  | nil : Body quote []
  | escape {c : Char} {cs : List Char} : Body quote cs → Body quote ('\\' :: c :: cs)
  | char {c : Char} {cs : List Char} :
      c ≠ '\\' → c ≠ quote.char → Body quote cs → Body quote (c :: cs)

/-- Texts in which strings, brackets and braces are closed, each in its turn. -/
inductive Nested : List Char → Prop
  | nil : Nested []
  | ordinary {c : Char} {cs : List Char} :
      Nesting.isOrdinary c = true → Nested cs → Nested (c :: cs)
  | comma {cs : List Char} : Nested cs → Nested (',' :: cs)
  | string {quote : Quote} {inner cs : List Char} :
      quote.Body inner → Nested cs → Nested (quote.char :: (inner ++ quote.char :: cs))
  | brackets {inner cs : List Char} :
      Nested inner → Nested cs → Nested ('[' :: (inner ++ ']' :: cs))
  | braces {inner cs : List Char} :
      Nested inner → Nested cs → Nested ('\x7b' :: (inner ++ '\x7d' :: cs))

namespace Nested

variable {cs ds : List Char}

/-- Two nested texts, one after the other. -/
theorem append (h : Nested cs) (h' : Nested ds) : Nested (cs ++ ds) := by
  induction h with
  | nil => exact h'
  | ordinary hc _ ih => exact .ordinary hc ih
  | comma _ ih => exact .comma ih
  | string hinner _ ih => simpa using Nested.string hinner ih
  | brackets hinner _ _ ih => simpa using Nested.brackets hinner ih
  | braces hinner _ _ ih => simpa using Nested.braces hinner ih

end Nested

/-- A text of ordinary characters opens and closes nothing. -/
theorem nested_of_isOrdinary {cs : List Char} (h : ∀ c ∈ cs, Nesting.isOrdinary c = true) :
    Nested cs := by
  induction cs with
  | nil => exact .nil
  | cons c cs ih =>
    exact .ordinary (h c List.mem_cons_self) (ih fun d hd => h d (List.mem_cons_of_mem c hd))

/-- Ordinary characters of a class, at the start of a text. -/
theorem nested_takeWhile {p : Char → Bool} (hp : Nesting.isOrdinaryClass p = true)
    (cs : List Char) :
    Nested (cs.takeWhile p) :=
  nested_of_isOrdinary fun _ hd => Nesting.isOrdinary_of_class hp (List.mem_takeWhile_imp hd)

/-! ## The stack over nested texts -/

/-- A string is passed over to its closing quote. -/
theorem Quote.Body.outsideStrings {quote : Quote} {inner : List Char} (h : quote.Body inner)
    (rest : List Char) :
    outsideStrings (some quote) (inner ++ quote.char :: rest) = outsideStrings none rest := by
  induction h with
  | nil => cases quote <;> rfl
  | escape _ ih => exact ih
  | @char c cs hescape hquote _ ih =>
    rw [List.cons_append, LineScript.outsideStrings, if_neg hquote, ih]
    exact fun _ _ hc => absurd hc hescape

/-- An ordinary character leaves the stack. -/
theorem Delimiter.stackAfter?_of_isOrdinary {c : Char} (hc : Nesting.isOrdinary c = true)
    (opened : List Delimiter) : stackAfter? opened c = some opened := by
  unfold stackAfter?
  split <;> first | rfl | cases hc

/-- An ordinary character outside of strings begins none. -/
theorem outsideStrings_of_isOrdinary {c : Char} (hc : Nesting.isOrdinary c = true)
    (cs : List Char) :
    outsideStrings none (c :: cs) = c :: outsideStrings none cs := by
  rw [outsideStrings]
  · rintro rfl
    cases hc
  · rintro rfl
    cases hc

/-- **The stack is as before** after a nested text.

**Proof sketch.** Induction on the nested text. A string puts nothing on the stack, since its
characters are not outside of strings. A bracket or brace is pushed, is still there after the text
inside it, and is taken off by its closer. -/
theorem Nested.foldlM_stackAfter? {cs : List Char} (h : Nested cs) (rest : List Char)
    (opened : List Delimiter) :
    (outsideStrings none (cs ++ rest)).foldlM Delimiter.stackAfter? opened =
      (outsideStrings none rest).foldlM Delimiter.stackAfter? opened := by
  induction h generalizing rest opened with
  | nil => rfl
  | @ordinary c cs hc _ ih =>
    rw [List.cons_append, outsideStrings_of_isOrdinary hc, List.foldlM_cons,
      Delimiter.stackAfter?_of_isOrdinary hc]
    exact ih rest opened
  | comma _ ih => exact ih rest opened
  | @string quote inner cs hinner _ ih =>
    have hopen : outsideStrings none (quote.char :: (inner ++ quote.char :: cs) ++ rest) =
        outsideStrings (some quote) (inner ++ quote.char :: (cs ++ rest)) := by
      rw [List.cons_append, List.append_assoc, List.cons_append]
      cases quote <;> rfl
    rw [hopen, hinner.outsideStrings]
    exact ih rest opened
  | @brackets inner cs _ _ ihinner ih =>
    rw [List.cons_append, List.append_assoc, List.cons_append]
    change (outsideStrings none (inner ++ ']' :: (cs ++ rest))).foldlM Delimiter.stackAfter?
      (.collection :: opened) = _
    rw [ihinner]
    exact ih rest opened
  | @braces inner cs _ _ ihinner ih =>
    rw [List.cons_append, List.append_assoc, List.cons_append]
    change (outsideStrings none (inner ++ '\x7d' :: (cs ++ rest))).foldlM Delimiter.stackAfter?
      (.call :: opened) = _
    rw [ihinner]
    exact ih rest opened

/-- **Nested texts are properly nested**: the stack that is left after them is the one before them.
By induction on the nesting, for any stack before the text. -/
theorem Nested.properlyNested {s : String} (h : Nested s.toList) : ProperlyNested s := by
  have hstack := h.foldlM_stackAfter? [] []
  rwa [List.append_nil] at hstack

/-! ## The scan over nested texts -/

/-- A literal that goes on after the body of a string goes on at its closing quote. -/
theorem Quote.Body.encloses {quote : Quote} {inner : List Char} (h : quote.Body inner)
    {brackets braces : Nat} {rest : List Char} {last : Char}
    (hrest : Nesting.Encloses ⟨some quote, false, brackets, braces⟩ (inner ++ rest) last) :
    Nesting.Encloses ⟨some quote, false, brackets, braces⟩ rest last := by
  induction h with
  | nil => exact hrest
  | escape _ ih =>
    obtain _ | ⟨hescape, -, hrest⟩ := hrest
    cases hescape
    obtain _ | ⟨hchar, -, hrest⟩ := hrest
    cases hchar
    exact ih hrest
  | char hescape hquote _ ih =>
    obtain _ | ⟨hchar, -, hrest⟩ := hrest
    simp only [Nesting.feed, Nesting.feedQuoted, if_neg hescape, if_neg hquote] at hchar
    cases hchar
    exact ih hrest

/-- **The scan is as before** after a nested text: a literal that goes on with one goes on after it.

**Proof sketch.** Induction on the nested text. Each step that the scan takes is inverted: it is the
one that the character allows, and it leaves the counters as the text after it finds them. -/
theorem Nested.encloses {cs : List Char} (h : Nested cs) {brackets braces : Nat} {rest : List Char}
    {last : Char} (hrest : Nesting.Encloses ⟨none, false, brackets, braces⟩ (cs ++ rest) last) :
    Nesting.Encloses ⟨none, false, brackets, braces⟩ rest last := by
  induction h generalizing brackets braces rest with
  | nil => exact hrest
  | ordinary hc _ ih =>
    obtain _ | ⟨hfeed, -, hrest⟩ := hrest
    rw [Nesting.feed_of_isOrdinary hc rfl] at hfeed
    cases hfeed
    exact ih hrest
  | comma _ ih =>
    obtain _ | ⟨hfeed, -, hrest⟩ := hrest
    cases hfeed
    exact ih hrest
  | @string quote inner cs hinner _ ih =>
    rw [List.cons_append, List.append_assoc, List.cons_append] at hrest
    obtain _ | ⟨hopen, -, hrest⟩ := hrest
    have hfeed : Nesting.feed ⟨none, false, brackets, braces⟩ quote.char =
        .ok ⟨some quote, false, brackets, braces⟩ := by cases quote <;> rfl
    rw [hfeed] at hopen
    cases hopen
    obtain _ | ⟨hclose, -, hrest⟩ := hinner.encloses hrest
    have hfeed : Nesting.feed ⟨some quote, false, brackets, braces⟩ quote.char =
        .ok ⟨none, false, brackets, braces⟩ := by cases quote <;> rfl
    rw [hfeed] at hclose
    cases hclose
    exact ih hrest
  | brackets _ _ ihinner ih =>
    rw [List.cons_append, List.append_assoc, List.cons_append] at hrest
    obtain _ | ⟨hopen, -, hrest⟩ := hrest
    cases hopen
    obtain _ | ⟨hclose, -, hrest⟩ := ihinner hrest
    cases hclose
    exact ih hrest
  | braces _ _ ihinner ih =>
    rw [List.cons_append, List.append_assoc, List.cons_append] at hrest
    obtain _ | ⟨hopen, -, hrest⟩ := hrest
    cases hopen
    obtain _ | ⟨hclose, -, hrest⟩ := ihinner hrest
    cases hclose
    exact ih hrest

/-! ## Literals -/

/-- What a quote opens is the body of a string, and the same quote closes it. The state right after
a backslash belongs to the text with the backslash in front.

**Proof sketch.** Induction on the scan. A backslash goes into the escaped state, from which any
character leads back; an unescaped quote can only be the last character, since it ends the
literal. -/
theorem Nesting.Encloses.body {quote : Quote} {escaped : Bool} {inner : List Char} {last : Char}
    (h : Encloses ⟨some quote, escaped, 0, 0⟩ inner last) :
    quote.Body (if escaped then '\\' :: inner else inner) ∧ last = quote.char := by
  generalize hn : (⟨some quote, escaped, 0, 0⟩ : Nesting) = n at h
  induction h generalizing escaped with
  | @close n n' last hfeed htop =>
    subst hn
    cases hfeed
    cases escaped with
    | true => cases htop
    | false =>
      by_cases hescape : last = '\\'
      · simp [feedQuoted, hescape, atTop] at htop
      · by_cases hquote : last = quote.char
        · exact ⟨.nil, hquote⟩
        · simp [feedQuoted, hescape, hquote, atTop] at htop
  | @inside n n' c last inner hfeed htop _ ih =>
    subst hn
    cases hfeed
    cases escaped with
    | true =>
      obtain ⟨hbody, hlast⟩ := ih rfl
      exact ⟨.escape hbody, hlast⟩
    | false =>
      by_cases hescape : c = '\\'
      · subst hescape
        exact ih rfl
      · by_cases hquote : c = quote.char
        · simp only [feedQuoted, Bool.false_eq_true, if_false, if_neg hescape,
            if_pos hquote] at htop
          cases htop
        · obtain ⟨hbody, hlast⟩ := @ih false (by simp [feedQuoted, hescape, hquote])
          exact ⟨.char hescape hquote hbody, hlast⟩

/-- What closes a literal after a nested text closes it right after its opener, too. -/
theorem Nested.encloses_nil {inner : List Char} (h : Nested inner) {brackets braces : Nat}
    {last : Char} (hlast : Nesting.Encloses ⟨none, false, brackets, braces⟩ inner last) :
    Nesting.Encloses ⟨none, false, brackets, braces⟩ [] last := by
  rw [← List.append_nil inner] at hlast
  exact h.encloses hlast

/-- Around a nested text, a bracket is closed by a bracket. -/
theorem Nested.bracketed {inner : List Char} (h : Nested inner) {last : Char}
    (hlast : Nesting.Encloses { brackets := 1 } inner last) :
    Nested ('[' :: (inner ++ [last])) := by
  obtain ⟨hclose, htop⟩ := h.encloses_nil hlast
  cases Nesting.plainStep_of_feedPlain hclose with
  | closeBracket k hbrackets => exact .brackets h .nil
  | closeBrace k hbraces => cases hbraces
  | _ => cases htop

/-- Around a nested text, a brace is closed by a brace. -/
theorem Nested.braced {inner : List Char} (h : Nested inner) {last : Char}
    (hlast : Nesting.Encloses { braces := 1 } inner last) :
    Nested ('\x7b' :: (inner ++ [last])) := by
  obtain ⟨hclose, htop⟩ := h.encloses_nil hlast
  cases Nesting.plainStep_of_feedPlain hclose with
  | closeBracket k hbrackets => cases hbrackets
  | closeBrace k hbraces => exact .braces h .nil
  | _ => cases htop

/-! ## Blanks and lists -/

/-- Blanks are nested. -/
theorem nested_of_isBlank {cs : List Char} (h : ∀ c ∈ cs, Text.isBlank c = true) : Nested cs :=
  nested_of_isOrdinary fun c hc => Nesting.isOrdinary_of_class (by decide) (h c hc)

/-- Blanks in front of a nested text leave it nested. -/
theorem nested_of_trimStart {cs : List Char} (h : Nested (Text.trimStart cs)) : Nested cs := by
  rw [← List.takeWhile_append_dropWhile (p := Text.isBlank) (l := cs)]
  exact (nested_takeWhile (by decide) cs).append h

/-- Blanks after a nested text leave it nested. -/
theorem nested_of_trimEnd {cs : List Char} (h : Nested (Text.trimEnd cs)) : Nested cs := by
  have hblanks : Nested (cs.reverse.takeWhile Text.isBlank).reverse :=
    nested_of_isBlank fun c hc => List.mem_takeWhile_imp (List.mem_reverse.1 hc)
  have hsplit := List.takeWhile_append_dropWhile (p := Text.isBlank) (l := cs.reverse)
  rw [← List.reverse_inj, List.reverse_append, List.reverse_reverse] at hsplit
  rw [← hsplit]
  exact h.append hblanks

/-- Blanks at the ends of a text make no difference. -/
theorem nested_of_trimChars {cs : List Char} (h : Nested (Text.trimChars cs)) : Nested cs :=
  nested_of_trimStart (nested_of_trimEnd h)

/-- Nested pieces, joined by commas. -/
theorem nested_intercalate {ps : List (List Char)} (h : ∀ p ∈ ps, Nested p) :
    Nested ([','].intercalate ps) := by
  induction ps with
  | nil => exact .nil
  | cons p ps ih =>
    have hp := h p List.mem_cons_self
    cases ps with
    | nil => simpa using hp
    | cons q qs =>
      rw [List.intercalate_cons_cons, List.append_assoc]
      exact hp.append (.comma (ih fun r hr => h r (List.mem_cons_of_mem p hr)))

/-- **A list is nested if its items are**, as they make up its text with commas and blanks. -/
theorem nested_of_splitList {s : String} {items : List String} (h : splitList s = .ok items)
    (hitems : ∀ item ∈ items, Nested item.toList) : Nested s.toList := by
  obtain ⟨hblank, -⟩ | ⟨-, ps, hpieces, rfl⟩ := cases_of_splitList h
  · exact nested_of_isBlank (Text.trimChars_eq_nil_iff.1 hblank)
  · obtain ⟨-, -, -, htext⟩ := Nesting.exists_of_pieces hpieces
    rw [← htext]
    refine nested_intercalate fun p hp => nested_of_trimChars ?_
    simpa using hitems _ (List.mem_map_of_mem hp)

end LineScript
