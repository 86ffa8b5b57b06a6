import LineScript.Nesting
import LineScript.Proofs.Formula.Grammar
import LineScript.Proofs.Lines

set_option relaxedAutoImplicit false
set_option autoImplicit false

/-!
# Texts that a scan crosses

A list is cut at the commas outside its literals, and a literal ends where nothing is open any more.
Both are told by one scan over the text. A piece of a list is a text that the scan *crosses* without
meeting a comma at top; inside brackets, such a text keeps the scan *within* them.

## Main definitions

* `LineScript.Nesting.Crosses` — a scan over a text, with no comma where nothing is open.
* `LineScript.Nesting.Within` — a scan over a text that leaves something open all along.
* `LineScript.Nesting.deeper` — the scan inside more brackets and braces.

## Main results

* `LineScript.Nesting.Crosses.within_deeper` — what can be crossed stays within brackets and braces
  around it.
* `LineScript.Nesting.Within.encloses` — a literal ends after a text that stays within it.
* `LineScript.Nesting.pieces_intercalate`, `LineScript.splitList_intercalate` — a list joined from
  its pieces is cut into them again.
* `LineScript.Nesting.exists_of_pieces` — the pieces of a list are joined to the list again.
-/

namespace LineScript

namespace Nesting

/-! ## Scans -/

/-- The scan goes over the text from `n` to `n'` and meets no comma at top. -/
inductive Crosses : Nesting → List Char → Nesting → Prop
  | nil {n : Nesting} : Crosses n [] n
  | cons {n n' m : Nesting} {c : Char} {cs : List Char} :
      (c = ',' → n.atTop = false) → n.feed c = .ok n' → Crosses n' cs m → Crosses n (c :: cs) m

/-- The scan goes over the text from `n` to `n'`, and after each character something is open. -/
inductive Within : Nesting → List Char → Nesting → Prop
  | nil {n : Nesting} : Within n [] n
  | cons {n n' m : Nesting} {c : Char} {cs : List Char} :
      n.feed c = .ok n' → n'.atTop = false → Within n' cs m → Within n (c :: cs) m

variable {n n' m : Nesting} {cs ds : List Char}

/-- Crossing a text and then another one. -/
theorem Crosses.append (h : Crosses n cs n') (h' : Crosses n' ds m) : Crosses n (cs ++ ds) m := by
  induction h with
  | nil => exact h'
  | cons hcomma hfeed _ ih => exact .cons hcomma hfeed (ih h')

/-- Staying within a literal over a text and then over another one. -/
theorem Within.append (h : Within n cs n') (h' : Within n' ds m) : Within n (cs ++ ds) m := by
  induction h with
  | nil => exact h'
  | cons hfeed htop _ ih => exact .cons hfeed htop (ih h')

/-- Where something is open, commas do no harm. -/
theorem Within.crosses (h : Within n cs n') (htop : n.atTop = false) : Crosses n cs n' := by
  induction h with
  | nil => exact .nil
  | cons hfeed htop' _ ih => exact .cons (fun _ => htop) hfeed (ih htop')

/-- A literal goes on after a text that stays within it. -/
theorem Within.encloses (h : Within n cs n') {rest : List Char} {last : Char}
    (hrest : Encloses n' rest last) : Encloses n (cs ++ rest) last := by
  induction h with
  | nil => exact hrest
  | cons hfeed htop _ ih => exact .inside hfeed htop (ih hrest)

/-- What is taken for a literal is enclosed in it, together with the character after it. -/
theorem exists_encloses_of_takeLiteral {inner rest : List Char}
    (h : n.takeLiteral cs = .ok (inner, rest)) :
    ∃ last, cs = inner ++ last :: rest ∧ n.Encloses inner last := by
  induction cs generalizing n inner with
  | nil => cases h
  | cons c cs ih =>
    obtain ⟨n', hfeed, ⟨htop, rfl, rfl⟩ | ⟨htop, more, htake, rfl⟩⟩ := cases_of_takeLiteral h
    · exact ⟨c, rfl, .close hfeed htop⟩
    · obtain ⟨last, rfl, hencloses⟩ := ih htake
      exact ⟨last, rfl, .inside hfeed htop hencloses⟩

/-! ## Scans inside brackets and braces -/

/-- The same scan inside `k` more brackets and `l` more braces. -/
def deeper (n : Nesting) (k l : Nat) : Nesting :=
  { n with brackets := n.brackets + k, braces := n.braces + l }

/-- Inside further brackets or braces, no item ends. -/
theorem atTop_deeper (n : Nesting) {k l : Nat} (hkl : 0 < k + l) :
    (n.deeper k l).atTop = false := by
  have hopen : (n.deeper k l).brackets ≠ 0 ∨ (n.deeper k l).braces ≠ 0 := by
    simp only [deeper]
    omega
  rcases hopen with hopen | hopen
  · simp [atTop, hopen]
  · simp [atTop, hopen]

/-- A character that can be read can be read inside more of them, with the same effect. -/
theorem feed_deeper {c : Char} (h : n.feed c = .ok n') (k l : Nat) :
    (n.deeper k l).feed c = .ok (n'.deeper k l) := by
  obtain ⟨quote, escaped, brackets, braces⟩ := n
  cases quote with
  | some q =>
    obtain rfl : feedQuoted ⟨some q, escaped, brackets, braces⟩ q c = n' := Except.ok.inj h
    change Except.ok (feedQuoted ⟨some q, escaped, brackets + k, braces + l⟩ q c) = _
    unfold feedQuoted
    split
    · rfl
    · split
      · rfl
      · split
        · rfl
        · rfl
  | none =>
    change feedPlain ⟨none, escaped, brackets, braces⟩ c = .ok n' at h
    change feedPlain ⟨none, escaped, brackets + k, braces + l⟩ c = .ok (n'.deeper k l)
    cases plainStep_of_feedPlain h with
    | quote quote => cases quote <;> rfl
    | openBracket | openBrace => simp only [feedPlain, deeper, Nat.add_right_comm]
    -- a closing bracket or brace has its opening one before the others
    | closeBracket b hbrackets =>
      obtain rfl : brackets = b + 1 := hbrackets
      rw [Nat.add_right_comm]
      rfl
    | closeBrace b hbraces =>
      obtain rfl : braces = b + 1 := hbraces
      rw [Nat.add_right_comm b]
      rfl
    | other hother => exact hother _

/-- **What can be crossed stays within brackets and braces around it.** -/
theorem Crosses.within_deeper (h : Crosses n cs n') {k l : Nat} (hkl : 0 < k + l) :
    Within (n.deeper k l) cs (n'.deeper k l) := by
  induction h with
  | nil => exact .nil
  | cons _ hfeed _ ih => exact .cons (feed_deeper hfeed k l) (atTop_deeper _ hkl) ih

/-! ## Ordinary characters and strings -/

/-- Whether a character neither delimits literals nor cuts a list. -/
def isOrdinary (c : Char) : Bool :=
  !(['\'', '"', '[', ']', '\x7b', '\x7d', ','].contains c)

/-- An ordinary character outside of strings changes nothing. -/
theorem feed_of_isOrdinary {c : Char} (hc : isOrdinary c = true) (hquote : n.quote = none) :
    n.feed c = .ok n := by
  unfold feed
  rw [hquote]
  dsimp only
  unfold feedPlain
  split <;> first | rfl | cases hc

/-- Ordinary characters outside strings change nothing. -/
theorem crosses_of_isOrdinary (hquote : n.quote = none) (hcs : ∀ c ∈ cs, isOrdinary c = true) :
    Crosses n cs n := by
  induction cs with
  | nil => exact .nil
  | cons c cs ih =>
    have hc := hcs c List.mem_cons_self
    refine .cons ?_ (feed_of_isOrdinary hc hquote) (ih fun d hd =>
      hcs d (List.mem_cons_of_mem _ hd))
    rintro rfl
    cases hc

/-- Whether a class of characters has ordinary ones only. -/
def isOrdinaryClass (p : Char → Bool) : Bool :=
  ['\'', '"', '[', ']', '\x7b', '\x7d', ','].all fun d => !p d

/-- All characters of a class of ordinary characters are ordinary. -/
theorem isOrdinary_of_class {p : Char → Bool} (hp : isOrdinaryClass p = true) {c : Char}
    (h : p c = true) : isOrdinary c = true := by
  rw [isOrdinary, Bool.not_eq_true', ← Bool.not_eq_true, List.contains_iff_mem]
  intro hmem
  have hnot := List.all_eq_true.1 hp c hmem
  rw [h] at hnot
  cases hnot

/-- The characters of names are ordinary. -/
theorem isOrdinary_of_isNameChar {c : Char} (h : Text.isNameChar c = true) : isOrdinary c = true :=
  isOrdinary_of_class (by decide) h

/-! ## Pieces of lists -/

/-- A text that is crossed belongs to one piece. -/
theorem Crosses.pieces_append (h : Crosses n cs n') {rest piece : List Char} {ps : List (List Char)}
    (hrest : n'.pieces rest = .ok (piece :: ps)) :
    n.pieces (cs ++ rest) = .ok ((cs ++ piece) :: ps) := by
  induction h with
  | nil => exact hrest
  | @cons n n' m c cs hcomma hfeed _ ih =>
    have hnot : ¬(c = ',' ∧ n.atTop = true) := by
      rintro ⟨hc, htop⟩
      rw [hcomma hc] at htop
      cases htop
    rw [List.cons_append, pieces, if_neg hnot, hfeed]
    dsimp only
    rw [ih hrest]
    rfl

/-- A comma at top starts another piece. -/
theorem pieces_comma {rest : List Char} {ps : List (List Char)}
    (hrest : start.pieces rest = .ok ps) :
    start.pieces (',' :: rest) = .ok ([] :: ps) := by
  rw [pieces, if_pos ⟨rfl, rfl⟩, hrest]

/-- **Pieces joined by commas** are found again. -/
theorem pieces_intercalate {ps : List (List Char)} (hps : ∀ p ∈ ps, Crosses start p start)
    (hne : ps ≠ []) : start.pieces ([','].intercalate ps) = .ok ps := by
  induction ps with
  | nil => exact absurd rfl hne
  | cons p ps ih =>
    have hp := hps p List.mem_cons_self
    cases ps with
    | nil =>
      have hend : start.pieces [] = .ok [[]] := rfl
      have hpieces := hp.pieces_append hend
      rw [List.append_nil] at hpieces
      simpa using hpieces
    | cons q qs =>
      have hrest := ih (fun x hx => hps x (List.mem_cons_of_mem _ hx)) (by simp)
      have hpieces := hp.pieces_append (pieces_comma hrest)
      rw [List.intercalate_cons_cons, List.append_assoc, List.singleton_append, hpieces,
        List.append_nil]

end Nesting

/-! ## Lists -/

/-- A character in front of the first of some joined texts. -/
theorem intercalate_cons_head {sep : List Char} (c : Char) (item : List Char)
    (items : List (List Char)) :
    sep.intercalate ((c :: item) :: items) = c :: sep.intercalate (item :: items) := by
  cases items with
  | nil => simp
  | cons next items => simp [List.intercalate_cons_cons]

/-- Each of some joined texts is no longer than all of them together. -/
theorem length_le_intercalate (sep : List Char) {item : List Char} {items : List (List Char)}
    (h : item ∈ items) : item.length ≤ (sep.intercalate items).length := by
  induction items with
  | nil => cases h
  | cons first items ih =>
    cases items with
    | nil =>
      obtain rfl : item = first := by simpa using h
      simp
    | cons next items =>
      rw [List.intercalate_cons_cons, List.length_append, List.length_append]
      rcases List.mem_cons.1 h with rfl | h
      · omega
      · have hle := ih h
        omega

/-- **The pieces of a text**, joined by commas, are the text again. -/
theorem Nesting.exists_of_pieces {n : Nesting} {cs : List Char} {ps : List (List Char)}
    (h : n.pieces cs = .ok ps) : ∃ piece rest, ps = piece :: rest ∧ [','].intercalate ps = cs := by
  induction cs generalizing n ps with
  | nil =>
    obtain ⟨-, rfl⟩ := pieces_nil_eq_ok h
    exact ⟨[], [], rfl, rfl⟩
  | cons c cs ih =>
    obtain ⟨⟨rfl, -⟩, ps', hpieces, rfl⟩ | ⟨-, n', ps', -, hpieces, rfl⟩ := cases_of_pieces h
    · obtain ⟨piece, rest, rfl, htext⟩ := ih hpieces
      refine ⟨[], piece :: rest, rfl, ?_⟩
      rw [List.intercalate_cons_cons, htext]
      rfl
    · obtain ⟨piece, rest, rfl, htext⟩ := ih hpieces
      refine ⟨c :: piece, rest, rfl, ?_⟩
      rw [consFirst, intercalate_cons_head, htext]

/-- Inside brackets, items with commas between them stay within. -/
theorem Nesting.within_intercalate {items : List (List Char)}
    (h : ∀ item ∈ items, Crosses start item start) :
    Within { brackets := 1 } ([',', ' '].intercalate items) { brackets := 1 } := by
  induction items with
  | nil => exact .nil
  | cons item items ih =>
    have hitem : Within { brackets := 1 } item { brackets := 1 } :=
      (h item List.mem_cons_self).within_deeper (k := 1) (l := 0) Nat.one_pos
    have hitems := ih fun next hnext => h next (List.mem_cons_of_mem _ hnext)
    cases items with
    | nil => simpa using hitem
    | cons next items =>
      rw [List.intercalate_cons_cons]
      exact (hitem.append (.cons rfl rfl (.cons rfl rfl .nil))).append hitems

/-- Items with commas between them, in brackets, are one literal. -/
theorem Nesting.encloses_intercalate {items : List (List Char)}
    (h : ∀ item ∈ items, Crosses start item start) :
    Encloses { brackets := 1 } ([',', ' '].intercalate items) ']' := by
  have hlast : Encloses { brackets := 1 } [] ']' := .close rfl rfl
  have hencloses := (within_intercalate h).encloses hlast
  rwa [List.append_nil] at hencloses

/-- A comma and a blank between items is a comma, and a blank in front of all items but the first.
-/
theorem intercalate_comma_blank (item : List Char) (items : List (List Char)) :
    [',', ' '].intercalate (item :: items) = [','].intercalate (item :: items.map (' ' :: ·)) := by
  induction items generalizing item with
  | nil => rfl
  | cons next items ih =>
    rw [List.intercalate_cons_cons, ih, List.map_cons, List.intercalate_cons_cons,
      intercalate_cons_head]
    simp

/-- **A list joined from its items** is split into them again, if they are trimmed and not blank.

**Proof sketch.** The blank after a comma belongs to the piece after it, so that the text is the
pieces `item`, `' ' :: next`, … joined by commas alone. These are split again
(`Nesting.pieces_intercalate`), and trimming them takes the blanks off. -/
theorem splitList_intercalate {items : List (List Char)}
    (hitems : ∀ item ∈ items, Nesting.Crosses .start item .start)
    (htrim : ∀ item ∈ items, Text.trimChars item = item) (hne : ∀ item ∈ items, item ≠ []) :
    splitList (String.ofList ([',', ' '].intercalate items)) = .ok (items.map String.ofList) := by
  cases items with
  | nil => rfl
  | cons item items =>
    have hitem := hne item List.mem_cons_self
    have hblank : Text.trimChars ([',', ' '].intercalate (item :: items)) ≠ [] := by
      intro hnil
      refine hitem ?_
      rw [← htrim item List.mem_cons_self, Text.trimChars_eq_nil_iff]
      intro c hc
      refine Text.trimChars_eq_nil_iff.1 hnil c ?_
      cases items with
      | nil => simpa using hc
      | cons next items =>
        rw [List.intercalate_cons_cons]
        simp [hc]
    have hpieces : Nesting.start.pieces ([','].intercalate (item :: items.map (' ' :: ·))) =
        .ok (item :: items.map (' ' :: ·)) := by
      refine Nesting.pieces_intercalate ?_ (by simp)
      intro piece hpiece
      rcases List.mem_cons.1 hpiece with rfl | hpiece
      · exact hitems _ List.mem_cons_self
      · obtain ⟨next, hnext, rfl⟩ := List.mem_map.1 hpiece
        exact .cons (by simp) rfl (hitems next (List.mem_cons_of_mem _ hnext))
    unfold splitList
    rw [String.toList_ofList, if_neg hblank, intercalate_comma_blank, hpieces]
    have hmap : items.map (fun next => String.ofList (Text.trimChars (' ' :: next))) =
        items.map String.ofList := by
      refine List.map_congr_left fun next hnext => ?_
      have htrimmed : Text.trimChars (' ' :: next) = Text.trimChars next := rfl
      rw [htrimmed, htrim next (List.mem_cons_of_mem _ hnext)]
    simp only [List.map_cons, List.map_map, Function.comp_def, htrim item List.mem_cons_self, hmap]

end LineScript
