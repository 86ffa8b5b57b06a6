import LineScript.Proofs.Statement.Call

set_option relaxedAutoImplicit false
set_option autoImplicit false

/-!
# Lists, split and joined

A list is split at its commas outside literals, and blanks around an item are dropped. Splitting and
joining undo each other because the scan has no memory of what it crossed: wherever nothing is open,
its state is the one it started with, the mark of an open backslash included. So each item could
stand alone, and joined items are cut where they were joined.

## Main definitions

* `LineScript.Nesting.scan` — what is open after a whole text.
* `LineScript.Nesting.Stray` — a closing bracket or brace without an open one.
* `LineScript.IsListItem` — a trimmed text that closes its literals and has no comma outside them.
* `LineScript.Joined` — items with commas between them and blanks around them.

## Main results

* `LineScript.Nesting.Settled.eq_start` — where nothing is open, the scan is as at its start.
* `LineScript.Nesting.crosses_of_pieces` — each piece of a text can be scanned on its own.
* `LineScript.Nesting.pieces_eq_error_iff` — the texts that cannot be cut into pieces.
* `LineScript.splitList_joined_iff` — the items of a list, and the texts that are no lists.
-/

namespace LineScript

/-! ## Blanks around a text -/

namespace Text

/-- A text is its trimmed part between blanks. -/
theorem exists_eq_append_trimChars (cs : List Char) :
    ∃ before after, (∀ c ∈ before, isBlank c = true) ∧ (∀ c ∈ after, isBlank c = true) ∧
      cs = before ++ trimChars cs ++ after := by
  obtain ⟨after, hafter, htext⟩ := exists_eq_trimEnd_append (trimStart cs)
  refine ⟨cs.takeWhile isBlank, after, fun c hc => List.mem_takeWhile_imp hc, hafter, ?_⟩
  calc cs = cs.takeWhile isBlank ++ trimStart cs := List.takeWhile_append_dropWhile.symm
    _ = cs.takeWhile isBlank ++ (trimChars cs ++ after) := congrArg _ htext
    _ = cs.takeWhile isBlank ++ trimChars cs ++ after := (List.append_assoc _ _ _).symm

/-- Blanks around a text are trimmed. -/
theorem trimChars_padded {before after : List Char} (hbefore : ∀ c ∈ before, isBlank c = true)
    (hafter : ∀ c ∈ after, isBlank c = true) (cs : List Char) :
    trimChars (before ++ cs ++ after) = trimChars cs := by
  have hstart : trimStart (before ++ cs ++ after) = trimStart (cs ++ after) := by
    rw [List.append_assoc, trimStart, List.dropWhile_append_of_pos hbefore, trimStart]
  have hend : trimEnd (cs ++ after) = trimEnd cs := by
    rw [Layout.trimEnd_append, if_pos (trimEnd_of_isBlank hafter)]
  rw [trimChars, hstart, ← trimChars, ← trimStart_trimEnd, hend, trimStart_trimEnd]

/-- A trimmed text of blanks is empty. -/
theorem eq_nil_of_trimChars {cs : List Char} (htrim : trimChars cs = cs)
    (hblank : ∀ c ∈ cs, isBlank c = true) : cs = [] := by
  rw [← htrim, trimChars_eq_nil_iff]
  exact hblank

end Text

namespace Nesting

variable {n n' m : Nesting} {cs ds : List Char}

/-! ## The scan at top -/

/-- No backslash is open outside strings. -/
def Settled (n : Nesting) : Prop :=
  n.quote = none → n.escaped = false

/-- Before a text, nothing is escaped. -/
theorem settled_start : start.Settled := fun _ => rfl

/-- A string is left by its closing quote only, which is not after a backslash. -/
theorem Settled.feed {c : Char} (hn : n.Settled) (h : n.feed c = .ok n') : n'.Settled := by
  obtain ⟨quote, escaped, brackets, braces⟩ := n
  cases quote with
  | some q =>
    obtain rfl : feedQuoted ⟨some q, escaped, brackets, braces⟩ q c = n' := Except.ok.inj h
    cases escaped with
    | true => exact fun _ => rfl
    | false =>
      unfold feedQuoted
      by_cases hescape : c = '\\'
      · simp only [if_pos hescape, Bool.false_eq_true, if_false]
        exact fun hquote => nomatch hquote
      · simp only [if_neg hescape, Bool.false_eq_true, if_false]
        split
        · exact fun _ => rfl
        · exact fun _ => rfl
  | none =>
    have hescaped : escaped = false := hn rfl
    change feedPlain ⟨none, escaped, brackets, braces⟩ c = .ok n' at h
    cases plainStep_of_feedPlain h <;> exact fun _ => hescaped

/-- **The scan has no memory**: where nothing is open, it is as at its start. -/
theorem Settled.eq_start (hn : n.Settled) (htop : n.atTop = true) : n = start := by
  obtain ⟨quote, escaped, brackets, braces⟩ := n
  simp only [atTop, Bool.and_eq_true, beq_iff_eq, Option.isNone_iff_eq_none] at htop
  obtain ⟨⟨rfl, rfl⟩, rfl⟩ := htop
  obtain rfl : escaped = false := hn rfl
  rfl

/-- A state that is reached from a settled one by ordinary steps is settled. -/
theorem Crosses.settled (h : Crosses n cs n') (hn : n.Settled) : n'.Settled := by
  induction h with
  | nil => exact hn
  | cons _ hfeed _ ih => exact ih (hn.feed hfeed)

/-- A comma outside literals changes nothing. -/
theorem feed_comma (htop : n.atTop = true) : n.feed ',' = .ok n := by
  rw [feed, quote_of_atTop htop]
  rfl

/-! ## Blanks around a piece -/

/-- Crossing a text crosses its first part and then the second one. -/
theorem Crosses.exists_of_append (h : Crosses n (cs ++ ds) m) :
    ∃ k, Crosses n cs k ∧ Crosses k ds m := by
  induction cs generalizing n with
  | nil => exact ⟨n, .nil, h⟩
  | cons c cs ih =>
    cases h with
    | cons hcomma hfeed hrest =>
      obtain ⟨k, hcs, hds⟩ := ih hrest
      exact ⟨k, .cons hcomma hfeed hcs, hds⟩

/-- Blanks are crossed outside of strings. -/
theorem crosses_of_isBlank (hquote : n.quote = none) (hcs : ∀ c ∈ cs, Text.isBlank c = true) :
    Crosses n cs n :=
  crosses_of_isOrdinary hquote fun c hc => isOrdinary_of_class (by decide) (hcs c hc)

/-- Blanks outside strings change nothing. -/
theorem Crosses.eq_of_isBlank (h : Crosses n cs n') (hquote : n.quote = none)
    (hcs : ∀ c ∈ cs, Text.isBlank c = true) : n' = n := by
  induction h with
  | nil => rfl
  | cons _ hfeed _ ih =>
    have hc := isOrdinary_of_class (by decide) (hcs _ List.mem_cons_self)
    rw [feed_of_isOrdinary hc hquote] at hfeed
    cases hfeed
    exact ih hquote fun c hc => hcs c (List.mem_cons_of_mem _ hc)

/-- Blanks close nothing. -/
theorem Crosses.atTop_of_isBlank (h : Crosses n cs n') (hcs : ∀ c ∈ cs, Text.isBlank c = true)
    (htop : n'.atTop = true) : n.atTop = true := by
  induction h with
  | nil => exact htop
  | @cons n _ _ _ _ _ hfeed _ ih =>
    have htop' := ih (fun c hc => hcs c (List.mem_cons_of_mem _ hc)) htop
    rw [← Bool.not_eq_false]
    intro hopen
    rw [atTop_feed_of_isBlank (hcs _ List.mem_cons_self) hopen hfeed] at htop'
    cases htop'

/-- **Blanks around a piece** make no difference to whether it is crossed. -/
theorem crosses_padded_iff {before after : List Char}
    (hbefore : ∀ c ∈ before, Text.isBlank c = true) (hafter : ∀ c ∈ after, Text.isBlank c = true) :
    Crosses start (before ++ cs ++ after) start ↔ Crosses start cs start := by
  constructor
  · intro h
    obtain ⟨m, hfront, hend⟩ := h.exists_of_append
    obtain ⟨k, hblanks, hcs⟩ := hfront.exists_of_append
    obtain rfl : k = start := hblanks.eq_of_isBlank rfl hbefore
    obtain rfl : m = start :=
      (hcs.settled settled_start).eq_start (hend.atTop_of_isBlank hafter rfl)
    exact hcs
  · intro h
    exact ((crosses_of_isBlank rfl hbefore).append h).append (crosses_of_isBlank rfl hafter)

/-! ## Pieces -/

/-- **Each piece can be scanned on its own**: the first one goes on from where the scan stands, and
every other one starts and ends with nothing open.

**Proof sketch.** Induction on the text. At a comma that cuts it, the scan is as at its start
(`Settled.eq_start`), so that what follows is scanned from there. -/
theorem crosses_of_pieces {piece : List Char} {ps : List (List Char)} (hn : n.Settled)
    (h : n.pieces cs = .ok (piece :: ps)) :
    Crosses n piece start ∧ ∀ p ∈ ps, Crosses start p start := by
  induction cs generalizing n piece ps with
  | nil =>
    obtain ⟨hnone, heq⟩ := pieces_nil_eq_ok h
    cases heq
    obtain rfl : n = start := hn.eq_start (atTop_of_unterminated? hnone)
    exact ⟨.nil, by simp⟩
  | cons c cs ih =>
    obtain ⟨hcomma, ps', hpieces, heq⟩ | ⟨hcomma, n', ps', hfeed, hpieces, heq⟩ := cases_of_pieces h
    · obtain ⟨next, rest, rfl, -⟩ := exists_of_pieces hpieces
      cases heq
      obtain rfl : n = start := hn.eq_start hcomma.2
      obtain ⟨hnext, hrest⟩ := ih settled_start hpieces
      exact ⟨.nil, List.forall_mem_cons.2 ⟨hnext, hrest⟩⟩
    · obtain ⟨next, rest, rfl, -⟩ := exists_of_pieces hpieces
      cases heq
      obtain ⟨hnext, hrest⟩ := ih (hn.feed hfeed) hpieces
      refine ⟨.cons (fun hc => ?_) hfeed hnext, hrest⟩
      rw [Bool.eq_false_iff]
      exact fun htop => hcomma ⟨hc, htop⟩

/-! ## Texts that cannot be cut -/

/-- What is open after a text, commas included. -/
def scan (n : Nesting) (cs : List Char) : Except ScriptError Nesting :=
  cs.foldlM feed n

/-- A closing bracket or brace outside strings, while none is open. -/
inductive Stray (n : Nesting) : Char → Delimiter → Prop
  | bracket : n.quote = none → n.brackets = 0 → Stray n ']' .collection
  | brace : n.quote = none → n.braces = 0 → Stray n '\x7d' .call

/-- Scanning a text takes in its first character and scans the rest. -/
theorem scan_cons (n : Nesting) (c : Char) (cs : List Char) :
    n.scan (c :: cs) = n.feed c >>= fun n' => n'.scan cs :=
  List.foldlM_cons

/-- The characters at which the scan fails. -/
theorem feed_eq_error_iff {c : Char} {e : ScriptError} :
    n.feed c = .error e ↔ ∃ d, n.Stray c d ∧ e = .unexpectedCloser d := by
  obtain ⟨quote, escaped, brackets, braces⟩ := n
  constructor
  · intro h
    cases quote with
    | some q => cases h
    | none =>
      change feedPlain ⟨none, escaped, brackets, braces⟩ c = .error e at h
      obtain ⟨rfl, hzero, rfl⟩ | ⟨rfl, hzero, rfl⟩ := cases_of_feedPlain_error h
      · exact ⟨_, .bracket rfl hzero, rfl⟩
      · exact ⟨_, .brace rfl hzero, rfl⟩
  · rintro ⟨d, hstray, rfl⟩
    cases hstray with
    | bracket hquote hzero =>
      obtain rfl : quote = none := hquote
      obtain rfl : brackets = 0 := hzero
      rfl
    | brace hquote hzero =>
      obtain rfl : quote = none := hquote
      obtain rfl : braces = 0 := hzero
      rfl

/-- **The scan fails at a stray closer**, and only there.

**Proof sketch.** From left to right by induction on the text: the scan fails at its first
character, or after it. From right to left the scan comes to the stray closer and fails there. -/
theorem scan_eq_error_iff {e : ScriptError} :
    n.scan cs = .error e ↔ ∃ before c after m d, cs = before ++ c :: after ∧
      n.scan before = .ok m ∧ m.Stray c d ∧ e = .unexpectedCloser d := by
  constructor
  · intro h
    induction cs generalizing n with
    | nil => cases h
    | cons c cs ih =>
      rw [scan_cons] at h
      cases hfeed : n.feed c with
      | error e' =>
        rw [hfeed] at h
        cases h
        obtain ⟨d, hstray, rfl⟩ := feed_eq_error_iff.1 hfeed
        exact ⟨[], c, cs, n, d, rfl, rfl, hstray, rfl⟩
      | ok n' =>
        rw [hfeed] at h
        obtain ⟨before, c', after, m, d, rfl, hbefore, hstray, rfl⟩ := ih h
        refine ⟨c :: before, c', after, m, d, rfl, ?_, hstray, rfl⟩
        rw [scan_cons, hfeed]
        exact hbefore
  · rintro ⟨before, c, after, m, d, rfl, hbefore, hstray, rfl⟩
    have hfeed : m.feed c = .error (.unexpectedCloser d) := feed_eq_error_iff.2 ⟨d, hstray, rfl⟩
    rw [scan] at hbefore ⊢
    rw [List.foldlM_append, hbefore]
    change m.scan (c :: after) = _
    rw [scan_cons, hfeed]
    rfl

/-- **The texts that cannot be cut into pieces** are those whose scan fails or leaves something
open; the commas at which a text is cut make no difference to its scan. -/
theorem pieces_eq_error_iff {e : ScriptError} :
    n.pieces cs = .error e ↔ n.scan cs = .error e ∨
      ∃ m d, n.scan cs = .ok m ∧ m.unterminated? = some d ∧ e = .unterminated d := by
  induction cs generalizing n with
  | nil =>
    have hscan : n.scan [] = .ok n := rfl
    rw [pieces, hscan]
    cases hopen : n.unterminated? with
    | none => simp [hopen]
    | some d => simp [hopen, eq_comm]
  | cons c cs ih =>
    rw [pieces, scan_cons]
    by_cases hcomma : c = ',' ∧ n.atTop = true
    · rw [if_pos hcomma, hcomma.1, feed_comma hcomma.2]
      change _ ↔ n.scan cs = .error e ∨ ∃ m d, n.scan cs = .ok m ∧ _
      rw [← ih]
      cases n.pieces cs <;> simp
    · rw [if_neg hcomma]
      cases hfeed : n.feed c with
      | error e' => simp [Bind.bind, Except.bind]
      | ok n' =>
        change _ ↔ n'.scan cs = .error e ∨ ∃ m d, n'.scan cs = .ok m ∧ _
        rw [← ih]
        dsimp only
        cases n'.pieces cs <;> simp

end Nesting

/-! ## Items -/

/-- A text that can be an item of a list: it has no blanks at its ends, and the scan over it ends
with nothing open and meets no comma where nothing is open. -/
structure IsListItem (item : String) : Prop where
  trimmed : Text.trim item = item
  crossed : ∃ n : Nesting, Nesting.Crosses .start item.toList n ∧ n.atTop = true

/-- An item with blanks before and after it. -/
def Padded (item : String) (text : List Char) : Prop :=
  ∃ before after, (∀ c ∈ before, Text.isBlank c = true) ∧ (∀ c ∈ after, Text.isBlank c = true) ∧
    text = before ++ item.toList ++ after

/-- The items with blanks around each of them and a comma between any two. Without items, the text
is blank. -/
inductive Joined : List String → List Char → Prop
  | blank {text : List Char} : (∀ c ∈ text, Text.isBlank c = true) → Joined [] text
  | commas {item : String} {items : List String} {padded : List (List Char)} :
      List.Forall₂ Padded (item :: items) padded → Joined (item :: items) ([','].intercalate padded)

variable {s item : String} {items : List String} {text : List Char}

/-- Whatever stands between the commas of a list, once it is trimmed, stands there with blanks
around it. -/
theorem padded_trimChars (text : List Char) :
    Padded (String.ofList (Text.trimChars text)) text := by
  obtain ⟨before, after, hbefore, hafter, htext⟩ := Text.exists_eq_append_trimChars text
  exact ⟨before, after, hbefore, hafter, by rwa [String.toList_ofList]⟩

/-- An item that is padded to blanks holds blanks alone. -/
theorem Padded.isBlank_of_mem (h : Padded item text) (hblank : ∀ c ∈ text, Text.isBlank c = true) :
    ∀ c ∈ item.toList, Text.isBlank c = true := by
  obtain ⟨before, after, -, -, rfl⟩ := h
  intro c hc
  exact hblank c (by simp [hc])

namespace IsListItem

/-- An item is crossed from the start of a list to where it could end. -/
theorem crosses (h : IsListItem item) : Nesting.Crosses .start item.toList .start := by
  obtain ⟨n, hcrosses, htop⟩ := h.crossed
  obtain rfl : n = .start := (hcrosses.settled Nesting.settled_start).eq_start htop
  exact hcrosses

/-- An item has nothing to trim. -/
theorem trimChars_toList (h : IsListItem item) : Text.trimChars item.toList = item.toList := by
  have htrimmed := congrArg String.toList h.trimmed
  rwa [Text.trim, String.toList_ofList] at htrimmed

/-- An item is crossed with the blanks around it too. -/
theorem crosses_padded (h : IsListItem item) (hpadded : Padded item text) :
    Nesting.Crosses .start text .start := by
  obtain ⟨before, after, hbefore, hafter, rfl⟩ := hpadded
  exact (Nesting.crosses_padded_iff hbefore hafter).2 h.crosses

/-- An item is what is left of it and the blanks around it by trimming. -/
theorem trimChars_padded (h : IsListItem item) (hpadded : Padded item text) :
    String.ofList (Text.trimChars text) = item := by
  obtain ⟨before, after, hbefore, hafter, rfl⟩ := hpadded
  rw [Text.trimChars_padded hbefore hafter, h.trimChars_toList, String.ofList_toList]

/-- The item of a blank text is empty. -/
theorem eq_empty (h : IsListItem item) (hpadded : Padded item text)
    (hblank : ∀ c ∈ text, Text.isBlank c = true) : item = "" := by
  rw [← String.toList_inj]
  exact Text.eq_nil_of_trimChars h.trimChars_toList (hpadded.isBlank_of_mem hblank)

end IsListItem

/-- A piece that is crossed is an item once it is trimmed. -/
theorem isListItem_trimChars (h : Nesting.Crosses .start text .start) :
    IsListItem (String.ofList (Text.trimChars text)) := by
  obtain ⟨before, after, hbefore, hafter, htext⟩ := Text.exists_eq_append_trimChars text
  rw [htext, Nesting.crosses_padded_iff hbefore hafter] at h
  refine ⟨?_, .start, ?_, rfl⟩
  · have htrim := Text.trimChars_padded hbefore hafter (Text.trimChars text)
    rw [← htext] at htrim
    rw [Text.trim, String.toList_ofList, ← htrim]
  · rwa [String.toList_ofList]

/-! ## Splitting and joining -/

/-- **Joined items are cut** into themselves, with the blanks around them. -/
theorem pieces_of_forall₂_padded {padded : List (List Char)}
    (hitems : ∀ item ∈ items, IsListItem item)
    (hpadded : List.Forall₂ Padded items padded) (hne : items ≠ []) :
    Nesting.start.pieces ([','].intercalate padded) = .ok padded ∧
      (padded.map fun piece => String.ofList (Text.trimChars piece)) = items := by
  have hboth : (∀ piece ∈ padded, Nesting.Crosses .start piece .start) ∧
      (padded.map fun piece => String.ofList (Text.trimChars piece)) = items := by
    clear hne
    induction hpadded with
    | nil => exact ⟨by simp, rfl⟩
    | @cons item piece items padded hpiece _ ih =>
      obtain ⟨hitem, hitems⟩ := List.forall_mem_cons.1 hitems
      obtain ⟨hcrosses, htrim⟩ := ih hitems
      refine ⟨List.forall_mem_cons.2 ⟨hitem.crosses_padded hpiece, hcrosses⟩, ?_⟩
      rw [List.map_cons, hitem.trimChars_padded hpiece, htrim]
  refine ⟨Nesting.pieces_intercalate hboth.1 ?_, hboth.2⟩
  rintro rfl
  cases hpadded
  exact hne rfl

/-- Joined items are blank only if there is none or one empty item. -/
theorem eq_of_joined_of_isBlank (hitems : ∀ item ∈ items, IsListItem item) (h : Joined items text)
    (hblank : ∀ c ∈ text, Text.isBlank c = true) : items = [] ∨ items = [""] := by
  cases h with
  | blank _ => exact .inl rfl
  | commas hpadded =>
    obtain ⟨hpieces, -⟩ := pieces_of_forall₂_padded hitems hpadded (by simp)
    obtain ⟨-, htext⟩ := Nesting.pieces_of_isBlank hblank hpieces
    rw [htext] at hpadded
    cases hpadded with
    | cons hpiece hrest =>
      cases hrest
      rw [(hitems _ List.mem_cons_self).eq_empty hpiece hblank]
      exact .inr rfl

/-- **Joined items are split** into themselves. -/
theorem splitList_of_joined (hitems : ∀ item ∈ items, IsListItem item) (h : Joined items s.toList)
    (hne : items ≠ [""]) : splitList s = .ok items := by
  unfold splitList
  by_cases hblank : Text.trimChars s.toList = []
  · rw [if_pos hblank]
    rcases eq_of_joined_of_isBlank hitems h (Text.trimChars_eq_nil_iff.1 hblank) with rfl | rfl
    · rfl
    · exact absurd rfl hne
  · rw [if_neg hblank]
    generalize s.toList = text at h hblank
    cases h with
    | blank hall => exact absurd (Text.trimChars_eq_nil_iff.2 hall) hblank
    | commas hpadded =>
      obtain ⟨hpieces, hmap⟩ := pieces_of_forall₂_padded hitems hpadded (by simp)
      simp only [hpieces, hmap]

/-- **Split items** are items, and joined they are the list again. -/
theorem joined_of_splitList (h : splitList s = .ok items) :
    items ≠ [""] ∧ (∀ item ∈ items, IsListItem item) ∧ Joined items s.toList := by
  obtain ⟨hblank, rfl⟩ | ⟨hblank, ps, hpieces, rfl⟩ := cases_of_splitList h
  · exact ⟨by simp, by simp, .blank (Text.trimChars_eq_nil_iff.1 hblank)⟩
  · obtain ⟨piece, rest, rfl, htext⟩ := Nesting.exists_of_pieces hpieces
    obtain ⟨hpiece, hrest⟩ := Nesting.crosses_of_pieces Nesting.settled_start hpieces
    have hcrosses : ∀ p ∈ piece :: rest, Nesting.Crosses .start p .start :=
      List.forall_mem_cons.2 ⟨hpiece, hrest⟩
    refine ⟨?_, ?_, ?_⟩
    · -- a list of one piece is that piece, which is not blank
      intro hempty
      cases rest with
      | nil =>
        rw [List.map_singleton, List.singleton_inj] at hempty
        rw [List.intercalate_singleton] at htext
        rw [← htext, ← String.toList_ofList (l := Text.trimChars piece), hempty] at hblank
        exact hblank rfl
      | cons next rest => simp at hempty
    · intro item hitem
      obtain ⟨p, hp, rfl⟩ := List.mem_map.1 hitem
      exact isListItem_trimChars (hcrosses p hp)
    · rw [← htext]
      have hpadded : List.Forall₂ Padded
          ((piece :: rest).map fun p => String.ofList (Text.trimChars p)) (piece :: rest) :=
        List.forall₂_map_left_iff.2 (List.forall₂_same.2 fun p _ => padded_trimChars p)
      exact .commas hpadded

/-- A text has no items if it has no pieces. -/
theorem splitList_eq_error_iff {e : ScriptError} :
    splitList s = .error e ↔ Nesting.start.pieces s.toList = .error e := by
  unfold splitList
  by_cases hblank : Text.trimChars s.toList = []
  · rw [if_pos hblank]
    -- blanks are one piece
    have hcrosses := Nesting.crosses_of_isBlank (n := .start) rfl
      (Text.trimChars_eq_nil_iff.1 hblank)
    have hend : Nesting.start.pieces [] = .ok [[]] := rfl
    have hpieces := hcrosses.pieces_append hend
    rw [List.append_nil] at hpieces
    simp [hpieces]
  · rw [if_neg hblank]
    cases Nesting.start.pieces s.toList <;> simp

/-- **Splitting undoes joining, and joining undoes splitting.** The items of a list are exactly
those texts that can be items, are not one empty text alone, and give the list when they are joined
by commas with blanks around them. A text is no list exactly if its scan meets a closing bracket or
brace while none is open, or ends with something open; the error names that delimiter.

**Proof sketch.** The pieces between the commas are each scanned from the start
(`Nesting.crosses_of_pieces`), and the blanks that trimming takes away are outside all literals
(`Nesting.crosses_padded_iff`). Conversely, items that end with nothing open leave the scan as at
its start, so that the commas between them are found (`pieces_of_forall₂_padded`). -/
theorem splitList_joined_iff (s : String) :
    (∀ items, splitList s = .ok items ↔
      items ≠ [""] ∧ (∀ item ∈ items, IsListItem item) ∧ Joined items s.toList) ∧
    ∀ e, splitList s = .error e ↔
      (∃ before c after n d, s.toList = before ++ c :: after ∧ Nesting.start.scan before = .ok n ∧
        n.Stray c d ∧ e = .unexpectedCloser d) ∨
      ∃ n d, Nesting.start.scan s.toList = .ok n ∧ n.unterminated? = some d ∧
        e = .unterminated d := by
  refine ⟨fun items => ⟨joined_of_splitList, fun ⟨hne, hitems, hjoined⟩ => ?_⟩, fun e => ?_⟩
  · exact splitList_of_joined hitems hjoined hne
  · rw [splitList_eq_error_iff, Nesting.pieces_eq_error_iff, Nesting.scan_eq_error_iff]

/-- Commas in strings, collections and calls separate nothing, and the last item may be empty. -/
example : splitList " 'it\\'s, ' ,\t[1, \x7bf 2, ']'\x7d] , " =
    .ok ["'it\\'s, '", "[1, \x7bf 2, ']'\x7d]", ""] := by
  decide +kernel

end LineScript
