import LineScript.Proofs.Collection
import LineScript.Proofs.Library.Answers

set_option relaxedAutoImplicit false
set_option autoImplicit false

/-!
# Splitting a text and joining its pieces

A text is split at the occurrences of a delimiter, which are taken from the left and do not overlap.
A limit bounds the number of pieces, or drops pieces from the end. The pieces of a text, joined by
the delimiter, are the text again unless pieces have been dropped.

## Main results

* `LineScript.Text.cutAt?_eq_some_iff`, `LineScript.Text.cutAt?_eq_none_iff` — a text is cut around
  the first occurrence of a pattern.
* `LineScript.Text.intercalate_piecesWithin`, `LineScript.Text.dropLast_piecesWithin` — the pieces
  up to a bound.
* `LineScript.Collection.keys_ofValues` — a list has the indices from zero on.
* `LineScript.Library.join_undoes_split` — joining undoes splitting.
-/

namespace LineScript

/-! ## The first occurrence -/

namespace Text

variable {pat cs : List Char}

/-- What is left of a text after a pattern that it starts with. -/
theorem dropPattern?_eq_some_iff {rest : List Char} :
    dropPattern? pat cs = some rest ↔ cs = pat ++ rest := by
  fun_induction dropPattern? pat cs with
  | case1 cs => simp
  | case2 p pat => simp
  | case3 pat c cs ih => simp [ih]
  | case4 p pat c cs hne => simp [Ne.symm hne]

/-- What has been seen comes first in the cut. -/
theorem cutFrom_eq_map (seen : List Char) :
    cutFrom pat seen cs = (cutAt? pat cs).map fun cut => (seen.reverse ++ cut.1, cut.2) := by
  unfold cutAt?
  induction cs generalizing seen with
  | nil => simp [cutFrom, Function.comp_def]
  | cons c cs ih =>
    rw [cutFrom, cutFrom]
    split
    · simp
    · rw [ih (c :: seen), ih [c]]
      simp [Function.comp_def]

/-- A text is cut at its first character if the pattern starts there, and after it otherwise. -/
theorem cutAt?_cons (c : Char) : cutAt? pat (c :: cs) =
    match dropPattern? pat (c :: cs) with
    | some rest => some ([], rest)
    | none => (cutAt? pat cs).map fun cut => (c :: cut.1, cut.2) := by
  rw [cutAt?, cutFrom]
  cases dropPattern? pat (c :: cs) with
  | some rest => rfl
  | none => exact cutFrom_eq_map [c]

/-- **No cut** is made exactly where the pattern does not occur. -/
theorem cutAt?_eq_none_iff : cutAt? pat cs = none ↔ ¬ pat <:+: cs := by
  induction cs with
  | nil =>
    rw [cutAt?, cutFrom, Option.map_eq_none_iff, List.infix_nil]
    cases pat <;> simp [dropPattern?]
  | cons c cs ih =>
    rw [cutAt?_cons, List.infix_cons_iff, not_or, ← ih]
    cases hdrop : dropPattern? pat (c :: cs) with
    | some rest => simp [dropPattern?_eq_some_iff.1 hdrop]
    | none =>
      have hstarts : ¬ pat <+: c :: cs := by
        rintro ⟨rest, hrest⟩
        rw [dropPattern?_eq_some_iff.2 hrest.symm] at hdrop
        cases hdrop
      simp [hstarts]

/-- **A cut** leaves the text before and after an occurrence of the pattern, and no occurrence
begins before that one. -/
theorem cutAt?_eq_some_iff {front rest : List Char} : cutAt? pat cs = some (front, rest) ↔
    cs = front ++ pat ++ rest ∧ ∀ u v, cs = u ++ pat ++ v → front.length ≤ u.length := by
  induction cs generalizing front with
  | nil =>
    rw [cutAt?, cutFrom]
    cases pat with
    | nil =>
      constructor
      · rintro ⟨⟩
        exact ⟨rfl, fun u v _ => Nat.zero_le _⟩
      · rintro ⟨heq, -⟩
        simp_all [dropPattern?]
    | cons p pat => simp [dropPattern?]
  | cons c cs ih =>
    rw [cutAt?_cons]
    cases hdrop : dropPattern? pat (c :: cs) with
    | some rest' =>
      rw [dropPattern?_eq_some_iff] at hdrop
      constructor
      · rintro ⟨⟩
        exact ⟨hdrop, fun u v _ => Nat.zero_le _⟩
      · rintro ⟨heq, hfirst⟩
        have hnil : front = [] :=
          List.eq_nil_of_length_eq_zero (Nat.le_zero.1 (hfirst [] rest' hdrop))
        subst hnil
        rw [List.nil_append, hdrop, List.append_cancel_left_eq] at heq
        rw [heq]
    | none =>
      -- the pattern does not occur at the first character, so every occurrence lies in the rest
      have hlater : ∀ u v, c :: cs = u ++ pat ++ v → ∃ u', u = c :: u' ∧ cs = u' ++ pat ++ v := by
        intro u v heq
        cases u with
        | nil =>
          rw [List.nil_append, ← dropPattern?_eq_some_iff, hdrop] at heq
          cases heq
        | cons c' u' =>
          rw [List.cons_append, List.cons_append, List.cons.injEq] at heq
          exact ⟨u', by rw [heq.1], heq.2⟩
      constructor
      · intro hcut
        obtain ⟨⟨front', rest'⟩, hfront, hpair⟩ := Option.map_eq_some_iff.1 hcut
        cases hpair
        obtain ⟨heq, hfirst⟩ := ih.1 hfront
        refine ⟨congrArg (c :: ·) heq, fun u v hu => ?_⟩
        obtain ⟨u', rfl, hu'⟩ := hlater u v hu
        exact Nat.succ_le_succ (hfirst u' v hu')
      · rintro ⟨heq, hfirst⟩
        obtain ⟨front', rfl, heq'⟩ := hlater front rest heq
        have hcut := ih.2 ⟨heq', fun u v hu =>
          Nat.le_of_succ_le_succ (hfirst (c :: u) v (congrArg (c :: ·) hu))⟩
        rw [hcut]
        rfl

/-- The pattern does not occur before the first occurrence. -/
theorem not_infix_of_cutAt? (hpat : pat ≠ []) {front rest : List Char}
    (h : cutAt? pat cs = some (front, rest)) : ¬ pat <:+: front := by
  obtain ⟨heq, hfirst⟩ := cutAt?_eq_some_iff.1 h
  rintro ⟨u, v, rfl⟩
  have hle := hfirst u (v ++ pat ++ rest) (by simpa only [List.append_assoc] using heq)
  have hpos := List.length_pos_iff.2 hpat
  rw [List.length_append, List.length_append] at hle
  omega

/-! ## The pieces -/

/-- There is always a piece, if only an empty one. -/
theorem piecesWithin_ne_nil (bound : Nat) (cs : List Char) : piecesWithin pat bound cs ≠ [] := by
  fun_cases piecesWithin pat bound cs <;> simp

/-- **The pieces joined** by the pattern are the text. -/
theorem intercalate_piecesWithin (bound : Nat) (cs : List Char) :
    pat.intercalate (piecesWithin pat bound cs) = cs := by
  fun_induction piecesWithin pat bound cs with
  | case1 cs => exact List.intercalate_singleton
  | case2 bound cs front rest hcut ih =>
    rw [List.intercalate_cons_of_ne_nil (piecesWithin_ne_nil bound rest), ih,
      (cutAt?_eq_some_iff.1 hcut).1]
  | case3 bound cs hcut => exact List.intercalate_singleton

/-- With at most `bound` cuts, there is at most one piece more. -/
theorem length_piecesWithin_le (pat : List Char) (bound : Nat) (cs : List Char) :
    (piecesWithin pat bound cs).length ≤ bound + 1 := by
  fun_induction piecesWithin pat bound cs with
  | case1 cs => exact Nat.le_refl 1
  | case2 bound cs front rest hcut ih => exact Nat.succ_le_succ ih
  | case3 bound cs hcut => exact Nat.succ_le_succ (Nat.zero_le _)

/-- **A bound only keeps the rest together**: all pieces but the last are pieces of the text under
every larger bound as well. -/
theorem dropLast_piecesWithin {bound bound' : Nat} (h : bound ≤ bound') (cs : List Char) :
    (piecesWithin pat bound cs).dropLast <+: piecesWithin pat bound' cs := by
  fun_induction piecesWithin pat bound cs generalizing bound' with
  | case1 cs => exact List.nil_prefix
  | case2 bound cs front rest hcut ih =>
    obtain ⟨bound', rfl⟩ : ∃ n, bound' = n + 1 := ⟨bound' - 1, by omega⟩
    rw [List.dropLast_cons_of_ne_nil (piecesWithin_ne_nil bound rest), piecesWithin, hcut]
    exact (List.prefix_cons_inj front).2 (ih (Nat.le_of_succ_le_succ h))
  | case3 bound cs hcut => exact List.nil_prefix

/-- No piece but the last holds the pattern. -/
theorem not_infix_of_mem_dropLast (hpat : pat ≠ []) (bound : Nat) (cs : List Char) :
    ∀ piece ∈ (piecesWithin pat bound cs).dropLast, ¬ pat <:+: piece := by
  fun_induction piecesWithin pat bound cs with
  | case1 cs => simp
  | case2 bound cs front rest hcut ih =>
    rw [List.dropLast_cons_of_ne_nil (piecesWithin_ne_nil bound rest)]
    exact List.forall_mem_cons.2 ⟨not_infix_of_cutAt? hpat hcut, ih⟩
  | case3 bound cs hcut => simp

/-- With a bound that the occurrences do not reach, no piece holds the pattern: each cut leaves less
text. -/
theorem not_infix_of_mem_piecesWithin (hpat : pat ≠ []) {bound : Nat} {cs : List Char}
    (h : cs.length ≤ bound) : ∀ piece ∈ piecesWithin pat bound cs, ¬ pat <:+: piece := by
  fun_induction piecesWithin pat bound cs with
  | case1 cs =>
    have hnil : cs = [] := List.eq_nil_of_length_eq_zero (Nat.le_zero.1 h)
    simpa [hnil] using hpat
  | case2 bound cs front rest hcut ih =>
    have hpos := List.length_pos_iff.2 hpat
    have hlength := congrArg List.length (cutAt?_eq_some_iff.1 hcut).1
    rw [List.length_append, List.length_append] at hlength
    exact List.forall_mem_cons.2 ⟨not_infix_of_cutAt? hpat hcut, ih (by omega)⟩
  | case3 bound cs hcut => simpa using cutAt?_eq_none_iff.1 hcut

end Text

/-! ## Lists of values -/

namespace Collection

variable {α : Type}

/-- One more value is pushed. -/
theorem ofValues_concat (vs : List α) (v : α) : ofValues (vs ++ [v]) = (ofValues vs).push v := by
  rw [ofValues, List.foldl_append]
  rfl

/-- A collection of values has those values. -/
@[simp]
theorem values_ofValues (vs : List α) : (ofValues vs).values = vs := by
  induction vs using List.reverseRecOn with
  | nil => rfl
  | append_singleton vs v ih =>
    rw [ofValues_concat, values, entries_push, List.map_append]
    exact congrArg (· ++ [v]) ih

/-- **A list** has the indices from zero on. -/
theorem keys_ofValues (vs : List α) :
    (ofValues vs).keys = (List.range vs.length).map fun (i : Nat) => Key.index i := by
  induction vs using List.reverseRecOn with
  | nil => rfl
  | append_singleton vs v ih =>
    have hindices : (ofValues vs).indices = (List.range vs.length).map Int.ofNat := by
      rw [indices, ih, List.filterMap_map, ← List.filterMap_eq_map]
      rfl
    have hnext : (ofValues vs).nextIndex = vs.length := nextIndex_of_indices hindices
    rw [ofValues_concat, keys, entries_push, List.map_append, hnext, List.length_append,
      List.length_singleton, List.range_succ, List.map_append]
    exact congrArg (· ++ [Key.index vs.length]) ih

end Collection

/-! ## The functions of the libraries -/

namespace Library

variable {d : String}

/-- Texts are the texts of their values. -/
theorem map_text_str (texts : List String) : (texts.map Value.str).map Value.text = texts := by
  rw [List.map_map]
  exact List.map_id texts

/-- A positive limit is the number of pieces at most. -/
theorem splitPieces_of_pos (d s : String) {limit : Int} (h : 0 < limit) : splitPieces d s limit =
    (Text.piecesUpTo limit.toNat d.toList s.toList).map String.ofList := by
  rw [splitPieces, if_pos h]

/-- Without a limit, a text is cut at every occurrence. -/
theorem splitPieces_zero (d s : String) :
    splitPieces d s 0 = (Text.pieces d.toList s.toList).map String.ofList := by
  simp [splitPieces]

/-- A negative limit leaves out as many of the last pieces. -/
theorem splitPieces_of_neg (d s : String) {limit : Int} (h : limit < 0) : splitPieces d s limit =
    (splitPieces d s 0).take ((splitPieces d s 0).length - limit.natAbs) := by
  rw [splitPieces_zero, splitPieces, if_neg (by omega), ← List.map_take, List.length_map]

/-- The text is made of its pieces, if none has been dropped. -/
theorem intercalate_splitPieces (d s : String) {limit : Int} (h : 0 ≤ limit) :
    String.intercalate d (splitPieces d s limit) = s := by
  have htexts : ∀ texts : List (List Char),
      (texts.map String.ofList).map String.toList = texts := fun texts => by
    rw [List.map_map]
    simp [Function.comp_def]
  rw [← String.toList_inj, String.toList_intercalate]
  rcases Int.lt_or_eq_of_le h with hpos | rfl
  · rw [splitPieces_of_pos d s hpos, htexts]
    exact Text.intercalate_piecesWithin _ _
  · rw [splitPieces_zero, htexts]
    exact Text.intercalate_piecesWithin _ _

/-- **Joining undoes splitting.** A text is split at a delimiter that is not empty into a list,
under the indices from zero on, whatever the limit. Unless the limit is negative, joining the list
by the delimiter gives the text. Without a limit no piece holds the delimiter. With a positive limit
there are at most that many pieces; all but the last hold no delimiter and are the first pieces of
the text without a limit. With a negative limit the pieces are those without a limit but for that
many at the end, or none.

**Proof sketch.** Each cut is made around the first occurrence (`Text.cutAt?_eq_some_iff`), so that
the piece before it holds none. The length of the text is a bound that the cuts cannot reach, since
each of them leaves less text; and any smaller bound makes the same cuts, but fewer of them
(`Text.dropLast_piecesWithin`). -/
theorem join_undoes_split (hd : d ≠ "") (s : String) (limit : Int) :
    ∃ c : Collection Value, splitText d s limit = .ok (.collection c) ∧
    (∀ args, Arguments.text args 0 = d → Arguments.text args 1 = s →
      Arguments.integer args 2 = limit →
        answer? "string" "split" args = some (.ok (.collection c))) ∧
    c.keys = (List.range (splitPieces d s limit).length).map (fun (i : Nat) => Key.index i) ∧
    c.values = (splitPieces d s limit).map .str ∧
    (0 ≤ limit → answer? "array" "join" [.str d, .collection c] = some (.ok (.str s))) ∧
    (limit = 0 → ∀ piece ∈ splitPieces d s limit, ¬ d.toList <:+: piece.toList) ∧
    (0 < limit → (splitPieces d s limit).length ≤ limit ∧
      (∀ piece ∈ (splitPieces d s limit).dropLast, ¬ d.toList <:+: piece.toList) ∧
      (splitPieces d s limit).dropLast <+: splitPieces d s 0) ∧
    (limit < 0 → splitPieces d s limit =
      (splitPieces d s 0).take ((splitPieces d s 0).length - limit.natAbs)) := by
  have hpat : d.toList ≠ [] := by simpa using hd
  have hsplit : splitText d s limit = .ok (.list ((splitPieces d s limit).map .str)) := if_neg hd
  refine ⟨_, hsplit, ?_, ?_, Collection.values_ofValues _, fun hlimit => ?_, fun hlimit => ?_,
    fun hlimit => ?_, splitPieces_of_neg d s⟩
  · rintro args rfl rfl rfl
    rw [answer?_string_split, hsplit]
    rfl
  · rw [Collection.keys_ofValues, List.length_map]
  · rw [answer?_array_join rfl, join, Collection.values_ofValues, map_text_str]
    change some (Except.ok (Value.str (String.intercalate d (splitPieces d s limit)))) = _
    rw [intercalate_splitPieces d s hlimit]
  · subst hlimit
    rw [splitPieces_zero]
    intro piece hpiece
    obtain ⟨chars, hchars, rfl⟩ := List.mem_map.1 hpiece
    rw [String.toList_ofList]
    exact Text.not_infix_of_mem_piecesWithin hpat (Nat.le_refl _) chars hchars
  · rw [splitPieces_zero, splitPieces_of_pos d s hlimit, ← List.map_dropLast]
    refine ⟨?_, ?_, ?_⟩
    · have hlength := Text.length_piecesWithin_le d.toList
        (min (limit.toNat - 1) s.toList.length) s.toList
      rw [List.length_map, Text.piecesUpTo]
      omega
    · intro piece hpiece
      obtain ⟨chars, hchars, rfl⟩ := List.mem_map.1 hpiece
      rw [String.toList_ofList]
      exact Text.not_infix_of_mem_dropLast hpat _ _ chars hchars
    · exact (Text.dropLast_piecesWithin (Nat.min_le_right _ _) _).map _

/-- A delimiter that overlaps itself, at both ends of the text. -/
theorem join_undoes_split_overlapping :
    "aa" ≠ "" ∧ splitPieces "aa" "aaabaa" 0 = ["", "ab", ""] ∧
    splitPieces "aa" "aaabaa" 2 = ["", "abaa"] ∧ splitPieces "aa" "aaabaa" (-2) = [""] ∧
    ∃ c : Collection Value, splitText "aa" "aaabaa" 2 = .ok (.collection c) ∧
      c.keys = [.index 0, .index 1] ∧
      answer? "array" "join" [.str "aa", .collection c] = some (.ok (.str "aaabaa")) := by
  have hd : "aa" ≠ "" := by decide
  obtain ⟨c, hsplit, -, hkeys, -, hjoin, -⟩ := join_undoes_split hd "aaabaa" 2
  exact ⟨hd, by decide, by decide, by decide, c, hsplit, hkeys, hjoin (by decide)⟩

end Library

end LineScript
