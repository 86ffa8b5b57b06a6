import LineScript.Proofs.Text
import LineScript.Session.Run

set_option relaxedAutoImplicit false
set_option autoImplicit false

/-!
# The shape of lines

While the body of a function is gathered, lines are told apart by their first word alone. This
agrees with the statements that they are read as: the words that open a block are those of the
statements that do, and only the statement that ends a block has the word `end`.

## Main definitions

* `LineScript.Statement.shape` — what a statement means for the nesting of blocks.

## Main results

* `LineScript.LineShape.ofLine_of_parse` — the shape of a line is that of the statement on it.
* `LineScript.LineShape.ofLine_of_isIdle` — lines without a statement neither open nor end a block.
* `LineScript.Activation.isIdle_of_parse` — a line with a statement is not taken for one without.
-/

namespace LineScript

/-- What a statement means for the nesting of blocks. -/
def Statement.shape : Statement → LineShape
  | .branch _ | .loop _ | .count .. | .each .. | .function .. => .opener
  | .close => .closer
  | _ => .other

namespace Pattern

/-- No blank is part of a qualified name. -/
theorem isBlank_of_isQualifiedChar {c : Char} (h : isQualifiedChar c = true) :
    Text.isBlank c = false := by
  rw [isQualifiedChar, Bool.or_eq_true, beq_iff_eq] at h
  rcases h with h | rfl
  · exact Text.isBlank_of_isWordChar h
  · decide

/-- A rest after at least one blank starts with a blank. -/
theorem isBlank_of_restAfter? {multiline : Bool} {cs : List Char} {rest : String}
    (h : restAfter? 1 multiline cs = some rest) : ∀ c ∈ cs.head?, Text.isBlank c = true := by
  intro c hc
  cases cs with
  | nil => cases hc
  | cons d cs =>
    obtain rfl : d = c := by simpa using hc
    rw [← Bool.not_eq_false]
    intro hblank
    simp [restAfter?, hblank] at h

/-- The word of a command is the text before its first blank, and starts as a name. -/
theorem firstWord_of_command? {cs : List Char} {word : String} {params : Option String}
    (h : command? isQualifiedChar false cs = some (word, params)) :
    String.ofList (Text.firstWord cs) = word ∧ ∀ c ∈ cs.head?, Text.isNameStart c = true := by
  have hcut : ∀ {after : List Char}, name? isQualifiedChar cs = some (word, after) →
      (∀ d ∈ after.head?, Text.isBlank d = true) →
      String.ofList (Text.firstWord cs) = word ∧ ∀ c ∈ cs.head?, Text.isNameStart c = true := by
    intro after hname hafter
    obtain ⟨c, taken, hstart, htaken, rfl, rfl⟩ := eq_append_of_name? hname
    have hword : ∀ d ∈ c :: taken, (!Text.isBlank d) = true := by
      intro d hd
      rcases List.mem_cons.1 hd with rfl | hd
      · simp [Text.isBlank_of_isPathChar (Text.isPathChar_of_isNameStart hstart)]
      · simp [isBlank_of_isQualifiedChar (htaken d hd)]
    have htake := (Text.takeWhile_append_of_head? hword
      fun d hd => by rw [hafter d hd, Bool.not_true]).1
    exact ⟨by rw [Text.firstWord, htake], by simpa using hstart⟩
  obtain ⟨hname, -⟩ | ⟨after, rest, hname, hrest, -⟩ := cases_of_command? h
  · exact hcut hname (by simp)
  · exact hcut hname (isBlank_of_restAfter? hrest)

end Pattern

/-- The shape that a first word tells.

**Proof sketch.** By cases over what is read off the word (`reading_of_ofCommand`). Most rows fix
the word; a call has none of the keywords, so that its line neither opens nor closes a block. -/
theorem Statement.shape_of_ofCommand {word : String} {params : Option String} {st : Statement}
    (h : ofCommand word params = .ok st) :
    (if openerWords.contains word then LineShape.opener
      else if word = "end" then .closer else .other) = st.shape := by
  cases reading_of_ofCommand h with
  | declare lifetime list hword =>
    simp only [List.mem_cons, List.not_mem_nil, or_false] at hword
    rcases hword with rfl | rfl | rfl
    · rfl
    · rfl
    · rfl
  | function name list hword =>
    simp only [List.mem_cons, List.not_mem_nil, or_false] at hword
    rcases hword with rfl | rfl
    · rfl
    · rfl
  | call hword =>
    have hopener : openerWords.contains word = false := by
      rw [← Bool.not_eq_true, List.contains_iff_mem]
      intro hmem
      have hsubset : ∀ w ∈ openerWords, w ∈ keywords := by decide
      exact hword (hsubset word hmem)
    have hend : word ≠ "end" := by
      rintro rfl
      exact hword (by decide)
    rw [hopener, if_neg Bool.false_ne_true, if_neg hend]
    rfl
  | _ => rfl

/-- **A line has the shape of the statement on it.** -/
theorem LineShape.ofLine_of_parse {line : String} {st : Statement}
    (h : Statement.parse line = .ok st) : ofLine line = st.shape := by
  obtain ⟨word, params, hcommand, hword⟩ := Statement.exists_of_parse h
  rw [ofLine, (Pattern.firstWord_of_command? hcommand).1]
  exact Statement.shape_of_ofCommand hword

/-- A line without a statement neither opens nor ends a block. -/
theorem LineShape.ofLine_of_isIdle {line : String} (h : Activation.isIdle line = true) :
    ofLine line = .other := by
  rw [Activation.isIdle, Bool.or_eq_true, decide_eq_true_eq, beq_iff_eq] at h
  rcases h with rfl | h
  · rfl
  · have hne : ∀ w ∈ "end" :: openerWords, w.toList.head? ≠ some ';' := by decide
    have hword : (String.ofList (Text.firstWord line.toList)).toList.head? = some ';' := by
      rw [String.toList_ofList]
      cases htext : line.toList with
      | nil => simp [htext] at h
      | cons c cs =>
        obtain rfl : c = ';' := by simpa [htext] using h
        rfl
    have hnot : ∀ w ∈ "end" :: openerWords, String.ofList (Text.firstWord line.toList) ≠ w := by
      rintro w hw rfl
      exact hne _ hw hword
    rw [ofLine, if_neg fun hmem => ?_, if_neg (hnot "end" List.mem_cons_self)]
    exact hnot _ (List.mem_cons_of_mem _ (List.contains_iff_mem.1 hmem)) rfl

/-- A line with a statement is not taken for one without. -/
theorem Activation.isIdle_of_parse {line : String} {st : Statement}
    (h : Statement.parse line = .ok st) : isIdle line = false := by
  obtain ⟨word, params, hcommand, -⟩ := Statement.exists_of_parse h
  have hstart := (Pattern.firstWord_of_command? hcommand).2
  rw [isIdle, Bool.or_eq_false_iff, decide_eq_false_iff_not, beq_eq_false_iff_ne]
  constructor
  · rintro rfl
    cases hcommand
  · intro hhead
    cases hstart ';' hhead

end LineScript
