import LineScript.Proofs.Formula.Nested

set_option relaxedAutoImplicit false
set_option autoImplicit false

/-!
# Formulas nest no deeper than they are long

The text of a literal is shorter than the formula it stands in, and so are the formulas inside it.
The bound on how deep literals may nest is therefore never used up in a formula that is shorter than
the bound: formulas inside a literal have the values that they have on their own.

## Main results

* `LineScript.length_le_of_mem_splitList`, `LineScript.Pattern.length_le_of_keyed?`,
  `LineScript.Pattern.length_le_of_command?` — what is cut out of a text is no longer than the text.
* `LineScript.Formula.length_lt_of_mem_tokens` — the text of a literal is shorter than its formula.
* `LineScript.Formula.evaluateWithin_eq_evaluate` — a bound above the length of a formula makes no
  difference.
-/

namespace LineScript

/-! ## Lengths -/

/-- Trimming makes no text longer. -/
theorem Text.length_trimChars_le (cs : List Char) : (trimChars cs).length ≤ cs.length := by
  have hend := (trimEnd_isPrefix (trimStart cs)).length_le
  have hstart := (List.dropWhile_suffix (l := cs) isBlank).length_le
  exact hend.trans hstart

/-- An item is no longer than its list. -/
theorem length_le_of_mem_splitList {list item : String} {items : List String}
    (h : splitList list = .ok items) (hitem : item ∈ items) : item.length ≤ list.length := by
  obtain ⟨-, rfl⟩ | ⟨-, ps, hpieces, rfl⟩ := cases_of_splitList h
  · cases hitem
  · obtain ⟨piece, hpiece, rfl⟩ := List.mem_map.1 hitem
    obtain ⟨-, -, -, htext⟩ := Nesting.exists_of_pieces hpieces
    rw [String.length_ofList, ← String.length_toList, ← htext]
    exact (Text.length_trimChars_le piece).trans (length_le_intercalate [','] hpiece)

namespace Pattern

/-- The rest after blanks is no longer than the text. -/
theorem length_le_of_restAfter? {least : Nat} {multiline : Bool} {cs : List Char} {rest : String}
    (h : restAfter? least multiline cs = some rest) : rest.length ≤ cs.length := by
  obtain ⟨blanks, -, rfl⟩ := exists_of_restAfter? h
  rw [List.length_append, String.length_toList]
  exact Nat.le_add_left _ _

/-- What follows a name is no longer than the text. -/
theorem length_le_of_name? {more : Char → Bool} {cs after : List Char} {name : String}
    (h : name? more cs = some (name, after)) : after.length ≤ cs.length := by
  obtain ⟨c, taken, -, -, -, rfl⟩ := eq_append_of_name? h
  rw [List.length_append]
  exact Nat.le_add_left _ _

/-- The formula of a named item is no longer than the item. -/
theorem length_le_of_keyed? {cs : List Char} {name rest : String}
    (h : keyed? cs = some (name, rest)) : rest.length ≤ cs.length := by
  obtain ⟨after, value, hname, hcolon, hvalue⟩ := exists_of_keyed? h
  have hafter := length_le_of_name? hname
  have hrest := length_le_of_restAfter? hvalue
  have htrim := (List.dropWhile_suffix (l := after) Text.isBlank).length_le
  rw [← Text.trimStart, hcolon, List.length_cons] at htrim
  omega

/-- What follows the word of a command is no longer than the line. -/
theorem length_le_of_command? {more : Char → Bool} {multiline : Bool} {cs : List Char}
    {name args : String} (h : command? more multiline cs = some (name, some args)) :
    args.length ≤ cs.length := by
  obtain ⟨-, ⟨⟩⟩ | ⟨after, rest, hname, hrest, ⟨⟩⟩ := cases_of_command? h
  exact (length_le_of_restAfter? hrest).trans (length_le_of_name? hname)

end Pattern

/-! ## Literals -/

/-- The text of a collection or call literal, which holds formulas. -/
def Token.inner? : Token → Option String
  | .collection src => some src
  | .call src => some src
  | _ => none

/-- The formula within a literal is its text, if it has one. -/
theorem Lexeme.inner?_literal {c : Char} {n : Nesting} {make : String → Token}
    (h : literal? c = some (n, make)) {text src : String} (hsrc : (make text).inner? = some src) :
    src = text := by
  cases opens_of_literal? h with
  | single => cases hsrc
  | double => cases hsrc
  | bracket =>
    cases hsrc
    rfl
  | brace =>
    cases hsrc
    rfl

/-- A number has no formula within it. -/
theorem Lexeme.inner?_readNumber (cs : List Char) : (readNumber cs).1.inner? = none := by
  unfold readNumber
  split <;> rfl

/-- A bare word has no formula within it. -/
theorem Lexeme.inner?_wordToken (word : List Char) : (wordToken word).inner? = none := by
  unfold wordToken
  split <;> rfl

/-- The text of a literal that is read is shorter than the text it is read from. -/
theorem Lexeme.length_lt_of_read {c : Char} {cs rest : List Char} {token : Token} {src : String}
    (h : read c cs = .ok (.operand token, rest)) (hsrc : token.inner? = some src) :
    src.length < cs.length := by
  cases reading_of_read h with
  | literal hliteral htake =>
    have hlength := Nesting.length_takeLiteral htake
    rw [inner?_literal hliteral hsrc, String.length_ofList]
    omega
  | number _ => cases (inner?_readNumber (c :: cs)).symm.trans hsrc
  | reference _ _ => cases hsrc
  | word _ =>
    rw [inner?_wordToken] at hsrc
    cases hsrc

/-- All literals of a text are shorter than it. -/
theorem Lexeme.Reads.length_lt {cs : List Char} {lexemes : List Lexeme} (h : Reads cs lexemes)
    {token : Token} (hmem : .operand token ∈ lexemes) {src : String}
    (hsrc : token.inner? = some src) : src.length < cs.length := by
  induction h with
  | nil => cases hmem
  | blank _ _ ih => exact (ih hmem).trans (Nat.lt_succ_self _)
  | @lexeme c cs rest lexeme lexemes _ hread _ ih =>
    rw [List.length_cons]
    rcases List.mem_cons.1 hmem with rfl | hmem
    · exact (length_lt_of_read hread hsrc).trans (Nat.lt_succ_self _)
    · have hrest := length_read hread
      have hlt := ih hmem
      omega

namespace Formula

/-- **The text of a literal** is shorter than the formula. -/
theorem length_lt_of_mem_tokens {formula src : String} {ts : List Token}
    (h : tokens formula = .ok ts) {token : Token} (hmem : token ∈ ts)
    (hsrc : token.inner? = some src) : src.length < formula.length := by
  have hoperand : token.isOperand = true := by
    cases token with
    | collection _ => rfl
    | call _ => rfl
    | _ => cases hsrc
  obtain ⟨lexemes, hreads, hlexemes⟩ := exists_reads_of_tokens h
  have hlt := hreads.length_lt ((hlexemes token).2 ⟨hmem, hoperand⟩) hsrc
  have htrim := Text.length_trimChars_le formula.toList
  rw [String.length_toList] at htrim
  omega

/-! ## Evaluation -/

variable {σ : Type} {host : Host σ} {inner inner' : String → Action σ Value}

/-- The items of a list, if formulas no longer than the list are evaluated alike. -/
theorem evaluateItems_congr {list : String}
    (h : ∀ src : String, src.length ≤ list.length → inner src = inner' src) :
    evaluateItems inner list = evaluateItems inner' list := by
  refine Action.ofExcept_bind_congr fun items hsplit => Action.mapM_congr fun item hitem => ?_
  exact h item (length_le_of_mem_splitList hsplit hitem)

/-- An item of a collection, if formulas no longer than the item are evaluated alike. -/
theorem addItem_congr {item : String}
    (h : ∀ src : String, src.length ≤ item.length → inner src = inner' src) (c : Collection Value) :
    addItem inner c item = addItem inner' c item := by
  unfold addItem
  cases hkeyed : Pattern.keyed? item.toList with
  | none =>
    dsimp only
    rw [h item le_rfl]
  | some keyed =>
    obtain ⟨name, src⟩ := keyed
    have hle := Pattern.length_le_of_keyed? hkeyed
    rw [String.length_toList] at hle
    dsimp only
    rw [h src hle]

/-- A collection literal, if formulas no longer than its list are evaluated alike. -/
theorem evaluateCollection_congr {list : String}
    (h : ∀ src : String, src.length ≤ list.length → inner src = inner' src) :
    evaluateCollection inner list = evaluateCollection inner' list := by
  refine Action.ofExcept_bind_congr fun items hsplit => Action.foldlM_congr (fun item hitem => ?_) _
  exact addItem_congr fun src hsrc => h src (hsrc.trans (length_le_of_mem_splitList hsplit hitem))

/-- A call, if formulas no longer than the call are evaluated alike. -/
theorem evaluateCall_congr {call : String}
    (h : ∀ src : String, src.length ≤ call.length → inner src = inner' src) :
    evaluateCall host inner call = evaluateCall host inner' call := by
  unfold evaluateCall
  cases hcommand : Pattern.command? Pattern.isQualifiedChar true (Text.trimChars call.toList) with
  | none => rfl
  | some command =>
    obtain ⟨name, _ | args⟩ := command
    · rfl
    · have hargs := Pattern.length_le_of_command? hcommand
      have htrim := Text.length_trimChars_le call.toList
      rw [String.length_toList] at htrim
      dsimp only
      rw [evaluateItems_congr fun src hsrc => h src (hsrc.trans (hargs.trans htrim))]

/-- A token is evaluated alike, if the formulas inside its literal are. -/
theorem stepToken_congr {token : Token}
    (h : ∀ text ∈ token.inner?, ∀ src : String, src.length ≤ text.length → inner src = inner' src)
    (stack : List Value) :
    stepToken host inner stack token = stepToken host inner' stack token := by
  cases token with
  | collection text => rw [stepToken, stepToken, evaluateCollection_congr (h text rfl)]
  | call text => rw [stepToken, stepToken, evaluateCall_congr (h text rfl)]
  | _ => rfl

/-- By induction on the smaller of two bounds: the formulas inside literals are shorter, so both are
still bounds for them. -/
theorem evaluateWithin_congr {depth depth' : Nat} {src : String} (h : src.length < depth)
    (h' : src.length < depth') :
    evaluateWithin host depth src = evaluateWithin host depth' src := by
  induction depth generalizing depth' src with
  | zero => omega
  | succ depth ih =>
    obtain ⟨depth', rfl⟩ : ∃ n, depth' = n + 1 := ⟨depth' - 1, by omega⟩
    rw [evaluateWithin, evaluateWithin]
    refine Action.ofExcept_bind_congr fun ts htokens => ?_
    have hfold : ts.foldlM (stepToken host (evaluateWithin host depth)) [] =
        ts.foldlM (stepToken host (evaluateWithin host depth')) [] := by
      refine Action.foldlM_congr (fun token hmem =>
        stepToken_congr fun text htext inner hinner => ?_) _
      have hlt := length_lt_of_mem_tokens htokens hmem htext
      exact ih (by omega) (by omega)
    rw [evaluateTokensWith, evaluateTokensWith, hfold]

/-- **Bounds make no difference** to a formula that is shorter. -/
theorem evaluateWithin_eq_evaluate {depth : Nat} {src : String} (h : src.length < depth) :
    evaluateWithin host depth src = evaluate host src :=
  evaluateWithin_congr h (Nat.lt_succ_self _)

end Formula

end LineScript
