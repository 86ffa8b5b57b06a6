import LineScript.Proofs.Delimiters
import LineScript.Proofs.Formula.Literal
import LineScript.Proofs.Formula.WellFormed
import LineScript.Proofs.Statement.Shape

set_option relaxedAutoImplicit false
set_option autoImplicit false

/-!
# Formulas that have a value are properly nested

A formula is read with counters for brackets and braces, so a literal may be closed by the wrong
character, as in `[{]}`. Such a literal is one token, but it has no value: the formulas inside it
are read again, from counters at zero, and by induction they are properly nested.

## Main definitions

* `LineScript.Token.InnerNested` — the text of a collection or call literal is nested.

## Main results

* `LineScript.Lexeme.Reads.nested` — a formula is nested if the texts of its literals are.
* `LineScript.Formula.innerNested_of_stepToken` — the text of a literal that has a value is nested.
* `LineScript.Formula.properlyNested_of_evaluate` — only properly nested formulas have a value.
-/

namespace LineScript

/-! ## Names and blanks -/

namespace Pattern

/-- A rest comes after blanks. -/
theorem exists_of_restAfter? {least : Nat} {multiline : Bool} {cs : List Char} {rest : String}
    (h : restAfter? least multiline cs = some rest) :
    ∃ blanks, (∀ c ∈ blanks, Text.isBlank c = true) ∧ cs = blanks ++ rest.toList := by
  obtain ⟨blanks, last, hblanks, -, -, rfl, rfl⟩ | ⟨blanks, d, ds, hblanks, -, -, rfl, rfl⟩ :=
    cases_of_restAfter? h
  · exact ⟨blanks, hblanks, by rw [String.toList_ofList]⟩
  · exact ⟨blanks, hblanks, by rw [String.toList_ofList]⟩

/-- A name in front of a nested text. -/
theorem nested_of_name? {more : Char → Bool} (hmore : Nesting.isOrdinaryClass more = true)
    {cs after : List Char} {name : String} (h : name? more cs = some (name, after))
    (hafter : Nested after) : Nested cs := by
  obtain ⟨c, taken, hstart, htaken, -, rfl⟩ := eq_append_of_name? h
  have hname : Nested (c :: taken) :=
    .ordinary (Nesting.isOrdinary_of_isNameChar (Text.isNameChar_of_isNameStart hstart))
      (nested_of_isOrdinary fun d hd => Nesting.isOrdinary_of_class hmore (htaken d hd))
  exact hname.append hafter

/-- Blanks in front of a nested text. -/
theorem nested_of_restAfter? {least : Nat} {multiline : Bool} {cs : List Char} {rest : String}
    (h : restAfter? least multiline cs = some rest) (hrest : Nested rest.toList) : Nested cs := by
  obtain ⟨blanks, hblanks, rfl⟩ := exists_of_restAfter? h
  exact (nested_of_isBlank hblanks).append hrest

/-- An item with a name is nested if its value is. -/
theorem nested_of_keyed? {cs : List Char} {name rest : String} (h : keyed? cs = some (name, rest))
    (hrest : Nested rest.toList) : Nested cs := by
  obtain ⟨after, value, hname, hcolon, hvalue⟩ := exists_of_keyed? h
  refine nested_of_name? (by decide) hname (nested_of_trimStart ?_)
  rw [hcolon]
  exact .ordinary rfl (nested_of_restAfter? hvalue hrest)

/-- A call is nested if its arguments are. -/
theorem nested_of_command? {cs : List Char} {name : String} {args : Option String}
    (h : command? isQualifiedChar true cs = some (name, args))
    (hargs : ∀ list, args = some list → Nested list.toList) : Nested cs := by
  obtain ⟨hname, -⟩ | ⟨after, rest, hname, hrest, rfl⟩ := cases_of_command? h
  · exact nested_of_name? (by decide) hname .nil
  · exact nested_of_name? (by decide) hname (nested_of_restAfter? hrest (hargs rest rfl))

end Pattern

/-! ## Lexemes -/

/-- The text of a collection or call literal is nested. -/
def Token.InnerNested : Token → Prop
  | .collection s => Nested s.toList
  | .call s => Nested s.toList
  | _ => True

namespace Lexeme

variable {c : Char} {cs rest : List Char} {lexeme : Lexeme}

/-- The text of a literal is nested if what is inside it is. -/
theorem exists_nested_of_literal {n : Nesting} {make : String → Token} {inner : List Char}
    (hliteral : literal? c = some (n, make)) (htake : n.takeLiteral cs = .ok (inner, rest))
    (hinner : (make (String.ofList inner)).InnerNested) :
    ∃ taken, c :: cs = taken ++ rest ∧ Nested taken := by
  obtain ⟨last, rfl, hencloses⟩ := Nesting.exists_encloses_of_takeLiteral htake
  refine ⟨c :: (inner ++ [last]), by simp, ?_⟩
  cases opens_of_literal? hliteral with
  | single =>
    obtain ⟨hbody, rfl⟩ := hencloses.body
    exact .string hbody .nil
  | double =>
    obtain ⟨hbody, rfl⟩ := hencloses.body
    exact .string hbody .nil
  | bracket =>
    simp only [Token.InnerNested, String.toList_ofList] at hinner
    exact hinner.bracketed hencloses
  | brace =>
    simp only [Token.InnerNested, String.toList_ofList] at hinner
    exact hinner.braced hencloses

/-- An operator goes on with equals signs only. -/
theorem exists_of_readOperator (c : Char) (cs : List Char) :
    ∃ taken, cs = taken ++ (readOperator c cs).2 ∧ ∀ d ∈ taken, d = '=' := by
  unfold readOperator
  split
  all_goals first
    | exact ⟨[], rfl, by simp⟩
    | exact ⟨['='], rfl, by simp⟩
    | exact ⟨['=', '='], rfl, by simp⟩

/-- What is read as a number is nested: digits and a dot are ordinary. -/
theorem exists_nested_of_readNumber (cs : List Char) :
    ∃ taken, cs = taken ++ (readNumber cs).2 ∧ Nested taken := by
  have hwhole := nested_takeWhile (p := Char.isDigit) (by decide) cs
  have hsplit := List.takeWhile_append_dropWhile (p := Char.isDigit) (l := cs)
  obtain ⟨rest, hdrop, hread⟩ | ⟨-, hread⟩ := cases_of_readNumber cs
  · rw [hdrop] at hsplit
    rw [hread]
    refine ⟨cs.takeWhile Char.isDigit ++ '.' :: rest.takeWhile Char.isDigit, ?_, ?_⟩
    · rw [List.append_assoc, List.cons_append, List.takeWhile_append_dropWhile, hsplit]
    · exact hwhole.append (.ordinary rfl (nested_takeWhile (by decide) rest))
  · rw [hread]
    exact ⟨_, hsplit.symm, hwhole⟩

/-- **A lexeme is nested** if the text of its literal is. -/
theorem exists_nested_of_read (h : read c cs = .ok (lexeme, rest))
    (hinner : ∀ token, lexeme = .operand token → token.InnerNested) :
    ∃ taken, c :: cs = taken ++ rest ∧ Nested taken := by
  cases reading_of_read h with
  | literal hliteral htake => exact exists_nested_of_literal hliteral htake (hinner _ rfl)
  | operator hoperator =>
    obtain ⟨taken, htaken, heq⟩ := exists_of_readOperator c cs
    refine ⟨c :: taken, congrArg (c :: ·) htaken, ?_⟩
    refine .ordinary (Nesting.isOrdinary_of_class (by decide) hoperator) (nested_of_isOrdinary ?_)
    intro d hd
    rw [heq d hd]
    rfl
  | opening hopening => exact ⟨[c], rfl, .ordinary (by rw [hopening]; rfl) .nil⟩
  | closing hclosing => exact ⟨[c], rfl, .ordinary (by rw [hclosing]; rfl) .nil⟩
  | number _ => exact exists_nested_of_readNumber (c :: cs)
  | reference hdollar _ =>
    refine ⟨c :: cs.takeWhile Text.isPathChar, ?_, ?_⟩
    · rw [List.cons_append, List.takeWhile_append_dropWhile]
    · exact .ordinary (by rw [hdollar]; rfl) (nested_takeWhile (by decide) cs)
  | word hstart =>
    refine ⟨c :: cs.takeWhile Text.isNameChar, ?_, ?_⟩
    · rw [List.cons_append, List.takeWhile_append_dropWhile]
    · exact .ordinary (Nesting.isOrdinary_of_isNameChar (Text.isNameChar_of_isNameStart hstart))
        (nested_takeWhile (by decide) cs)

/-- **A formula is nested** if the texts of its literals are, by induction on its lexemes. -/
theorem Reads.nested {lexemes : List Lexeme} (h : Reads cs lexemes)
    (hinner : ∀ token, .operand token ∈ lexemes → token.InnerNested) : Nested cs := by
  induction h with
  | nil => exact .nil
  | blank hblank _ ih =>
    exact .ordinary (Nesting.isOrdinary_of_class (by decide) hblank) (ih hinner)
  | lexeme _ hread _ ih =>
    obtain ⟨taken, htext, htaken⟩ :=
      exists_nested_of_read hread fun token heq => hinner token (heq ▸ List.mem_cons_self)
    rw [htext]
    exact htaken.append (ih fun token hmem => hinner token (List.mem_cons_of_mem _ hmem))

end Lexeme

/-! ## Evaluation -/

namespace Formula

open LineScript.Action (Gives)

variable {σ : Type}

/-- The operands of a formula are those of its tokens that take no operands themselves. -/
theorem exists_reads_of_tokens {src : String} {ts : List Token} (h : tokens src = .ok ts) :
    ∃ lexemes, Lexeme.Reads (Text.trimChars src.toList) lexemes ∧
      ∀ token, .operand token ∈ lexemes ↔ token ∈ ts ∧ token.isOperand = true := by
  obtain ⟨st, hscan, hfinish⟩ := exists_of_tokens h
  obtain ⟨lexemes, hreads, hfold⟩ := Shunt.exists_reads_of_scan hscan
  have hst := Shunt.consistent_start.foldlM_feed hreads.arity_operand hfold
  have hoperands := (hst.finish hfinish).2
  rw [List.nil_append] at hoperands
  refine ⟨lexemes, hreads, fun token => ?_⟩
  rw [← List.mem_filter, hoperands, List.mem_filterMap]
  constructor
  · intro hmem
    exact ⟨_, hmem, rfl⟩
  · rintro ⟨lexeme, hmem, hoperand⟩
    cases lexeme with
    | operand token' =>
      cases hoperand
      exact hmem
    | _ => cases hoperand

section Inner

variable {host : Host σ} {inner : String → Action σ Value}
  (hinner : ∀ src, Gives (fun _ => Nested src.toList) (inner src))
include hinner

/-- A list is nested if all its items have values. -/
theorem evaluateItems_nested (src : String) :
    Gives (fun _ => Nested src.toList) (evaluateItems inner src) := by
  refine .bind (.ofExcept fun _ hsplit => hsplit) fun items hsplit s _ t hrun => ?_
  have hitems : ∀ item ∈ items, Nested item.toList := Gives.mapM_each hinner items s _ t hrun
  exact nested_of_splitList hsplit hitems

/-- An item that has a value is nested, the key and the colon in front of it, too. -/
theorem addItem_nested (c : Collection Value) (item : String) :
    Gives (fun _ => Nested item.toList) (addItem inner c item) := by
  unfold addItem
  cases hkeyed : Pattern.keyed? item.toList with
  | none => exact .of_first (hinner item)
  | some keyed =>
    obtain ⟨name, src⟩ := keyed
    exact .bind (hinner src) fun v hsrc => .pure (Pattern.nested_of_keyed? hkeyed hsrc)

/-- The list of a collection literal that has a value is nested. -/
theorem evaluateCollection_nested (src : String) :
    Gives (fun _ => Nested src.toList) (evaluateCollection inner src) := by
  refine .bind (.ofExcept fun _ hsplit => hsplit) fun items hsplit s _ t hrun => ?_
  have hitems : ∀ item ∈ items, Nested item.toList :=
    Gives.foldlM_each (addItem_nested hinner) items _ s _ t hrun
  exact nested_of_splitList hsplit hitems

/-- The text of a call that has a value is nested. -/
theorem evaluateCall_nested (src : String) :
    Gives (fun _ => Nested src.toList) (evaluateCall host inner src) := by
  unfold evaluateCall
  cases hcommand : Pattern.command? Pattern.isQualifiedChar true (Text.trimChars src.toList) with
  | none => exact .throw _
  | some command =>
    obtain ⟨name, _ | args⟩ := command
    · intro _ _ _ _
      exact nested_of_trimChars (Pattern.nested_of_command? hcommand nofun)
    · refine .bind (evaluateItems_nested hinner args) fun vs hargs _ _ _ _ => ?_
      refine nested_of_trimChars (Pattern.nested_of_command? hcommand ?_)
      rintro list ⟨⟩
      exact hargs

/-- **A literal that has a value** has a nested text, if formulas inside it do. -/
theorem innerNested_of_stepToken (stack : List Value) (token : Token) :
    Gives (fun _ => token.InnerNested) (stepToken host inner stack token) := by
  cases token with
  | collection src => exact .of_first (evaluateCollection_nested hinner src)
  | call src => exact .of_first (evaluateCall_nested hinner src)
  | _ => exact fun _ _ _ _ => trivial

end Inner

/-- By induction on how deep literals nest: the formulas inside those of a formula nest less deep.
-/
theorem evaluateWithin_nested (host : Host σ) (depth : Nat) (src : String) :
    Gives (fun _ => Nested src.toList) (evaluateWithin host depth src) := by
  induction depth generalizing src with
  | zero => exact fun _ _ _ h => nomatch h
  | succ depth ih =>
    refine .bind (.ofExcept fun _ htokens => htokens) fun ts htokens =>
      .of_first fun s _ t hrun => ?_
    have hinner : ∀ token ∈ ts, token.InnerNested :=
      Gives.foldlM_each (innerNested_of_stepToken ih) ts [] s _ t hrun
    obtain ⟨lexemes, hreads, hmem⟩ := exists_reads_of_tokens htokens
    exact nested_of_trimChars (hreads.nested fun token h => hinner token ((hmem token).1 h).1)

/-- **Only properly nested formulas have a value**, over every host and from every state of it. The
reading of formulas alone does not see to that: it accepts a bracket and a brace that cross each
other as one collection literal.

**Proof sketch.** The text of each literal among the tokens has been evaluated, so the formulas
inside it have values (`innerNested_of_stepToken`), and by induction these are nested
(`evaluateWithin_nested`). Over a nested text, the counters of the scan come back to where they
were, and then only the right character closes a literal (`Nested.bracketed`, `Nested.braced`). -/
theorem properlyNested_of_evaluate :
    (∀ (σ : Type) (host : Host σ) (src : String) (s t : σ) (v : Value),
      (evaluate host src).runFrom s = .ok (.ok v, t) → ProperlyNested src) ∧
    tokens "[\x7b]\x7d" = .ok [.collection "\x7b]"] ∧ ¬ProperlyNested "[\x7b]\x7d" := by
  refine ⟨fun σ host src s t v h => ?_, ?_, by decide⟩
  · exact (evaluateWithin_nested host (src.length + 1) src s v t h).properlyNested
  · have hcrossed : Nesting.Encloses { brackets := 1 } ['\x7b', ']'] '\x7d' :=
      .inside rfl rfl (.inside rfl rfl (.close rfl rfl))
    exact tokens_of_operand (.literal '[' _ .collection _ _ rfl hcrossed)

/-- A host with null for every variable and every call. -/
def nullHost : Host Unit :=
  ⟨fun _ => pure .null, fun _ _ => pure .null⟩

/-- A call in a collection, with delimiters inside its strings. -/
def nestedFormula : String :=
  "[a: \x7bf ['\x7d', \"\\\"]\"], true\x7d, -false]"

/-- It has a value, so its delimiters are properly nested. -/
theorem properlyNested_of_evaluate_nestedFormula :
    ∃ v, (evaluate nullHost nestedFormula).runFrom () = .ok (.ok v, ()) ∧
      ProperlyNested nestedFormula := by
  have hok : ((evaluate nullHost nestedFormula).runFrom ()).toOption.map (fun r => r.1.isOk) =
      some true := by
    decide +kernel
  rcases hrun : (evaluate nullHost nestedFormula).runFrom () with reason | ⟨e | v, t⟩
  · rw [hrun] at hok
    cases hok
  · rw [hrun] at hok
    cases hok
  · exact ⟨v, rfl, properlyNested_of_evaluate.1 Unit _ nestedFormula () () v hrun⟩

end Formula

end LineScript
