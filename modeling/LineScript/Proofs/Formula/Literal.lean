import LineScript.Proofs.Collection
import LineScript.Proofs.Formula.Precedence
import LineScript.Proofs.Nesting
import LineScript.Formula.Evaluation

set_option relaxedAutoImplicit false
set_option autoImplicit false

/-!
# Literals of values

A value without numbers can be written as a formula: `null`, `true`, `false`, strings between single
quotes, and collections between brackets, nested to any depth. Whatever characters its strings hold,
the formula has just that value, and no variable is read and no function called for it.

## Main definitions

* `LineScript.Quoted.escape` — a string between single quotes, with its quotes and backslashes
  escaped.
* `LineScript.Value.literal` — the formula that writes a value.
* `LineScript.Value.Writable` — the values that can be written.

## Main results

* `LineScript.Quoted.unescape_escape` — escaping is undone.
* `LineScript.Value.Writable.isLiteral` — a written value is one operand, and one item of a list.
* `LineScript.Formula.evaluate_literal` — a written value is evaluated to itself.
-/

namespace LineScript

/-! ## Strings -/

namespace Quoted

/-- A backslash in front of every single quote and every backslash. -/
def escape : List Char → List Char
  | [] => []
  | c :: cs => if c = '\'' ∨ c = '\\' then '\\' :: c :: escape cs else c :: escape cs

/-- A character other than a backslash stands for itself. -/
theorem unescape_cons_of_ne {c : Char} (hc : c ≠ '\\') (cs : List Char) :
    unescape (c :: cs) = c :: unescape cs := by
  rw [unescape]
  · intro _ h
    exact absurd h hc
  · intro _ h
    exact absurd h hc

/-- **Escaping is undone.** -/
theorem unescape_escape (cs : List Char) : unescape (escape cs) = cs := by
  induction cs with
  | nil => rfl
  | cons c cs ih =>
    rw [escape]
    by_cases hc : c = '\'' ∨ c = '\\'
    · rw [if_pos hc]
      rcases hc with rfl | rfl
      · rw [unescape, ih]
      · rw [unescape, ih]
    · rw [if_neg hc]
      rw [not_or] at hc
      rw [unescape_cons_of_ne hc.2, ih]

end Quoted

/-- The scan stays inside a string over escaped text. -/
theorem Nesting.within_escape (cs : List Char) :
    Within { quote := some .single } (Quoted.escape cs) { quote := some .single } := by
  induction cs with
  | nil => exact .nil
  | cons c cs ih =>
    rw [Quoted.escape]
    by_cases hc : c = '\'' ∨ c = '\\'
    · rw [if_pos hc]
      exact .cons rfl rfl (.cons rfl rfl ih)
    · rw [if_neg hc]
      rw [not_or] at hc
      refine .cons ?_ rfl ih
      simp [feed, feedQuoted, Quote.char, hc.1, hc.2]

/-- Escaped text between single quotes is one literal. -/
theorem Nesting.encloses_escape (cs : List Char) :
    Encloses { quote := some .single } (Quoted.escape cs) '\'' := by
  have hlast : Encloses { quote := some .single } [] '\'' := .close rfl rfl
  have hencloses := (within_escape cs).encloses hlast
  rwa [List.append_nil] at hencloses

/-! ## Values -/

/-- The name of an entry in front of its value. -/
def Key.literal : Key → List Char
  | .index _ => []
  | .name s => s.toList ++ [':', ' ']

mutual

/-- The formula that writes a value. -/
def Value.literal : Value → List Char
  | .null => "null".toList
  | .bool true => "true".toList
  | .bool false => "false".toList
  | .number x => (Value.numberText x).toList
  | .str s => '\'' :: (Quoted.escape s.toList ++ ['\''])
  | .collection ⟨entries⟩ => '[' :: ([',', ' '].intercalate (Value.itemLiterals entries) ++ [']'])

/-- The items of a collection, as they are written. -/
def Value.itemLiterals : List (Key × Value) → List (List Char)
  | [] => []
  | (key, v) :: entries => (key.literal ++ v.literal) :: Value.itemLiterals entries

end

/-- An ASCII identifier. -/
def IsIdentifier (s : String) : Prop :=
  ∃ first rest, s.toList = first :: rest ∧ Text.isNameStart first = true ∧
    ∀ c ∈ rest, Text.isNameChar c = true

namespace Value

/-- A string is written escaped between single quotes. -/
theorem literal_str (s : String) :
    (Value.str s).literal = '\'' :: (Quoted.escape s.toList ++ ['\'']) := rfl

/-- A collection is written as its items between square brackets. -/
theorem literal_collection (c : Collection Value) :
    (Value.collection c).literal =
      '[' :: ([',', ' '].intercalate (itemLiterals c.entries) ++ [']']) := rfl

/-- An item is written as its key and its value. -/
theorem itemLiterals_eq_map (entries : List (Key × Value)) :
    itemLiterals entries = entries.map fun e => e.1.literal ++ e.2.literal := by
  induction entries with
  | nil => rfl
  | cons e entries ih => rw [itemLiterals, ih, List.map_cons]

/-- The values that can be written: without numbers, and with collections whose indices are `0, 1,
2, …` in order and whose names are distinct identifiers. -/
inductive Writable : Value → Prop
  | null : Writable .null
  | bool (b : Bool) : Writable (.bool b)
  | str (s : String) : Writable (.str s)
  | collection {c : Collection Value} :
      c.Numbered → (∀ s, .name s ∈ c.keys → IsIdentifier s) →
        (∀ e ∈ c.entries, Writable e.2) → Writable (.collection c)

/-- How a written value reads: it is one operand, it can be an item of a list, and it is not taken
for a named item. -/
structure IsLiteral (v : Value) : Prop where
  operand : ∃ o : Operand, o.text = v.literal
  crosses : Nesting.Crosses .start v.literal .start
  unkeyed : Pattern.keyed? v.literal = none

/-- A word is a literal if it is none of a named item. -/
theorem isLiteral_of_word {v : Value} {first : Char} {rest : List Char}
    (htext : v.literal = first :: rest) (hstart : Text.isNameStart first = true)
    (hname : ∀ c ∈ rest, Text.isNameChar c = true) (hkeyed : Pattern.keyed? v.literal = none) :
    v.IsLiteral where
  operand := ⟨.word first rest hstart hname, htext.symm⟩
  crosses := by
    refine Nesting.crosses_of_isOrdinary rfl ?_
    rw [htext]
    intro c hc
    rcases List.mem_cons.1 hc with rfl | hc
    · exact Nesting.isOrdinary_of_isNameChar (Text.isNameChar_of_isNameStart hstart)
    · exact Nesting.isOrdinary_of_isNameChar (hname c hc)
  unkeyed := hkeyed

/-- A string is written as a literal: it starts with a quote, which starts no name. -/
theorem isLiteral_str (s : String) : (Value.str s).IsLiteral where
  operand := by
    refine ⟨.literal '\'' _ .singleQuoted _ '\'' rfl (Nesting.encloses_escape s.toList), ?_⟩
    rw [literal_str]
    rfl
  crosses := by
    have hinside := (Nesting.within_escape s.toList).crosses rfl
    rw [literal_str]
    exact .cons (by simp) rfl (hinside.append (.cons (by simp) rfl .nil))
  unkeyed := rfl

/-! ## Items of collections -/

/-- A written value starts and ends with no blank. -/
theorem IsLiteral.exists_ends {v : Value} (hv : v.IsLiteral) :
    (∃ c cs, v.literal = c :: cs ∧ Text.isBlank c = false) ∧
      ∃ cs c, v.literal = cs ++ [c] ∧ Text.isBlank c = false := by
  obtain ⟨o, ho⟩ := hv.operand
  rw [← ho]
  refine ⟨?_, o.exists_text_eq_append⟩
  obtain ⟨c, cs, hstart, hc, -⟩ := @Operand.read_text o [] (by simp)
  exact ⟨c, cs, hstart, hc⟩

/-- A name in front of a value is read as such.

**Proof sketch.** The pattern takes the name up to the colon, the colon, the blank after it and the
value, which starts with no blank. Each of these is computed for itself. -/
theorem keyed?_of_name {s : String} (hs : IsIdentifier s) {v : Value} (hv : v.IsLiteral) :
    Pattern.keyed? ((Key.name s).literal ++ v.literal) = some (s, String.ofList v.literal) := by
  obtain ⟨first, rest, htext, hstart, hrest⟩ := hs
  obtain ⟨⟨c, cs, hliteral, hc⟩, -⟩ := hv.exists_ends
  have hword : ∀ d ∈ rest, Text.isWordChar d = true := by
    intro d hd
    exact Text.isWordChar_of_isNameChar (hrest d hd)
  have hcolon : ∀ d ∈ (':' :: ' ' :: v.literal).head?, Text.isWordChar d = false := by
    rintro d ⟨⟩
    decide
  obtain ⟨htake, hdrop⟩ := Text.takeWhile_append_of_head? hword hcolon
  have hitem : (Key.name s).literal ++ v.literal = first :: (rest ++ ':' :: ' ' :: v.literal) := by
    simp [Key.literal, htext]
  have hname : Pattern.name? Text.isWordChar ((Key.name s).literal ++ v.literal) =
      some (s, ':' :: ' ' :: v.literal) := by
    rw [hitem, Pattern.name?, if_pos hstart, htake, hdrop, ← htext, String.ofList_toList]
  have hafter : Pattern.restAfter? 0 true (' ' :: v.literal) = some (String.ofList v.literal) := by
    have htakeBlank : (' ' :: v.literal).takeWhile Text.isBlank = [' '] := by
      rw [hliteral]
      simp [hc, show Text.isBlank ' ' = true by decide]
    have hdropBlank : (' ' :: v.literal).dropWhile Text.isBlank = v.literal := by
      rw [hliteral]
      simp [hc, show Text.isBlank ' ' = true by decide]
    rw [Pattern.restAfter?, htakeBlank, hdropBlank, hliteral]
    rfl
  have hcolonTrim : Text.trimStart (':' :: ' ' :: v.literal) = ':' :: ' ' :: v.literal :=
    Text.trimStart_cons_of_not_blank (by decide)
  rw [Pattern.keyed?, hname]
  simp only [hcolonTrim, hafter, Option.map_some]

/-- What an item of a collection is made of. -/
structure IsItem (item : List Char) : Prop where
  crosses : Nesting.Crosses .start item .start
  trimmed : Text.trimChars item = item
  ne_nil : item ≠ []

/-- A literal is an item, with or without a key in front of it.

**Proof sketch.** A value is an item since it crosses the scan and starts and ends with no blank.
The characters of a key before it are ordinary, so that they do not change the nesting, and its
first one is no blank. -/
theorem isItem_of_isLiteral {v : Value} (hv : v.IsLiteral) {key : Key}
    (hkey : ∀ s, key = .name s → IsIdentifier s) : IsItem (key.literal ++ v.literal) := by
  obtain ⟨hstart, hend⟩ := hv.exists_ends
  cases key with
  | index n =>
    refine ⟨hv.crosses, Text.trimChars_of_ends hstart hend, ?_⟩
    obtain ⟨c, cs, hliteral, -⟩ := hstart
    simp [Key.literal, hliteral]
  | name s =>
    obtain ⟨first, rest, htext, hfirst, hrest⟩ := hkey s rfl
    have hordinary : ∀ c ∈ (Key.name s).literal, Nesting.isOrdinary c = true := by
      intro c hc
      rw [Key.literal, htext] at hc
      simp only [List.cons_append, List.mem_cons, List.mem_append, List.not_mem_nil, or_false] at hc
      rcases hc with rfl | hc | rfl | rfl
      · exact Nesting.isOrdinary_of_isNameChar (Text.isNameChar_of_isNameStart hfirst)
      · exact Nesting.isOrdinary_of_isNameChar (hrest c hc)
      · decide
      · decide
    have hitem : (Key.name s).literal ++ v.literal =
        first :: (rest ++ [':', ' '] ++ v.literal) := by
      rw [Key.literal, htext, List.cons_append, List.cons_append]
    refine ⟨(Nesting.crosses_of_isOrdinary rfl hordinary).append hv.crosses, ?_, ?_⟩
    · refine Text.trimChars_of_ends ⟨first, _, hitem, ?_⟩ ?_
      · exact Text.isBlank_of_isPathChar (Text.isPathChar_of_isNameStart hfirst)
      · obtain ⟨cs, c, hliteral, hc⟩ := hend
        exact ⟨(Key.name s).literal ++ cs, c, by rw [hliteral, List.append_assoc], hc⟩
    · rw [hitem]
      exact List.cons_ne_nil _ _

/-- The items of a collection of literals are items of its list. -/
theorem isItem_of_mem_itemLiterals {c : Collection Value}
    (hkeys : ∀ s, .name s ∈ c.keys → IsIdentifier s)
    (hvalues : ∀ e ∈ c.entries, e.2.IsLiteral) {item : List Char}
    (h : item ∈ itemLiterals c.entries) : IsItem item := by
  rw [itemLiterals_eq_map] at h
  obtain ⟨e, he, rfl⟩ := List.mem_map.1 h
  refine isItem_of_isLiteral (hvalues e he) ?_
  intro s hs
  exact hkeys s (hs ▸ List.mem_map_of_mem he)

/-- A collection of literals is written as a literal. -/
theorem isLiteral_collection {c : Collection Value} (hkeys : ∀ s, .name s ∈ c.keys → IsIdentifier s)
    (hvalues : ∀ e ∈ c.entries, e.2.IsLiteral) : (Value.collection c).IsLiteral := by
  have hitems : ∀ item ∈ itemLiterals c.entries, Nesting.Crosses .start item .start := fun item h =>
    (isItem_of_mem_itemLiterals hkeys hvalues h).crosses
  refine ⟨?_, ?_, ?_⟩
  · refine ⟨.literal '[' _ .collection _ ']' rfl (Nesting.encloses_intercalate hitems), ?_⟩
    rw [literal_collection]
    rfl
  · have hinside := (Nesting.within_intercalate hitems).crosses rfl
    rw [literal_collection]
    exact .cons (by simp) rfl (hinside.append (.cons (by simp) rfl .nil))
  · rw [literal_collection]
    rfl

/-- **A written value is one operand, and one item of a list.** By induction on the value. -/
theorem Writable.isLiteral {v : Value} (h : v.Writable) : v.IsLiteral := by
  induction h with
  | null => exact isLiteral_of_word rfl rfl (List.all_eq_true.1 rfl) rfl
  | bool b =>
    cases b with
    | true => exact isLiteral_of_word rfl rfl (List.all_eq_true.1 rfl) rfl
    | false => exact isLiteral_of_word rfl rfl (List.all_eq_true.1 rfl) rfl
  | str s => exact isLiteral_str s
  | collection _ hkeys _ ih => exact isLiteral_collection hkeys ih

/-- The values inside a collection are written shorter. -/
theorem length_literal_lt {c : Collection Value} {e : Key × Value} (h : e ∈ c.entries) :
    e.2.literal.length < (Value.collection c).literal.length := by
  have hmem : e.1.literal ++ e.2.literal ∈ itemLiterals c.entries := by
    rw [itemLiterals_eq_map]
    exact List.mem_map_of_mem h
  have hle := length_le_intercalate [',', ' '] hmem
  rw [literal_collection, List.length_cons, List.length_append]
  rw [List.length_append] at hle
  omega

end Value

/-! ## Evaluation -/

namespace Formula

variable {σ : Type} {host : Host σ} {inner : String → Action σ Value} {s : σ}

/-- A formula that is one operand. -/
theorem tokens_of_operand (o : Operand) : tokens (String.ofList o.text) = .ok [o.token] := by
  refine tokens_of_layout (.operand o) ?_
  have hlayout : Layout [.operand o] ([] ++ o.text ++ []) :=
    .cons (by simp) (by simp [Piece.EndsBefore]) (.nil (by simp))
  simpa using hlayout

/-- A formula of one token whose value is pushed. -/
theorem runFrom_evaluateWithin_of_tokens {depth : Nat} {src : String} {token : Token} {v : Value}
    (htokens : tokens src = .ok [token])
    (hstep : (stepToken host (evaluateWithin host depth) [] token).runFrom s = .ok (.ok [v], s)) :
    (evaluateWithin host (depth + 1) src).runFrom s = .ok (.ok v, s) := by
  rw [evaluateWithin, htokens, Action.runFrom_bind, Action.runFrom_ofExcept]
  simp only [evaluateTokensWith, List.foldlM_cons, List.foldlM_nil, Action.runFrom_bind, hstep,
    Action.runFrom_pure]

/-- An item is added under its own key. -/
theorem runFrom_addItem {e : Key × Value} (hvalue : e.2.IsLiteral)
    (hkey : ∀ name, e.1 = .name name → IsIdentifier name)
    (hinner : (inner (String.ofList e.2.literal)).runFrom s = .ok (.ok e.2, s))
    (c : Collection Value) :
    (addItem inner c (String.ofList (e.1.literal ++ e.2.literal))).runFrom s =
      .ok (.ok (c.add e), s) := by
  obtain ⟨key, v⟩ := e
  cases key with
  | index n =>
    have hnone : Pattern.keyed? ((Key.index n).literal ++ v.literal) = none := hvalue.unkeyed
    simp only [addItem, String.toList_ofList, hnone, Action.runFrom_bind]
    rw [show (Key.index n).literal ++ v.literal = v.literal from rfl, hinner]
    rfl
  | name name =>
    have hsome := Value.keyed?_of_name (hkey name rfl) hvalue
    simp only [addItem, String.toList_ofList, hsome, Action.runFrom_bind, hinner]
    rfl

/-- Items are added one after another. -/
theorem runFrom_foldlM_addItem {es : List (Key × Value)} (hvalues : ∀ e ∈ es, e.2.IsLiteral)
    (hkeys : ∀ e ∈ es, ∀ name, e.1 = .name name → IsIdentifier name)
    (hinner : ∀ e ∈ es, (inner (String.ofList e.2.literal)).runFrom s = .ok (.ok e.2, s))
    (c : Collection Value) :
    (((Value.itemLiterals es).map String.ofList).foldlM (addItem inner) c).runFrom s =
      .ok (.ok (es.foldl Collection.add c), s) := by
  induction es generalizing c with
  | nil => rfl
  | cons e es ih =>
    have hfirst := runFrom_addItem (hvalues e List.mem_cons_self) (hkeys e List.mem_cons_self)
      (hinner e List.mem_cons_self) c
    rw [Value.itemLiterals, List.map_cons, List.foldlM_cons, Action.runFrom_bind, hfirst]
    exact ih (fun f hf => hvalues f (List.mem_cons_of_mem _ hf))
      (fun f hf => hkeys f (List.mem_cons_of_mem _ hf))
      (fun f hf => hinner f (List.mem_cons_of_mem _ hf)) (c.add e)

/-- A written collection is gathered from its items. -/
theorem runFrom_evaluateCollection {c : Collection Value} (hnumbered : c.Numbered)
    (hkeys : ∀ name, .name name ∈ c.keys → IsIdentifier name)
    (hvalues : ∀ e ∈ c.entries, e.2.IsLiteral)
    (hinner : ∀ e ∈ c.entries, (inner (String.ofList e.2.literal)).runFrom s = .ok (.ok e.2, s)) :
    (evaluateCollection inner
      (String.ofList ([',', ' '].intercalate (Value.itemLiterals c.entries)))).runFrom s =
        .ok (.ok c, s) := by
  have hitem : ∀ item ∈ Value.itemLiterals c.entries, Value.IsItem item := fun item h =>
    Value.isItem_of_mem_itemLiterals hkeys hvalues h
  have hsplit := splitList_intercalate (fun item h => (hitem item h).crosses)
    (fun item h => (hitem item h).trimmed) (fun item h => (hitem item h).ne_nil)
  have hfold := runFrom_foldlM_addItem hvalues
    (fun e he name hname => hkeys name (hname ▸ List.mem_map_of_mem he)) hinner Collection.empty
  rw [evaluateCollection, hsplit, Action.runFrom_bind, Action.runFrom_ofExcept]
  dsimp only
  rw [hfold]
  change Except.ok (Except.ok (Collection.gather c.entries), s) = _
  rw [Collection.gather_of_numbered hnumbered]

/-- A written value is evaluated to itself, if formulas may nest as deep as its text is long. By
induction on the value: the formulas inside a collection are shorter. -/
theorem runFrom_evaluateWithin_literal {v : Value} (h : v.Writable) (s : σ) {depth : Nat}
    (hdepth : v.literal.length < depth) :
    (evaluateWithin host depth (String.ofList v.literal)).runFrom s = .ok (.ok v, s) := by
  induction h generalizing depth with
  | null =>
    obtain ⟨depth, rfl⟩ := Nat.exists_eq_add_of_lt hdepth
    exact runFrom_evaluateWithin_of_tokens
      (tokens_of_operand (.word 'n' ['u', 'l', 'l'] rfl (List.all_eq_true.1 rfl))) rfl
  | bool b =>
    obtain ⟨depth, rfl⟩ := Nat.exists_eq_add_of_lt hdepth
    cases b with
    | true =>
      exact runFrom_evaluateWithin_of_tokens
        (tokens_of_operand (.word 't' ['r', 'u', 'e'] rfl (List.all_eq_true.1 rfl))) rfl
    | false =>
      exact runFrom_evaluateWithin_of_tokens
        (tokens_of_operand (.word 'f' ['a', 'l', 's', 'e'] rfl (List.all_eq_true.1 rfl))) rfl
  | str text =>
    obtain ⟨depth, rfl⟩ := Nat.exists_eq_add_of_lt hdepth
    refine runFrom_evaluateWithin_of_tokens
      (tokens_of_operand (.literal '\'' _ .singleQuoted _ '\'' rfl
        (Nesting.encloses_escape text.toList))) ?_
    simp only [Operand.token, stepToken, String.toList_ofList, Quoted.unescape_escape,
      String.ofList_toList, Action.runFrom_pure]
  | @collection c hnumbered hkeys hvalues ih =>
    obtain ⟨depth, rfl⟩ := Nat.exists_eq_add_of_lt hdepth
    have hliteral : ∀ e ∈ c.entries, e.2.IsLiteral := fun e he => (hvalues e he).isLiteral
    have hitems : ∀ item ∈ Value.itemLiterals c.entries, Nesting.Crosses .start item .start :=
      fun item h => (Value.isItem_of_mem_itemLiterals hkeys hliteral h).crosses
    refine runFrom_evaluateWithin_of_tokens
      (tokens_of_operand (.literal '[' _ .collection _ ']' rfl
        (Nesting.encloses_intercalate hitems))) ?_
    have hinner : ∀ e ∈ c.entries,
        (evaluateWithin host ((Value.collection c).literal.length + depth)
          (String.ofList e.2.literal)).runFrom s = .ok (.ok e.2, s) := by
      intro e he
      exact ih e he (Nat.lt_add_right depth (Value.length_literal_lt he))
    have hcollection := runFrom_evaluateCollection hnumbered hkeys hliteral hinner
    simp only [Operand.token, stepToken, Action.runFrom_bind]
    rw [hcollection]
    rfl

/-- **Literals of values.** A value without numbers, whose collections have indices `0, 1, 2, …` in
order and distinct identifiers as names, is the value of the formula that writes it: over every
host, and whatever that would answer to a variable or a call, the value is given as it is and
nothing else happens.

**Proof sketch.** The formula is one operand. The text of a collection is cut into its items again,
since the scan meets no other comma at top; they are evaluated by induction, and added under the
keys that they have. -/
theorem evaluate_literal {σ : Type} (host : Host σ) (s : σ) (v : Value) (h : v.Writable) :
    (evaluate host (String.ofList v.literal)).runFrom s = .ok (.ok v, s) := by
  refine runFrom_evaluateWithin_literal h s ?_
  rw [← String.length_toList, String.toList_ofList]
  exact Nat.lt_succ_self _

/-- A collection with strings that hold commas, colons, brackets, quotes, dollars and backslashes.
-/
def trickyValue : Value :=
  .collection ⟨[(.index 0, .str "it's, [a\\"),
    (.name "null", .collection ⟨[(.name "k", .str "\x7bf $x\x7d: \"]"), (.index 0, .null)]⟩),
    (.index 1, .bool true)]⟩

/-- It is evaluated to itself also where reading a variable or calling a function would stop. -/
theorem evaluate_literal_trickyValue :
    trickyValue.Writable ∧
      String.ofList trickyValue.literal =
        "['it\\'s, [a\\\\', null: [k: '\x7bf $x\x7d: \"]', null], true]" ∧
      (evaluate ⟨fun _ => Action.stop .outOfSteps, fun _ _ => Action.stop .outOfSteps⟩
        (String.ofList trickyValue.literal)).runFrom () = .ok (.ok trickyValue, ()) := by
  have hname : IsIdentifier "null" := ⟨'n', ['u', 'l', 'l'], rfl, rfl, List.all_eq_true.1 rfl⟩
  have hkey : IsIdentifier "k" := ⟨'k', [], rfl, rfl, by simp⟩
  have hinner : Value.Writable (.collection ⟨[(.name "k", .str "\x7bf $x\x7d: \"]"),
      (.index 0, .null)]⟩) := by
    refine .collection ⟨rfl, by decide⟩ ?_ ?_
    · intro s hs
      obtain rfl : s = "k" := by simpa [Collection.keys] using hs
      exact hkey
    · intro e he
      simp only [List.mem_cons, List.not_mem_nil, or_false] at he
      rcases he with rfl | rfl
      · exact .str _
      · exact .null
  have hwritable : trickyValue.Writable := by
    refine .collection ⟨rfl, by decide⟩ ?_ ?_
    · intro s hs
      obtain rfl : s = "null" := by simpa [Collection.keys] using hs
      exact hname
    · intro e he
      simp only [List.mem_cons, List.not_mem_nil, or_false] at he
      rcases he with rfl | rfl | rfl
      · exact .str _
      · exact hinner
      · exact .bool true
  exact ⟨hwritable, by decide +kernel, evaluate_literal _ () trickyValue hwritable⟩

end Formula

end LineScript
