import LineScript.Proofs.Formula.Literal
import LineScript.Proofs.Session.Basic
import LineScript.Proofs.Statement.Shape

set_option relaxedAutoImplicit false
set_option autoImplicit false

/-!
# Names of variables in statements and in formulas

Declarations, parameters and the headers of loops introduce variables. Their names are read over the
Unicode word characters, while a reference in a formula ends at the first character that is no ASCII
letter, digit or underscore. So formulas can read a variable with an ASCII name, and no other: the
variable is there, under its name, but the first wide character of the name is refused.

## Main definitions

* `LineScript.Statement.Introduces` — the names that statements give to variables.

## Main results

* `LineScript.Statement.Introduces.exists_toList` — the characters of such a name.
* `LineScript.Path.parse_of_not_dotted` — a name without dots is the path to its variable.
* `LineScript.Lexeme.read_of_wide` — no lexeme starts with a character past the ASCII ones.
* `LineScript.Formula.tokens_dollar` — how a name is read after a dollar sign.
* `LineScript.Statement.introduced_read_back` — which of the variables that statements introduce can
  be read, and how.
-/

namespace LineScript

/-! ## Names that are introduced -/

/-- The names that statements give to new variables: those in lists of declarations or parameters,
and those in the headers of loops. -/
inductive Statement.Introduces : String → Prop
  | declared {list : String} {items : List Assignment} {item : Assignment} :
      Assignment.parseList list = .ok items → item ∈ items → Introduces item.name
  | counted {line name start stop : String} {step : Option String} :
      Statement.parse line = .ok (.count name start stop step) → Introduces name
  | each {line name src : String} : Statement.parse line = .ok (.each name src) → Introduces name

namespace Pattern

/-- A name after a dollar sign. -/
theorem exists_of_dollarName? {cs after : List Char} {name : String}
    (h : dollarName? Text.isWordChar cs = some (name, after)) :
    ∃ c taken, Text.isNameStart c = true ∧ (∀ d ∈ taken, Text.isWordChar d = true) ∧
      name.toList = c :: taken := by
  obtain ⟨ds, -, hname⟩ := name?_of_dollarName? h
  obtain ⟨c, taken, hstart, htaken, rfl, -⟩ := eq_append_of_name? hname
  exact ⟨c, taken, hstart, htaken, String.toList_ofList⟩

/-- An assignment starts with a name after a dollar sign. -/
theorem exists_of_assignment? {cs : List Char} {name : String} {init : Option String}
    (h : assignment? cs = some (name, init)) :
    ∃ c taken, Text.isNameStart c = true ∧ (∀ d ∈ taken, Text.isWordChar d = true) ∧
      name.toList = c :: taken := by
  obtain ⟨hname, -⟩ | ⟨after, value, rest, hname, -⟩ := cases_of_assignment? h
  · exact exists_of_dollarName? hname
  · exact exists_of_dollarName? hname

end Pattern

/-- Each item of a list of assignments is read from a text. -/
theorem Assignment.exists_parse_of_mem {texts : List String} {items : List Assignment}
    (h : texts.mapM parse = .ok items) {item : Assignment} (hitem : item ∈ items) :
    ∃ text, parse text = .ok item := by
  induction texts generalizing items with
  | nil =>
    cases h
    cases hitem
  | cons text texts ih =>
    rw [List.mapM_cons] at h
    cases hparse : parse text with
    | error e =>
      rw [hparse] at h
      cases h
    | ok first =>
      cases hrest : texts.mapM parse with
      | error e =>
        rw [hparse, hrest] at h
        cases h
      | ok rest =>
        rw [hparse, hrest] at h
        cases h
        rcases List.mem_cons.1 hitem with rfl | hitem
        · exact ⟨text, hparse⟩
        · exact ih hrest hitem

namespace Statement

/-- Where the names in the headers of loops come from. -/
theorem dollarName?_of_ofCommand {word : String} {params : Option String} {st : Statement}
    (h : ofCommand word params = .ok st) {name : String}
    (hst : (∃ start stop step, st = .count name start stop step) ∨ ∃ src, st = .each name src) :
    ∃ after, Pattern.dollarName? Text.isWordChar (params.getD "").toList = some (name, after) := by
  cases reading_of_ofCommand h with
  | @count name' after start stop step hname =>
    rcases hst with ⟨_, _, _, heq⟩ | ⟨_, heq⟩
    · cases heq
      exact ⟨after, hname⟩
    · cases heq
  | @each name' after src hname =>
    rcases hst with ⟨_, _, _, heq⟩ | ⟨_, heq⟩
    · cases heq
    · cases heq
      exact ⟨after, hname⟩
  | _ => simp at hst

/-- **A name that is introduced** starts with an ASCII letter or an underscore and goes on with word
characters. -/
theorem Introduces.exists_toList {name : String} (h : Introduces name) :
    ∃ c taken, Text.isNameStart c = true ∧ (∀ d ∈ taken, Text.isWordChar d = true) ∧
      name.toList = c :: taken := by
  have hloop : ∀ {line : String} {st : Statement}, parse line = .ok st →
      ((∃ start stop step, st = .count name start stop step) ∨ ∃ src, st = .each name src) →
      ∃ c taken, Text.isNameStart c = true ∧ (∀ d ∈ taken, Text.isWordChar d = true) ∧
        name.toList = c :: taken := by
    intro line st hparse hst
    obtain ⟨word, params, -, hword⟩ := exists_of_parse hparse
    obtain ⟨after, hname⟩ := dollarName?_of_ofCommand hword hst
    exact Pattern.exists_of_dollarName? hname
  cases h with
  | counted hparse => exact hloop hparse (.inl ⟨_, _, _, rfl⟩)
  | each hparse => exact hloop hparse (.inr ⟨_, rfl⟩)
  | @declared list items item hlist hitem =>
    obtain ⟨texts, -, hparse⟩ := Assignment.exists_of_parseList hlist
    obtain ⟨text, hitem⟩ := Assignment.exists_parse_of_mem hparse hitem
    exact Pattern.exists_of_assignment? (Assignment.assignment?_of_parse hitem)

end Statement

/-! ## Paths -/

namespace Text

/-- A text without the character is not cut. -/
theorem cutFrom_of_notMem {d : Char} {cs : List Char} (h : d ∉ cs) (seen : List Char) :
    cutFrom [d] seen cs = none := by
  induction cs generalizing seen with
  | nil => rfl
  | cons c cs ih =>
    rw [List.mem_cons, not_or] at h
    rw [cutFrom, dropPattern?, if_neg h.1]
    exact ih h.2 _

/-- A text without the character is one piece. -/
theorem pieces_of_notMem {d : Char} {cs : List Char} (h : d ∉ cs) : pieces [d] cs = [cs] := by
  unfold pieces
  cases cs with
  | nil => rfl
  | cons c cs => rw [List.length_cons, piecesWithin, cutAt?, cutFrom_of_notMem h]

end Text

/-- **A name without dots** is the path to its variable. -/
theorem Path.parse_of_not_dotted {name : String} (h : '.' ∉ name.toList) :
    Path.parse name = .ok ⟨name, []⟩ := by
  have hsegments : segments name = [name] := by
    rw [segments, Text.pieces_of_notMem h, List.map_singleton, String.ofList_toList]
  rw [parse, hsegments]
  simp only [List.tail_cons, parseKeys, baseName, hsegments, List.headD_cons]

/-- A name without dots reads the variable of that name. -/
theorem Store.get_of_not_dotted (st : Store) {name : String} (h : '.' ∉ name.toList) :
    st.get name =
      (st.find? name).elim (.error (.undefinedVariable name)) fun found => .ok found.value := by
  rw [Store.get, Path.parse_of_not_dotted h]
  cases hfind : st.find? name with
  | none => simp only [hfind, Option.elim_none]
  | some found => simp only [hfind, Option.elim_some, Value.lookup]

/-! ## References -/

/-- A word character that is no name character lies past the ASCII ones. -/
theorem Text.lt_toNat_of_isWordChar {c : Char} (h : isWordChar c = true)
    (hname : isNameChar c = false) :
    0x7F < c.toNat := by
  rw [isWordChar, hname, Bool.false_or, Bool.and_eq_true, decide_eq_true_eq] at h
  exact h.1

/-- **No lexeme starts with a wide character.**

**Proof sketch.** All tests of `read` ask for ASCII characters: quotes and brackets, operators,
digits, the start of a name, and single signs. A wide character is none of them. -/
theorem Lexeme.read_of_wide {c : Char} (h : 0x7F < c.toNat) (cs : List Char) :
    read c cs = .error (.unexpectedChar c) := by
  have hne : ∀ d : Char, d.toNat ≤ 0x7F → c ≠ d := by
    rintro d hd rfl
    omega
  have hliteral : literal? c = none := by
    cases hopens : literal? c with
    | none => rfl
    | some opener =>
      obtain ⟨n, make⟩ := opener
      cases opens_of_literal? hopens with
      | single => exact absurd h (by decide)
      | double => exact absurd h (by decide)
      | bracket => exact absurd h (by decide)
      | brace => exact absurd h (by decide)
  have hoperator : isOperatorChar c = false := by
    rw [Bool.eq_false_iff]
    intro hc
    have hascii : ("+-*/%^&|~=!<>".toList.all fun d => d.toNat ≤ 0x7F) = true := by decide
    have hle := of_decide_eq_true (List.all_eq_true.1 hascii c (List.contains_iff_mem.1 hc))
    omega
  have hdigit : c.isDigit = false := by
    rw [Bool.eq_false_iff, ne_eq, Text.isDigit_iff]
    omega
  have hstart : Text.isNameStart c = false := by
    rw [Bool.eq_false_iff, ne_eq, Text.isNameStart, Bool.or_eq_true, Text.isAlpha_iff, beq_iff_eq]
    rintro (hc | rfl)
    · omega
    · exact absurd h (by decide)
  unfold read
  rw [hliteral]
  simp [hne, hoperator, hdigit, hstart]

namespace Formula

/-- **A name after a dollar sign** is a reference if it is an ASCII name. Else its first wide
character is refused.

**Proof sketch.** The name is its longest ASCII beginning and what is left. If nothing is left, the
reference is all of the text. Else what is left starts with a wide character `d`: the pass reads the
reference up to it and then fails at `d`, which is also what `find?` gives. -/
theorem tokens_dollar {name : String} {c : Char} {taken : List Char}
    (hstart : Text.isNameStart c = true) (htaken : ∀ d ∈ taken, Text.isWordChar d = true)
    (hname : name.toList = c :: taken) :
    tokens ("$" ++ name) =
      (name.toList.find? fun d => !Text.isNameChar d).elim (.ok [.reference name]) fun d =>
        .error (.unexpectedChar d) := by
  have htext : "$" ++ name = String.ofList ('$' :: c :: taken) := by
    rw [← String.ofList_toList (s := "$" ++ name), String.toList_append, hname]
    rfl
  have hsplit := List.takeWhile_append_dropWhile (p := Text.isNameChar) (l := taken)
  have hascii : ∀ d ∈ c :: taken.takeWhile Text.isNameChar, Text.isNameChar d = true := by
    intro d hd
    rcases List.mem_cons.1 hd with rfl | hd
    · exact Text.isNameChar_of_isNameStart hstart
    · exact List.mem_takeWhile_imp hd
  have hnone : (c :: taken.takeWhile Text.isNameChar).find? (fun d => !Text.isNameChar d) =
      none := by
    rw [List.find?_eq_none]
    intro d hd
    simp [hascii d hd]
  have hpath : ∀ d ∈ c :: taken.takeWhile Text.isNameChar, Text.isPathChar d = true :=
      fun d hd => by
    simp [Text.isPathChar, hascii d hd]
  rw [htext, hname]
  cases hrest : taken.dropWhile Text.isNameChar with
  | nil =>
    -- all of the name is ASCII
    rw [hrest, List.append_nil] at hsplit
    rw [hsplit] at hnone hpath
    have hreference := tokens_of_operand
      (.reference c taken hstart fun d hd => hpath d (List.mem_cons_of_mem _ hd))
    rw [hnone, Option.elim_none]
    refine hreference.trans ?_
    rw [Operand.token, ← hname, String.ofList_toList]
  | cons d ds =>
    -- the reference ends before `d`, and no lexeme starts with it
    have hd : Text.isNameChar d = false := by
      have hnot := List.head?_dropWhile_not Text.isNameChar taken
      simpa [hrest] using hnot
    have hword : Text.isWordChar d = true := htaken d (by rw [← hsplit, hrest]; simp)
    have hwide := Text.lt_toNat_of_isWordChar hword hd
    have hstop : ∀ e ∈ (d :: ds).head?, Text.isPathChar e = false := by
      intro e he
      obtain rfl : d = e := by simpa using he
      rw [Text.isPathChar, hd, Bool.false_or, beq_eq_false_iff_ne]
      rintro rfl
      exact absurd hwide (by decide)
    have hread := Lexeme.read_reference hstart hpath hstop
    rw [hrest] at hsplit
    rw [List.cons_append, hsplit] at hread
    have hscan : Shunt.start.scan ('$' :: c :: taken) = .error (.unexpectedChar d) :=
      (Shunt.scan_of_read (by decide) hread).trans
        (Shunt.scan_of_read_error (Text.isBlank_of_isWordChar hword) (Lexeme.read_of_wide hwide ds))
    have htrim : Text.trimChars ('$' :: c :: taken) = '$' :: c :: taken := by
      refine Text.trimChars_of_ends ⟨'$', c :: taken, rfl, by decide⟩ ?_
      have hne : c :: taken ≠ [] := List.cons_ne_nil _ _
      refine ⟨'$' :: (c :: taken).dropLast, (c :: taken).getLast hne, ?_, ?_⟩
      · rw [List.cons_append, List.dropLast_concat_getLast]
      · refine Text.isBlank_of_isWordChar ?_
        rcases List.mem_cons.1 (List.getLast_mem hne) with heq | hmem
        · rw [heq]
          exact Text.isWordChar_of_isNameChar (Text.isNameChar_of_isNameStart hstart)
        · exact htaken _ hmem
    have hfind : (c :: taken).find? (fun e => !Text.isNameChar e) = some d := by
      rw [← hsplit, ← List.cons_append, List.find?_append, hnone]
      simp [hd]
    rw [tokens, String.toList_ofList, htrim, hscan, hfind, Option.elim_some]

end Formula

namespace Statement

/-- A name that is introduced has no dots. -/
theorem Introduces.not_dotted {name : String} (h : Introduces name) : '.' ∉ name.toList := by
  obtain ⟨c, taken, hstart, htaken, hname⟩ := h.exists_toList
  have hdot : Text.isWordChar '.' = false := by decide
  intro hmem
  rw [hname] at hmem
  rcases List.mem_cons.1 hmem with rfl | hmem
  · cases hstart
  · rw [htaken '.' hmem] at hdot
    cases hdot

/-- **Which variables formulas can read.** Under every name that a statement introduces, the
variables are asked for the one of that very name. In a formula, the name after a dollar sign is a
reference to it exactly if it is an ASCII name, and then it has the value of the variable. A name
that goes on past the ASCII characters cannot be read: its first wide character is refused, whatever
variables there are.

**Proof sketch.** Word characters exclude the dot, so the name is a path of one segment
(`Store.get_of_not_dotted`). The reference takes the ASCII characters of the name; if a character is
left, it is a wide one, and no lexeme starts with it (`Formula.tokens_dollar`). -/
theorem introduced_read_back {name : String} (h : Introduces name) :
    (∀ st : Store, st.get name =
      (st.find? name).elim (.error (.undefinedVariable name)) fun found => .ok found.value) ∧
    (∀ d, name.toList.find? (fun c => !Text.isNameChar c) = some d →
      Formula.tokens ("$" ++ name) = .error (.unexpectedChar d) ∧
      ∀ run s, (Session.evaluateWith run ("$" ++ name)).runFrom s =
        .ok (.error (.unexpectedChar d), s)) ∧
    (name.toList.all Text.isNameChar = true →
      Formula.tokens ("$" ++ name) = .ok [.reference name] ∧
      ∀ run s found, s.store.find? name = some found →
        (Session.evaluateWith run ("$" ++ name)).runFrom s = .ok (.ok found.value, s)) := by
  obtain ⟨c, taken, hstart, htaken, hname⟩ := h.exists_toList
  have htokens := Formula.tokens_dollar hstart htaken hname
  have hget := fun st : Store => st.get_of_not_dotted h.not_dotted
  refine ⟨hget, fun d hd => ?_, fun hascii => ?_⟩
  · rw [hd, Option.elim_some] at htokens
    refine ⟨htokens, fun run s => ?_⟩
    rw [Session.evaluateWith, Formula.evaluate, Formula.evaluateWithin,
      Action.runFrom_bind, htokens]
    rfl
  · have hnone : name.toList.find? (fun c => !Text.isNameChar c) = none := by
      rw [List.find?_eq_none]
      intro d hd
      simp [List.all_eq_true.1 hascii d hd]
    rw [hnone, Option.elim_none] at htokens
    refine ⟨htokens, fun run s found hfound => ?_⟩
    refine Formula.runFrom_evaluateWithin_of_tokens htokens ?_
    have hread : (Session.readVariable name).runFrom s = .ok (.ok found.value, s) := by
      rw [Session.readVariable, Action.runFrom_get_bind, hget s.store, hfound]
      rfl
    change (Session.readVariable name >>= fun v => pure [v]).runFrom s = _
    rw [Action.runFrom_bind, hread]
    rfl

/-- A declared variable and that of a loop, with ASCII names, are read back. -/
theorem introduced_read_back_total :
    Formula.tokens "$total" = .ok [.reference "total"] ∧
      Formula.tokens "$i_2" = .ok [.reference "i_2"] := by
  have hlist : Assignment.parseList "$first = 1, $total" =
      .ok [⟨"first", some "1"⟩, ⟨"total", none⟩] := by
    decide +kernel
  have htotal : Introduces (Assignment.mk "total" none).name := .declared hlist (by simp)
  have hloop : parse "for $i_2 = 1 to 9" = .ok (.count "i_2" "1" "9" none) := by
    decide +kernel
  exact ⟨((introduced_read_back htotal).2.2 (by decide)).1,
    ((introduced_read_back (.counted hloop)).2.2 (by decide)).1⟩

/-- A name that declarations accept and formulas refuse. -/
theorem introduced_not_read_wide :
    Introduces "a\u00e9" ∧ Formula.tokens "$a\u00e9" = .error (.unexpectedChar '\u00e9') := by
  have hlist : Assignment.parseList "$a\u00e9 = 1" = .ok [⟨"a\u00e9", some "1"⟩] := by
    decide +kernel
  have hname : Introduces (Assignment.mk "a\u00e9" (some "1")).name :=
    .declared hlist List.mem_cons_self
  have hwide : ("a\u00e9".toList.find? fun c => !Text.isNameChar c) = some '\u00e9' := by
    decide
  obtain ⟨c, taken, hstart, htaken, htext⟩ := hname.exists_toList
  have htokens := Formula.tokens_dollar hstart htaken htext
  rw [hwide, Option.elim_some] at htokens
  exact ⟨hname, htokens⟩

end Statement

end LineScript
