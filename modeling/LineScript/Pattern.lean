import LineScript.Text.Blank
import LineScript.Text.WordChar

set_option relaxedAutoImplicit false
set_option autoImplicit false

/-!
# Patterns of statements

Statements, list items and calls are recognised by the shape of their text: a name, blanks, a sign
or keyword, and a *rest* that reaches to the end. The rest is never empty. Where only blanks are
left for it, it is the last of them, provided that enough blanks remain before it. Unless it may
span lines, it holds no line feed.

## Main definitions

* `LineScript.Pattern.name?` — a name and the text after it.
* `LineScript.Pattern.restAfter?` — the rest after a number of blanks.
* `LineScript.Pattern.command?` — a name, alone or with a rest.
* `LineScript.Pattern.assignment?` — `$name`, alone or with `=` and a rest.
* `LineScript.Pattern.keyed?` — `name: rest`.
-/

namespace LineScript.Pattern

/-- A name: a letter or underscore, then as many characters of the class as there are. -/
def name? (more : Char → Bool) : List Char → Option (String × List Char)
  | [] => none
  | c :: cs =>
    if Text.isNameStart c then some (String.ofList (c :: cs.takeWhile more), cs.dropWhile more)
    else none

/-- A name after a dollar sign. -/
def dollarName? (more : Char → Bool) : List Char → Option (String × List Char)
  | '$' :: cs => name? more cs
  | _ => none

/-- The text after a given word. -/
def afterWord? : List Char → List Char → Option (List Char)
  | [], cs => some cs
  | _ :: _, [] => none
  | w :: word, c :: cs => if w = c then afterWord? word cs else none

/-- Whether a text may be a rest: unless it may span lines it holds no line feed. -/
def fits (multiline : Bool) (cs : List Char) : Bool :=
  multiline || !cs.contains '\n'

/-- The rest of a text after at least `least` blanks. -/
def restAfter? (least : Nat) (multiline : Bool) (cs : List Char) : Option String :=
  let blanks := cs.takeWhile Text.isBlank
  match cs.dropWhile Text.isBlank with
  | [] =>
    match blanks.getLast? with
    | some c =>
      if least < blanks.length && fits multiline [c] then some (String.ofList [c]) else none
    | none => none
  | rest =>
    if least ≤ blanks.length && fits multiline rest then some (String.ofList rest) else none

/-- A name alone, or a name, blanks and a rest. -/
def command? (more : Char → Bool) (multiline : Bool) (cs : List Char) :
    Option (String × Option String) :=
  match name? more cs with
  | none => none
  | some (name, []) => some (name, none)
  | some (name, after) => (restAfter? 1 multiline after).map fun rest => (name, some rest)

/-- The characters of a function name, in which colons separate namespaces. -/
def isQualifiedChar (c : Char) : Bool :=
  Text.isWordChar c || c == ':'

/-- The characters of a dotted path in a statement. -/
def isDottedChar (c : Char) : Bool :=
  Text.isWordChar c || c == '.'

/-- An item of an assignment list: `$name`, or `$name = rest`. -/
def assignment? (cs : List Char) : Option (String × Option String) :=
  match dollarName? Text.isWordChar cs with
  | none => none
  | some (name, []) => some (name, none)
  | some (name, after) =>
    match Text.trimStart after with
    | '=' :: after => (restAfter? 0 true after).map fun rest => (name, some rest)
    | _ => none

/-- An item of a collection with a name: `name: rest`. -/
def keyed? (cs : List Char) : Option (String × String) :=
  match name? Text.isWordChar cs with
  | none => none
  | some (name, after) =>
    match Text.trimStart after with
    | ':' :: after => (restAfter? 0 true after).map fun rest => (name, rest)
    | _ => none

/-! ## What can be read -/

variable {more : Char → Bool} {multiline : Bool} {cs after : List Char} {name rest : String}

/-- A name is cut off where the text goes on with another character. -/
theorem eq_append_of_name? (h : name? more cs = some (name, after)) :
    ∃ c taken, Text.isNameStart c = true ∧ (∀ d ∈ taken, more d = true) ∧
      name = String.ofList (c :: taken) ∧ cs = c :: taken ++ after := by
  cases cs with
  | nil => cases h
  | cons c cs =>
    rw [name?] at h
    cases hstart : Text.isNameStart c with
    | false => simp [hstart] at h
    | true =>
      obtain ⟨rfl, rfl⟩ : String.ofList (c :: cs.takeWhile more) = name ∧
          cs.dropWhile more = after := by
        simpa [hstart] using h
      refine ⟨c, cs.takeWhile more, hstart, fun d hd => ?_, rfl, ?_⟩
      · exact List.all_eq_true.1 List.all_takeWhile d hd
      · rw [List.cons_append, List.takeWhile_append_dropWhile]

/-- A name after a dollar sign. -/
theorem name?_of_dollarName? (h : dollarName? more cs = some (name, after)) :
    ∃ ds, cs = '$' :: ds ∧ name? more ds = some (name, after) := by
  unfold dollarName? at h
  split at h
  · exact ⟨_, rfl, h⟩
  · cases h

/-- **A rest** is the last of the blanks that the text consists of, or it starts after all blanks.

**Proof sketch.** The text is its leading blanks and what is left of it. If nothing is left, the
last blank is given back as the rest; else the rest starts with the first character that is no
blank. -/
theorem cases_of_restAfter? {least : Nat} (h : restAfter? least multiline cs = some rest) :
    (∃ blanks last, (∀ c ∈ blanks, Text.isBlank c = true) ∧ Text.isBlank last = true ∧
      least ≤ blanks.length ∧ cs = blanks ++ [last] ∧ rest = String.ofList [last]) ∨
    (∃ blanks d ds, (∀ c ∈ blanks, Text.isBlank c = true) ∧ Text.isBlank d = false ∧
      least ≤ blanks.length ∧ cs = blanks ++ d :: ds ∧ rest = String.ofList (d :: ds)) := by
  have hsplit := List.takeWhile_append_dropWhile (p := Text.isBlank) (l := cs)
  have hblanks : ∀ c ∈ cs.takeWhile Text.isBlank, Text.isBlank c = true :=
    List.all_eq_true.1 List.all_takeWhile
  rw [restAfter?] at h
  generalize cs.takeWhile Text.isBlank = blanks at h hsplit hblanks
  cases hdrop : cs.dropWhile Text.isBlank with
  | nil =>
    cases hlast : blanks.getLast? with
    | none => simp [hdrop, hlast] at h
    | some last =>
      obtain ⟨front, rfl⟩ := List.getLast?_eq_some_iff.1 hlast
      simp only [hdrop, hlast, Option.ite_none_right_eq_some, Bool.and_eq_true,
        decide_eq_true_eq, List.length_append, List.length_singleton, Option.some.injEq] at h
      obtain ⟨⟨hleast, -⟩, rfl⟩ := h
      refine .inl ⟨front, last, fun c hc => hblanks c (List.mem_append_left _ hc),
        hblanks last (by simp), by omega, ?_, rfl⟩
      rw [← hsplit, hdrop, List.append_nil]
  | cons d ds =>
    simp only [hdrop, Option.ite_none_right_eq_some, Bool.and_eq_true, decide_eq_true_eq,
      Option.some.injEq] at h
    obtain ⟨⟨hleast, -⟩, rfl⟩ := h
    have hd := List.head?_dropWhile_not (p := Text.isBlank) (l := cs)
    rw [hdrop] at hd
    exact .inr ⟨blanks, d, ds, hblanks, by simpa using hd, hleast, by rw [← hsplit, hdrop], rfl⟩

/-- A command is a name alone, or a name and a rest after blanks. -/
theorem cases_of_command? {args : Option String}
    (h : command? more multiline cs = some (name, args)) :
    (name? more cs = some (name, []) ∧ args = none) ∨
    ∃ after rest, name? more cs = some (name, after) ∧ restAfter? 1 multiline after = some rest ∧
      args = some rest := by
  rw [command?] at h
  cases hname : name? more cs with
  | none => simp [hname] at h
  | some found =>
    obtain ⟨found, _ | ⟨c, after⟩⟩ := found
    · obtain ⟨rfl, rfl⟩ : found = name ∧ none = args := by simpa [hname] using h
      exact .inl ⟨rfl, rfl⟩
    · obtain ⟨rest, hrest, rfl, rfl⟩ : ∃ rest, restAfter? 1 multiline (c :: after) = some rest ∧
          found = name ∧ some rest = args := by simpa [hname] using h
      exact .inr ⟨c :: after, rest, rfl, hrest, rfl⟩

/-- An assignment is a name after a dollar sign, alone or with a rest after an equals sign. -/
theorem cases_of_assignment? {init : Option String} (h : assignment? cs = some (name, init)) :
    (dollarName? Text.isWordChar cs = some (name, []) ∧ init = none) ∨
    ∃ after value rest, dollarName? Text.isWordChar cs = some (name, after) ∧
      Text.trimStart after = '=' :: value ∧ restAfter? 0 true value = some rest ∧
        init = some rest := by
  rw [assignment?] at h
  cases hname : dollarName? Text.isWordChar cs with
  | none => simp [hname] at h
  | some found =>
    obtain ⟨found, _ | ⟨c, after⟩⟩ := found
    · obtain ⟨rfl, rfl⟩ : found = name ∧ none = init := by simpa [hname] using h
      exact .inl ⟨rfl, rfl⟩
    · simp only [hname] at h
      split at h
      next value hequals =>
        obtain ⟨rest, hrest, heq⟩ := Option.map_eq_some_iff.1 h
        cases heq
        exact .inr ⟨c :: after, value, rest, rfl, hequals, hrest, rfl⟩
      · cases h

/-- An item of a collection with a name has its value after a colon. -/
theorem exists_of_keyed? (h : keyed? cs = some (name, rest)) :
    ∃ after value, name? Text.isWordChar cs = some (name, after) ∧
      Text.trimStart after = ':' :: value ∧ restAfter? 0 true value = some rest := by
  rw [keyed?] at h
  cases hname : name? Text.isWordChar cs with
  | none => simp [hname] at h
  | some found =>
    obtain ⟨found, after⟩ := found
    simp only [hname] at h
    split at h
    next value hcolon =>
      obtain ⟨rest', hrest, heq⟩ := Option.map_eq_some_iff.1 h
      cases heq
      exact ⟨after, value, rfl, hcolon, hrest⟩
    · cases h

end LineScript.Pattern
