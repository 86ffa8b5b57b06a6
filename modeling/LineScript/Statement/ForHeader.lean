import LineScript.Pattern

set_option relaxedAutoImplicit false
set_option autoImplicit false

/-!
# Headers of counting loops

The header `$name = start to stop step width` is cut at the first place where it fits: the start is
as short as possible, then the stop, and a step is read wherever one can be. The parts are looked
for in the text alone, without regard to literals.

## Main definitions

* `LineScript.ForHeader` — the parts of a header.
* `LineScript.Pattern.firstCut` — the shortest start of a text that something accepts.
* `LineScript.Pattern.forHeader?` — the parts of a header.
-/

namespace LineScript

/-- The parts of the header of a counting loop, as text. -/
structure ForHeader where
  name : String
  start : String
  stop : String
  step : Option String
  deriving Repr, DecidableEq

namespace Pattern

/-- What `accept` gives for the shortest non-empty start of a text, without a line feed, that it
takes together with the text after it. The start is `taken` and what is added to it. -/
def firstCut {α : Type} (accept : List Char → List Char → Option α) (taken : List Char) :
    List Char → Option α
  | [] => none
  | c :: cs =>
    if c = '\n' then none
    else
      match accept (taken ++ [c]) cs with
      | some a => some a
      | none => firstCut accept (taken ++ [c]) cs

/-- What `accept` gives for the text after as many of its first blanks as it takes, of which at
least `least` are skipped. -/
def skippingBlanks {α : Type} (least : Nat) (accept : List Char → Option α) (cs : List Char) :
    Option α :=
  let blanks := (cs.takeWhile Text.isBlank).length
  ((List.range (blanks + 1 - least)).map fun k => cs.drop (blanks - k)).findSome? accept

/-- The text after blanks and a word. -/
def afterBlanksAndWord? (word : String) (cs : List Char) : Option (List Char) :=
  match cs with
  | c :: _ => if Text.isBlank c then afterWord? word.toList (Text.trimStart cs) else none
  | [] => none

/-- The step at the end of a header: blanks, `step`, blanks and a rest. -/
def stepPart? (cs : List Char) : Option String :=
  match afterBlanksAndWord? "step" cs with
  | some rest => restAfter? 1 false rest
  | none => none

/-- The stop and the step of a header. -/
def stopPart? : List Char → Option (String × Option String) :=
  firstCut (fun stop rest =>
    match stepPart? rest with
    | some step => some (String.ofList stop, some step)
    | none => if rest.isEmpty then some (String.ofList stop, none) else none) []

/-- The start, the stop and the step of a header. -/
def bounds? : List Char → Option (String × String × Option String) :=
  firstCut (fun start rest =>
    match afterBlanksAndWord? "to" rest with
    | none => none
    | some rest =>
      (skippingBlanks 1 stopPart? rest).map fun stop => (String.ofList start, stop)) []

/-- The parts of the header `$name = start to stop` or `$name = start to stop step width`. -/
def forHeader? (cs : List Char) : Option ForHeader :=
  match dollarName? Text.isWordChar cs with
  | none => none
  | some (name, after) =>
    match Text.trimStart after with
    | '=' :: after =>
      (skippingBlanks 0 bounds? after).map fun (start, stop, step) => ⟨name, start, stop, step⟩
    | _ => none

/-- A header starts with its name after a dollar sign. -/
theorem dollarName?_of_forHeader? {cs : List Char} {header : ForHeader}
    (h : forHeader? cs = some header) :
    ∃ after, dollarName? Text.isWordChar cs = some (header.name, after) := by
  rw [forHeader?] at h
  cases hname : dollarName? Text.isWordChar cs with
  | none => simp [hname] at h
  | some found =>
    obtain ⟨name, after⟩ := found
    simp only [hname] at h
    split at h
    · obtain ⟨bounds, -, rfl⟩ := Option.map_eq_some_iff.1 h
      exact ⟨after, rfl⟩
    · cases h

end Pattern

end LineScript
