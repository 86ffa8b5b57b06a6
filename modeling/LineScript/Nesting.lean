import LineScript.ScriptError
import LineScript.Text.Blank

set_option relaxedAutoImplicit false
set_option autoImplicit false

/-!
# Nested literals

Strings, collections and calls are delimited literals: `'…'`, `"…"`, `[…]` and `{…}`. One scan over
the characters tells which of them are open. It counts open brackets and open braces apart from
each other, and inside a string it looks for the closing quote only, where a backslash takes the
next character with it.

## Main definitions

* `LineScript.Nesting` — the state of the scan; `LineScript.Nesting.feed` reads a character.
* `LineScript.Nesting.takeLiteral` — the text up to the end of the open literal.
* `LineScript.Nesting.pieces`, `LineScript.splitList` — a text cut at its commas outside literals.
-/

namespace LineScript

/-- The two quotes. -/
inductive Quote where
  | single
  | double
  deriving Repr, DecidableEq

/-- The character of a quote. -/
def Quote.char : Quote → Char
  | .single => '\''
  | .double => '"'

/-- What is open at a point of a text: a string, possibly right after a backslash, and the numbers
of open brackets and braces around it. -/
structure Nesting where
  quote : Option Quote := none
  escaped : Bool := false
  brackets : Nat := 0
  braces : Nat := 0
  deriving Repr, DecidableEq

namespace Nesting

/-- Nothing is open. -/
def start : Nesting := {}

/-- Whether nothing is open. -/
def atTop (n : Nesting) : Bool :=
  n.quote.isNone && n.brackets == 0 && n.braces == 0

/-- The state after a character inside a string. -/
def feedQuoted (n : Nesting) (quote : Quote) (c : Char) : Nesting :=
  if n.escaped then { n with escaped := false }
  else if c = '\\' then { n with escaped := true }
  else if c = quote.char then { n with quote := none }
  else n

/-- The state after a character outside strings. A closing bracket or brace without an open one is
an error. -/
def feedPlain (n : Nesting) (c : Char) : Except ScriptError Nesting :=
  match c with
  | '\'' => .ok { n with quote := some .single }
  | '"' => .ok { n with quote := some .double }
  | '[' => .ok { n with brackets := n.brackets + 1 }
  | '\x7b' => .ok { n with braces := n.braces + 1 }
  | ']' =>
    match n.brackets with
    | 0 => .error (.unexpectedCloser .collection)
    | k + 1 => .ok { n with brackets := k }
  | '\x7d' =>
    match n.braces with
    | 0 => .error (.unexpectedCloser .call)
    | k + 1 => .ok { n with braces := k }
  | _ => .ok n

/-- The state after one more character. -/
def feed (n : Nesting) (c : Char) : Except ScriptError Nesting :=
  match n.quote with
  | some quote => .ok (n.feedQuoted quote c)
  | none => n.feedPlain c

/-- The delimiter reported when the text ends here: a string, else a bracket, else a brace. -/
def unterminated? (n : Nesting) : Option Delimiter :=
  if n.quote.isSome then some .string
  else if n.brackets ≠ 0 then some .collection
  else if n.braces ≠ 0 then some .call
  else none

/-- The text of the open literal up to the character that closes it, and the text after that
character. -/
def takeLiteral (n : Nesting) : List Char → Except ScriptError (List Char × List Char)
  | [] => .error (n.unterminated?.elim .internal .unterminated)
  | c :: cs =>
    match n.feed c with
    | .error e => .error e
    | .ok n =>
      if n.atTop then .ok ([], cs)
      else
        match n.takeLiteral cs with
        | .error e => .error e
        | .ok (inner, rest) => .ok (c :: inner, rest)

/-- A character put in front of the first piece. -/
def consFirst (c : Char) : List (List Char) → List (List Char)
  | [] => [[c]]
  | piece :: pieces => (c :: piece) :: pieces

/-- The pieces of a text between its commas outside literals, not yet trimmed. -/
def pieces (n : Nesting) : List Char → Except ScriptError (List (List Char))
  | [] =>
    match n.unterminated? with
    | some delimiter => .error (.unterminated delimiter)
    | none => .ok [[]]
  | c :: cs =>
    if c = ',' ∧ n.atTop then
      match n.pieces cs with
      | .error e => .error e
      | .ok ps => .ok ([] :: ps)
    else
      match n.feed c with
      | .error e => .error e
      | .ok n =>
        match n.pieces cs with
        | .error e => .error e
        | .ok ps => .ok (consFirst c ps)

/-! ## What can be read -/

variable {n n' : Nesting} {c : Char} {cs inner rest : List Char} {ps : List (List Char)}

/-- The ways in which a character outside strings is read. A closing bracket or brace has its
opening one before it, and a character that is no delimiter changes nothing anywhere. -/
inductive PlainStep (n : Nesting) : Char → Nesting → Prop
  | quote (quote : Quote) : PlainStep n quote.char { n with quote := some quote }
  | openBracket : PlainStep n '[' { n with brackets := n.brackets + 1 }
  | openBrace : PlainStep n '\x7b' { n with braces := n.braces + 1 }
  | closeBracket (k : Nat) : n.brackets = k + 1 → PlainStep n ']' { n with brackets := k }
  | closeBrace (k : Nat) : n.braces = k + 1 → PlainStep n '\x7d' { n with braces := k }
  | other {c : Char} : (∀ m : Nesting, m.feedPlain c = .ok m) → PlainStep n c n

/-- A character that can be read outside strings is read in one of these ways. -/
theorem plainStep_of_feedPlain (h : n.feedPlain c = .ok n') : n.PlainStep c n' := by
  unfold feedPlain at h
  split at h
  · cases h
    exact .quote .single
  · cases h
    exact .quote .double
  · cases h
    exact .openBracket
  · cases h
    exact .openBrace
  · cases hbrackets : n.brackets with
    | zero => simp [hbrackets] at h
    | succ k =>
      obtain rfl : { n with brackets := k } = n' := by simpa [hbrackets] using h
      exact .closeBracket k hbrackets
  · cases hbraces : n.braces with
    | zero => simp [hbraces] at h
    | succ k =>
      obtain rfl : { n with braces := k } = n' := by simpa [hbraces] using h
      exact .closeBrace k hbraces
  · cases h
    exact .other fun m => by simp_all [feedPlain]

/-- A character that cannot be read outside strings is a closing bracket or brace without its
opening one. -/
theorem cases_of_feedPlain_error {e : ScriptError} (h : n.feedPlain c = .error e) :
    (c = ']' ∧ n.brackets = 0 ∧ e = .unexpectedCloser .collection) ∨
      (c = '\x7d' ∧ n.braces = 0 ∧ e = .unexpectedCloser .call) := by
  unfold feedPlain at h
  split at h
  · cases h
  · cases h
  · cases h
  · cases h
  · cases hbrackets : n.brackets with
    | zero => exact .inl ⟨rfl, rfl, by simpa [hbrackets, eq_comm] using h⟩
    | succ k => simp [hbrackets] at h
  · cases hbraces : n.braces with
    | zero => exact .inr ⟨rfl, rfl, by simpa [hbraces, eq_comm] using h⟩
    | succ k => simp [hbraces] at h
  · cases h

/-- A literal is taken from a text whose first character closes it, or belongs to it. -/
theorem cases_of_takeLiteral (h : n.takeLiteral (c :: cs) = .ok (inner, rest)) :
    ∃ n', n.feed c = .ok n' ∧
      (n'.atTop = true ∧ inner = [] ∧ rest = cs ∨
        n'.atTop = false ∧ ∃ more, n'.takeLiteral cs = .ok (more, rest) ∧ inner = c :: more) := by
  rw [takeLiteral] at h
  cases hfeed : n.feed c with
  | error e => simp [hfeed] at h
  | ok n' =>
    refine ⟨n', rfl, ?_⟩
    cases htop : n'.atTop with
    | true =>
      obtain ⟨rfl, rfl⟩ : inner = [] ∧ rest = cs := by simpa [hfeed, htop, eq_comm] using h
      exact .inl ⟨rfl, rfl, rfl⟩
    | false =>
      cases htake : n'.takeLiteral cs with
      | error e => simp [hfeed, htop, htake] at h
      | ok taken =>
        obtain ⟨more, rest'⟩ := taken
        obtain ⟨rfl, rfl⟩ : inner = c :: more ∧ rest = rest' := by
          simpa [hfeed, htop, htake, eq_comm] using h
        exact .inr ⟨rfl, more, rfl, rfl⟩

/-- A text is cut up to its end only if nothing is open there. -/
theorem pieces_nil_eq_ok (h : n.pieces [] = .ok ps) : n.unterminated? = none ∧ ps = [[]] := by
  rw [pieces] at h
  cases hopen : n.unterminated? with
  | some delimiter => simp [hopen] at h
  | none => exact ⟨rfl, by simpa [hopen, eq_comm] using h⟩

/-- The first character of a text that is cut into pieces is a comma that cuts it, or belongs to the
first piece. -/
theorem cases_of_pieces (h : n.pieces (c :: cs) = .ok ps) :
    ((c = ',' ∧ n.atTop = true) ∧ ∃ ps', n.pieces cs = .ok ps' ∧ ps = [] :: ps') ∨
    (¬(c = ',' ∧ n.atTop = true) ∧ ∃ n' ps', n.feed c = .ok n' ∧ n'.pieces cs = .ok ps' ∧
      ps = consFirst c ps') := by
  rw [pieces] at h
  by_cases hcomma : c = ',' ∧ n.atTop = true
  · rw [if_pos hcomma] at h
    cases hpieces : n.pieces cs with
    | error e => simp [hpieces] at h
    | ok ps' => exact .inl ⟨hcomma, ps', rfl, by simpa [hpieces, eq_comm] using h⟩
  · rw [if_neg hcomma] at h
    cases hfeed : n.feed c with
    | error e => simp [hfeed] at h
    | ok n' =>
      cases hpieces : n'.pieces cs with
      | error e => simp [hfeed, hpieces] at h
      | ok ps' =>
        exact .inr ⟨hcomma, n', ps', rfl, hpieces, by simpa [hfeed, hpieces, eq_comm] using h⟩

/-- What is left after a literal is shorter than the text it was taken from. -/
theorem length_takeLiteral (h : n.takeLiteral cs = .ok (inner, rest)) :
    inner.length + rest.length < cs.length := by
  induction cs generalizing n inner with
  | nil => simp [takeLiteral] at h
  | cons c cs ih =>
    obtain ⟨n', -, ⟨-, rfl, rfl⟩ | ⟨-, more, htake, rfl⟩⟩ := cases_of_takeLiteral h
    · simp
    · have hlength := ih htake
      simp only [List.length_cons]
      omega

end Nesting

/-- The trimmed items of a list, cut at the commas outside literals. A blank text has no item. -/
def splitList (s : String) : Except ScriptError (List String) :=
  if Text.trimChars s.toList = [] then .ok []
  else
    match Nesting.start.pieces s.toList with
    | .error e => .error e
    | .ok ps => .ok (ps.map fun piece => String.ofList (Text.trimChars piece))

/-- The items of a list are its pieces, trimmed, if it is not blank. -/
theorem cases_of_splitList {s : String} {items : List String} (h : splitList s = .ok items) :
    (Text.trimChars s.toList = [] ∧ items = []) ∨
    (Text.trimChars s.toList ≠ [] ∧ ∃ ps, Nesting.start.pieces s.toList = .ok ps ∧
      items = ps.map fun piece => String.ofList (Text.trimChars piece)) := by
  rw [splitList] at h
  by_cases hblank : Text.trimChars s.toList = []
  · exact .inl ⟨hblank, by simpa [hblank, eq_comm] using h⟩
  · rw [if_neg hblank] at h
    cases hpieces : Nesting.start.pieces s.toList with
    | error e => simp [hpieces] at h
    | ok ps => exact .inr ⟨hblank, ps, rfl, by simpa [hpieces, eq_comm] using h⟩

end LineScript
