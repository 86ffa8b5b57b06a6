import LineScript.Proofs.Formula.Literal

set_option relaxedAutoImplicit false
set_option autoImplicit false

/-!
# Interpolation

Any text, with references to variables at any places of it, can be written between double quotes: a
backslash goes in front of every backslash, double quote and dollar sign of the text. The literal is
one token, and its value is the text with the texts of the variables at their places, each of them
read once and from left to right. All that must not happen is that the text after a reference goes
on with the path.

## Main definitions

* `LineScript.Quoted.Part` — a text, or a reference to a variable.
* `LineScript.Quoted.literal` — parts as a double-quoted literal.
* `LineScript.Quoted.Separated` — no text after a reference goes on with its path.
* `LineScript.Quoted.spell` — the text of parts, for the values of their references.
* `LineScript.Formula.Reads` — paths that are read one after another.

## Main results

* `LineScript.Quoted.segments_written` — what is written is taken apart again.
* `LineScript.Nesting.encloses_written` — what is written is one literal.
* `LineScript.Formula.evaluate_interpolated` — the value of a written literal.
-/

namespace LineScript

namespace Quoted

/-! ## Writing parts -/

/-- A part of an interpolated text: a text, or a reference to the variable at a path. -/
inductive Part where
  | text (s : String)
  | reference (path : String)
  deriving Repr, DecidableEq

/-- A character between double quotes, with a backslash in front of it where it would be taken for
something else. -/
def shielded (c : Char) : List Char :=
  if c = '\\' ∨ c = '"' ∨ c = '$' then ['\\', c] else [c]

/-- A part as it is written. -/
def Part.written : Part → List Char
  | .text s => s.toList.flatMap shielded
  | .reference path => '$' :: path.toList

/-- A part as it is taken apart. -/
def Part.segments : Part → List Segment
  | .text s => s.toList.map .char
  | .reference path => [.reference path]

/-- Parts as a double-quoted literal. -/
def literal (parts : List Part) : String :=
  String.ofList ('"' :: (parts.flatMap Part.written ++ ['"']))

/-- The paths of the references, in order. -/
def references (parts : List Part) : List String :=
  parts.filterMap fun
    | .text _ => none
    | .reference path => some path

/-- The text of parts, for the values of their references in order. -/
def spell : List Part → List Value → String
  | .text s :: parts, vs => s ++ spell parts vs
  | .reference _ :: parts, v :: vs => v.text ++ spell parts vs
  | _, _ => ""

/-- Whether a path starts with a letter or an underscore, goes on with letters, digits, underscores
and dots, and does not end in a dot. -/
def IsPath (path : String) : Prop :=
  ∃ first rest, path.toList = first :: rest ∧ Text.isNameStart first = true ∧
    (∀ c ∈ rest, Text.isPathChar c = true) ∧ path.toList.getLast? ≠ some '.'

/-- Whether a text after a path leaves the path as it is: it does not start with a letter, a digit
or an underscore, nor with dots and one of these. -/
def EndsPath (cs : List Char) : Prop :=
  ∀ c ∈ (cs.dropWhile (· == '.')).head?, Text.isNameChar c = false

/-- Whether a text ends a path can be decided: one character of it is looked at. -/
instance (cs : List Char) : Decidable (EndsPath cs) :=
  decidable_of_iff ((cs.dropWhile (· == '.')).head?.all fun c => !Text.isNameChar c) (by
    unfold EndsPath
    cases (cs.dropWhile (· == '.')).head? <;> simp)

/-- The text up to the first reference. -/
def leadingText : List Part → List Char
  | .text s :: parts => s.toList ++ leadingText parts
  | _ => []

/-- The references have paths, and no text after a reference goes on with its path. -/
def Separated : List Part → Prop
  | [] => True
  | .text _ :: parts => Separated parts
  | .reference path :: parts => IsPath path ∧ EndsPath (leadingText parts) ∧ Separated parts

/-! ## Taking a literal apart -/

/-- A dot does not decide whether a path ends: what comes after it does. -/
theorem endsPath_dot {cs : List Char} : EndsPath ('.' :: cs) ↔ EndsPath cs := Iff.rfl

/-- A character that no path holds ends every path. -/
theorem endsPath_of_not_isPathChar {c : Char} (h : Text.isPathChar c = false) (cs : List Char) :
    EndsPath (c :: cs) := by
  rw [Text.isPathChar, Bool.or_eq_false_iff] at h
  intro d hd
  rw [List.dropWhile_cons_of_neg (by simp [h.2])] at hd
  cases hd
  exact h.1

/-- The path characters that come first are dots only. -/
theorem EndsPath.eq_dot {cs : List Char} (h : EndsPath cs) :
    ∀ c ∈ cs.takeWhile Text.isPathChar, c = '.' := by
  induction cs with
  | nil => simp
  | cons c cs ih =>
    by_cases hdot : c = '.'
    · subst hdot
      rw [List.takeWhile_cons_of_pos (by decide)]
      exact List.forall_mem_cons.2 ⟨rfl, ih (endsPath_dot.1 h)⟩
    · have hname : Text.isNameChar c = false := by
        refine h c ?_
        rw [List.dropWhile_cons_of_neg (by simpa using hdot)]
        rfl
      rw [List.takeWhile_cons_of_neg (by simp [Text.isPathChar, hname, hdot])]
      simp

/-- Texts do not go on with a path either when they are written. By induction on the text, whose
dots are all that is written as it is. -/
theorem endsPath_shielded {s more after : List Char} (h : EndsPath (s ++ more))
    (hafter : EndsPath more → EndsPath after) : EndsPath (s.flatMap shielded ++ after) := by
  induction s with
  | nil => exact hafter h
  | cons c s ih =>
    rw [List.flatMap_cons, List.append_assoc]
    by_cases hdot : c = '.'
    · subst hdot
      exact endsPath_dot.2 (ih (endsPath_dot.1 h))
    · have hpath : Text.isPathChar c = false := by
        have hname : Text.isNameChar c = false := by
          refine h c ?_
          rw [List.cons_append, List.dropWhile_cons_of_neg (by simpa using hdot)]
          rfl
        simp [Text.isPathChar, hname, hdot]
      unfold shielded
      split
      · exact endsPath_of_not_isPathChar (by decide) _
      · exact endsPath_of_not_isPathChar hpath _

/-- What ends a path is the text before the first reference, as it is spelled: a shielded character
starts with a backslash, and a reference with a dollar sign. -/
theorem endsPath_written {parts : List Part} (h : EndsPath (leadingText parts)) :
    EndsPath (parts.flatMap Part.written) := by
  induction parts with
  | nil => exact h
  | cons part parts ih =>
    rw [List.flatMap_cons]
    cases part with
    | text s => exact endsPath_shielded h ih
    | reference path => exact endsPath_of_not_isPathChar (by decide) _

/-- A path is read up to its end, and the dots after it are left. -/
theorem path?_append {path : String} (hpath : IsPath path) {rest : List Char}
    (hrest : EndsPath rest) :
    path? (path.toList ++ rest) = some path.toList := by
  obtain ⟨first, more, htext, hstart, hmore, hlast⟩ := hpath
  have hall : ∀ c ∈ path.toList, Text.isPathChar c = true := by
    rw [htext]
    exact List.forall_mem_cons.2 ⟨Text.isPathChar_of_isNameStart hstart, hmore⟩
  have hdots : ∀ c ∈ (rest.takeWhile Text.isPathChar).reverse, (c == '.') = true := fun c hc => by
    rw [hrest.eq_dot c (List.mem_reverse.1 hc)]
    rfl
  have hend : path.toList.reverse.dropWhile (· == '.') = path.toList.reverse := by
    rw [List.dropWhile_eq_self_iff]
    intro hpos hdot
    refine hlast ?_
    rw [← List.head?_reverse, List.head?_eq_getElem?, List.getElem?_eq_getElem hpos]
    exact congrArg some (beq_iff_eq.1 hdot)
  -- the path characters reach into the dots of the rest, which are given back
  have htake : ((path.toList ++ rest).takeWhile Text.isPathChar).reverse.dropWhile (· == '.') =
      path.toList.reverse := by
    rw [List.takeWhile_append_of_pos hall, List.reverse_append,
      List.dropWhile_append_of_pos hdots, hend]
  rw [htext] at htake ⊢
  rw [List.cons_append, path?, if_pos hstart]
  rw [List.cons_append] at htake
  rw [htake, List.reverse_reverse]

/-- A shielded character is read as itself. -/
theorem segments_shielded (c : Char) (rest : List Char) :
    segments (shielded c ++ rest) = .char c :: segments rest := by
  unfold shielded
  by_cases hc : c = '\\' ∨ c = '"' ∨ c = '$'
  · rw [if_pos hc]
    have hescape : escape? c = some c := by
      rcases hc with rfl | rfl | rfl
      · rfl
      · rfl
      · rfl
    rw [List.cons_append, List.cons_append, List.nil_append, segments, hescape]
  · rw [if_neg hc]
    rw [not_or, not_or] at hc
    rw [List.cons_append, List.nil_append, segments, if_neg hc.2.2]
    · rintro rfl
      exact absurd rfl hc.1
    · rintro _ _ rfl
      exact absurd rfl hc.1

/-- A path is read as a reference, up to where it ends. -/
theorem segments_reference {path : String} (hpath : IsPath path) {rest : List Char}
    (hrest : EndsPath rest) :
    segments ('$' :: (path.toList ++ rest)) = .reference path :: segments rest := by
  rw [segments, if_pos rfl, path?_append hpath hrest]
  · simp
  · simp
  · simp

/-- **What is written is taken apart again.** -/
theorem segments_written {parts : List Part} (h : Separated parts) :
    segments (parts.flatMap Part.written) = parts.flatMap Part.segments := by
  induction parts with
  | nil => rw [List.flatMap_nil, segments, List.flatMap_nil]
  | cons part parts ih =>
    rw [List.flatMap_cons, List.flatMap_cons]
    cases part with
    | text s =>
      rw [← ih h]
      change segments (s.toList.flatMap shielded ++ _) = s.toList.map .char ++ _
      induction s.toList with
      | nil => rfl
      | cons c cs ihs =>
        rw [List.flatMap_cons, List.append_assoc, segments_shielded, ihs, List.map_cons,
          List.cons_append]
    | reference path =>
      obtain ⟨hpath, hends, hparts⟩ := h
      rw [← ih hparts]
      exact segments_reference hpath (endsPath_written hends)

end Quoted

/-! ## One token -/

/-- The scan stays inside a string over a character that does not mean anything to it. -/
theorem Nesting.within_ordinary {cs : List Char} (h : ∀ c ∈ cs, c ≠ '\\' ∧ c ≠ '"') :
    Within { quote := some .double } cs { quote := some .double } := by
  induction cs with
  | nil => exact .nil
  | cons c cs ih =>
    obtain ⟨hc, hcs⟩ := List.forall_mem_cons.1 h
    refine .cons ?_ rfl (ih hcs)
    simp [feed, feedQuoted, Quote.char, hc.1, hc.2]

/-- A shielded character does not end the string. -/
theorem Nesting.within_shielded (c : Char) :
    Within { quote := some .double } (Quoted.shielded c) { quote := some .double } := by
  unfold Quoted.shielded
  by_cases hc : c = '\\' ∨ c = '"' ∨ c = '$'
  · rw [if_pos hc]
    exact .cons rfl rfl (.cons rfl rfl .nil)
  · rw [if_neg hc]
    rw [not_or, not_or] at hc
    exact within_ordinary (by simpa using ⟨hc.1, hc.2.1⟩)

/-- What is written between the double quotes does not end the string.

**Proof sketch.** Induction on the parts. In a text each character is shielded (`within_shielded`),
which takes a second induction; the characters of a reference are neither quotes nor backslashes. -/
theorem Nesting.within_written {parts : List Quoted.Part} (h : Quoted.Separated parts) :
    Within { quote := some .double } (parts.flatMap Quoted.Part.written)
      { quote := some .double } := by
  induction parts with
  | nil => exact .nil
  | cons part parts ih =>
    rw [List.flatMap_cons]
    cases part with
    | text s =>
      refine Within.append ?_ (ih h)
      change Within _ (s.toList.flatMap Quoted.shielded) _
      induction s.toList with
      | nil => exact .nil
      | cons c cs ihs => exact (within_shielded c).append ihs
    | reference path =>
      obtain ⟨⟨first, rest, htext, hstart, hrest, -⟩, -, hparts⟩ := h
      refine Within.append (within_ordinary fun c hc => ?_) (ih hparts)
      have hpath : c = '$' ∨ Text.isPathChar c = true := by
        rw [Quoted.Part.written, htext, List.mem_cons, List.mem_cons] at hc
        rcases hc with rfl | rfl | hc
        · exact .inl rfl
        · exact .inr (Text.isPathChar_of_isNameStart hstart)
        · exact .inr (hrest c hc)
      constructor
      · rintro rfl
        revert hpath
        decide
      · rintro rfl
        revert hpath
        decide

/-- **What is written is one literal.** -/
theorem Nesting.encloses_written {parts : List Quoted.Part} (h : Quoted.Separated parts) :
    Encloses { quote := some .double } (parts.flatMap Quoted.Part.written) '"' := by
  have hlast : Encloses { quote := some .double } [] '"' := .close rfl rfl
  have hencloses := (within_written h).encloses hlast
  rwa [List.append_nil] at hencloses

namespace Formula

open Quoted

variable {σ : Type} {host : Host σ}

/-- A double-quoted literal is one token, with its text as written. -/
theorem tokens_literal {parts : List Part} (h : Separated parts) :
    tokens (literal parts) = .ok [.doubleQuoted (String.ofList (parts.flatMap Part.written))] :=
  tokens_of_operand (.literal '"' _ .doubleQuoted _ '"' rfl (Nesting.encloses_written h))

/-- A reference is one token. -/
theorem tokens_reference {path : String} (h : IsPath path) :
    tokens ("$" ++ path) = .ok [.reference path] := by
  obtain ⟨first, rest, htext, hstart, hrest, -⟩ := h
  have hsource : "$" ++ path = String.ofList ('$' :: first :: rest) := by
    rw [← String.ofList_toList (s := "$" ++ path), String.toList_append, htext]
    rfl
  have hpath : path = String.ofList (first :: rest) := by
    rw [← htext, String.ofList_toList]
  have htokens := tokens_of_operand (.reference first rest hstart hrest)
  rw [Operand.token, ← hpath] at htokens
  rw [hsource]
  exact htokens

/-! ## The value of a literal -/

/-- The paths are read one after another, and all of them have values. -/
inductive Reads (host : Host σ) : List String → σ → List Value → σ → Prop
  | nil {s : σ} : Reads host [] s [] s
  | cons {path : String} {paths : List String} {v : Value} {vs : List Value} {s t u : σ} :
      (host.readVariable path).runFrom s = .ok (.ok v, t) → Reads host paths t vs u →
        Reads host (path :: paths) s (v :: vs) u

/-- Paths with values are read one after another, to those values. -/
theorem Reads.runFrom_mapM {paths : List String} {s t : σ} {vs : List Value}
    (h : Reads host paths s vs t) : (paths.mapM host.readVariable).runFrom s = .ok (.ok vs, t) := by
  induction h with
  | nil => rfl
  | cons hread _ ih =>
    rw [List.mapM_cons, Action.runFrom_bind, hread]
    simp only [Action.runFrom_bind, ih, Action.runFrom_pure]

/-- The first path that cannot be read is the end of it. -/
theorem Reads.runFrom_mapM_fails {before after : List String} {path : String} {s t u : σ}
    {vs : List Value} {e : ScriptError} (h : Reads host before s vs t)
    (hread : (host.readVariable path).runFrom t = .ok (.error e, u)) :
    ((before ++ path :: after).mapM host.readVariable).runFrom s = .ok (.error e, u) := by
  induction h with
  | nil => rw [List.nil_append, List.mapM_cons, Action.runFrom_bind, hread]
  | cons hfirst _ ih =>
    rw [List.cons_append, List.mapM_cons, Action.runFrom_bind, hfirst]
    simp only [Action.runFrom_bind, ih hread]

/-- Characters stand for themselves, whatever the host. -/
theorem mapM_char (host : Host σ) (cs : List Char) :
    (cs.map Segment.char).mapM (segmentText host) = pure (cs.map Char.toString) := by
  induction cs with
  | nil => rfl
  | cons c cs ih => simp [List.mapM_cons, segmentText, ih]

/-- The texts of the segments, joined, are what is spelled with the values that have been read.

**Proof sketch.** Induction on the parts. The segments of a text are its characters, which are
spelled without an effect; those of a reference read its variable first, and so does the right-hand
side. -/
theorem mapM_segments (host : Host σ) (parts : List Part) :
    (do let texts ← (parts.flatMap Part.segments).mapM (segmentText host)
        pure (String.join texts)) =
      (do let vs ← (references parts).mapM host.readVariable
          pure (spell parts vs) : Action σ String) := by
  induction parts with
  | nil => rfl
  | cons part parts ih =>
    rw [List.flatMap_cons, List.mapM_append, bind_assoc]
    cases part with
    | text s =>
      have hnext := congrArg (fun act => act >>= fun text => pure (s ++ text)) ih
      have hchars : String.join (s.toList.map Char.toString) = s := by
        rw [← String.toList_inj, String.toList_join, List.flatMap_map]
        simp [Char.toString, List.flatMap_singleton']
      simp only [bind_assoc, pure_bind] at hnext
      simp only [Part.segments, mapM_char, bind_assoc, pure_bind, String.join_append, hchars]
      exact hnext
    | reference path =>
      simp only [Part.segments, references, List.filterMap_cons, List.mapM_cons, List.mapM_nil,
        segmentText, bind_assoc, pure_bind, String.join_append]
      refine congrArg _ (funext fun v => ?_)
      have hnext := congrArg (fun act => act >>= fun text => pure (v.text ++ text)) ih
      have hone : String.join [v.text] = v.text := by simp
      simp only [bind_assoc, pure_bind] at hnext
      rw [hone]
      exact hnext

/-- A formula is evaluated through its tokens. -/
theorem evaluate_of_tokens {src : String} {ts : List Token} (h : tokens src = .ok ts) :
    evaluate host src = evaluateTokensWith host (evaluateWithin host src.length) ts := by
  rw [evaluate, evaluateWithin, h]
  rfl

/-- **A double-quoted literal reads its references from left to right**, and has the text in which
the values stand for them. -/
theorem evaluate_literal_parts (host : Host σ) {parts : List Part} (h : Separated parts) :
    evaluate host (literal parts) = (do
      let vs ← (references parts).mapM host.readVariable
      pure (.str (spell parts vs))) := by
  have hspell := congrArg (fun act => act >>= fun text => pure (Value.str text))
    (mapM_segments host parts)
  simp only [bind_assoc, pure_bind] at hspell
  rw [evaluate_of_tokens (tokens_literal h)]
  simp only [evaluateTokensWith, List.foldlM_cons, List.foldlM_nil, stepToken, interpolate,
    String.toList_ofList, segments_written h, bind_assoc, pure_bind]
  exact hspell

/-- A reference alone is read. -/
theorem evaluate_reference {path : String} (h : IsPath path) :
    evaluate host ("$" ++ path) = host.readVariable path := by
  rw [evaluate_of_tokens (tokens_reference h)]
  simp only [evaluateTokensWith, List.foldlM_cons, List.foldlM_nil, stepToken, bind_assoc,
    pure_bind, bind_pure]

/-- **The interpolation law.** Parts of which no text goes on with the path of a reference before
it, written between double quotes, are one token. In every surrounding it is evaluated by reading
the references once each, from left to right, and its value is the string of the texts and of the
texts of the values that have been read. If one of them cannot be read, that is the error, and no
other is read after it. In particular a reference between double quotes has the text of what the
reference has alone.

**Proof sketch.** A text is written so that the scan for the closing quote stays inside it
(`Nesting.within_written`) and each of its characters is taken for itself
(`Quoted.segments_shielded`). A path is read as far as path characters go, and gives back the dots
at the end of them; since the written text ends the path as the text does
(`Quoted.endsPath_written`), these are the dots of the text. -/
theorem evaluate_interpolated {parts : List Part} (h : Separated parts) {σ : Type} (host : Host σ) :
    tokens (literal parts) = .ok [.doubleQuoted (String.ofList (parts.flatMap Part.written))] ∧
    evaluate host (literal parts) = (do
      let vs ← (references parts).mapM host.readVariable
      pure (.str (spell parts vs))) ∧
    (∀ s vs t, Reads host (references parts) s vs t →
      (evaluate host (literal parts)).runFrom s = .ok (.ok (.str (spell parts vs)), t)) ∧
    (∀ before path after s vs t e u, references parts = before ++ path :: after →
      Reads host before s vs t → (host.readVariable path).runFrom t = .ok (.error e, u) →
      (evaluate host (literal parts)).runFrom s = .ok (.error e, u)) ∧
    ∀ path, IsPath path → evaluate host ("\"$" ++ path ++ "\"") = (do
      let v ← evaluate host ("$" ++ path)
      pure (.str v.text)) := by
  have hvalue := evaluate_literal_parts host h
  refine ⟨tokens_literal h, hvalue, ?_, ?_, ?_⟩
  · intro s vs t hreads
    rw [hvalue, Action.runFrom_bind, hreads.runFrom_mapM]
    rfl
  · intro before path after s vs t e u hreferences hreads hfails
    rw [hvalue, Action.runFrom_bind, hreferences, hreads.runFrom_mapM_fails hfails]
  · intro path hpath
    have hparts : Separated [.reference path] := ⟨hpath, by simp [EndsPath, leadingText], trivial⟩
    have hliteral : "\"$" ++ path ++ "\"" = literal [.reference path] := by
      rw [← String.toList_inj, literal]
      simp [Part.written]
    rw [hliteral, evaluate_literal_parts host hparts, evaluate_reference hpath]
    simp [references, spell]

/-- A text with quotes, backslashes, dollar signs and dots between references. -/
def trickyParts : List Part :=
  [.text "\\\"", .reference "user.name", .text ".", .text "..", .reference "_x1", .reference "y",
    .text ". $5\n"]

/-- A host that gives each variable its path as its value, and keeps the paths that have been read.
-/
def echoHost : Host (List String) where
  readVariable path := do
    modify (path :: ·)
    pure (.str path)
  callFunction _ _ := throw .internal

/-- The variables are read in the order of the text, and the dots after the first of them are text.
-/
theorem evaluate_interpolated_trickyParts :
    Separated trickyParts ∧
    literal trickyParts = "\"\\\\\\\"$user.name...$_x1$y. \\$5\n\"" ∧
    (evaluate echoHost (literal trickyParts)).runFrom [] =
      .ok (.ok (.str "\\\"user.name..._x1y. $5\n"), ["y", "_x1", "user.name"]) := by
  have hparts : Separated trickyParts := by
    refine ⟨⟨'u', "ser.name".toList, rfl, rfl, List.all_eq_true.1 rfl, by decide⟩, by decide,
      ⟨'_', ['x', '1'], rfl, rfl, List.all_eq_true.1 rfl, by decide⟩, by decide,
      ⟨'y', [], rfl, rfl, by simp, by decide⟩, by decide, trivial⟩
  have hreads : Reads echoHost (references trickyParts) []
      [.str "user.name", .str "_x1", .str "y"] ["y", "_x1", "user.name"] :=
    .cons rfl (.cons rfl (.cons rfl .nil))
  exact ⟨hparts, by decide, (evaluate_interpolated hparts echoHost).2.2.1 _ _ _ hreads⟩

end Formula

end LineScript
