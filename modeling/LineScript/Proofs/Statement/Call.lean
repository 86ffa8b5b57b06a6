import LineScript.Proofs.Formula.Depth

set_option relaxedAutoImplicit false
set_option autoImplicit false

/-!
# Calls as statements and as formulas

A line that calls a function may be put in braces and is then a formula. The two are read in
different ways: the line is cut into name and arguments as it stands, while the formula is scanned
up to its closing brace, trimmed, and only then cut. Arguments that form a list keep the scan within
the braces, and trimming the line trims its last argument, which is trimmed in any case. So both
evaluate the same arguments and make the same call.

## Main results

* `LineScript.Nesting.within_of_pieces` — a text that is cut into pieces stays within brackets and
  braces around it.
* `LineScript.splitList_trimEnd` — blanks at the end of a list make no difference to its items.
* `LineScript.Pattern.command?_trimChars` — a trimmed command has the same name and trimmed
  arguments.
* `LineScript.Formula.tokens_braced` — a call in braces is one token.
* `LineScript.Statement.call_as_formula` — a call does the same as a statement and as a formula.
-/

namespace LineScript

/-! ## Blanks at the end -/

namespace Text

/-- Nothing is left of blanks. -/
theorem trimEnd_of_isBlank {cs : List Char} (h : ∀ c ∈ cs, isBlank c = true) : trimEnd cs = [] := by
  unfold trimEnd
  rw [List.reverse_eq_nil_iff, List.dropWhile_eq_nil_iff]
  intro c hc
  exact h c (List.mem_reverse.1 hc)

/-- A text is its trimmed part and blanks. -/
theorem exists_eq_trimEnd_append (cs : List Char) :
    ∃ blanks, (∀ c ∈ blanks, isBlank c = true) ∧ cs = trimEnd cs ++ blanks := by
  refine ⟨(cs.reverse.takeWhile isBlank).reverse, fun c hc => ?_, ?_⟩
  · exact List.mem_takeWhile_imp (List.mem_reverse.1 hc)
  · rw [trimEnd, ← List.reverse_append, List.takeWhile_append_dropWhile, List.reverse_reverse]

/-- A character in front of texts that agree up to blanks at their end. -/
theorem trimEnd_cons_congr {cs ds : List Char} (c : Char) (h : trimEnd cs = trimEnd ds) :
    trimEnd (c :: cs) = trimEnd (c :: ds) := by
  rw [← List.singleton_append, Layout.trimEnd_append, h, ← Layout.trimEnd_append,
    List.singleton_append]

/-- A text that starts with no blank does so when trimmed. -/
theorem trimEnd_cons_of_not_blank {c : Char} (hc : isBlank c = false) (cs : List Char) :
    trimEnd (c :: cs) = c :: trimEnd cs := by
  rw [← List.singleton_append, Layout.trimEnd_append]
  by_cases hnil : trimEnd cs = []
  · rw [if_pos hnil, hnil]
    simp [trimEnd, hc]
  · rw [if_neg hnil, List.singleton_append]

/-- A text without blanks has nothing to trim at its end. -/
theorem trimEnd_of_not_blank {cs : List Char} (h : ∀ c ∈ cs, isBlank c = false) :
    trimEnd cs = cs := by
  induction cs with
  | nil => rfl
  | cons c cs ih =>
    rw [trimEnd_cons_of_not_blank (h c List.mem_cons_self), ih fun d hd =>
      h d (List.mem_cons_of_mem _ hd)]

/-- The two ends may be trimmed in either order. -/
theorem trimStart_trimEnd (cs : List Char) : trimStart (trimEnd cs) = trimChars cs := by
  induction cs with
  | nil => rfl
  | cons c cs ih =>
    cases hc : isBlank c with
    | false =>
      rw [trimChars, trimStart_cons_of_not_blank hc, trimEnd_cons_of_not_blank hc,
        trimStart_cons_of_not_blank hc]
    | true =>
      have hdrop : ∀ ds, trimStart (c :: ds) = trimStart ds := fun ds => by simp [trimStart, hc]
      rw [trimChars, hdrop]
      change _ = trimChars cs
      rw [← ih, ← List.singleton_append, Layout.trimEnd_append]
      by_cases hnil : trimEnd cs = []
      · rw [if_pos hnil, hnil, trimEnd_of_isBlank (by simpa using hc)]
      · rw [if_neg hnil, List.singleton_append, hdrop]

/-- Trimming at both ends trims at the end, too. -/
theorem trimChars_trimEnd (cs : List Char) : trimChars (trimEnd cs) = trimChars cs := by
  rw [← trimStart_trimEnd, trimEnd_trimEnd, trimStart_trimEnd]

end Text

/-! ## Lists -/

namespace Nesting

variable {n : Nesting} {cs : List Char} {ps : List (List Char)}

/-- Where nothing is open, an item may end. -/
theorem atTop_of_unterminated? (h : n.unterminated? = none) : n.atTop = true := by
  obtain ⟨quote, escaped, brackets, braces⟩ := n
  unfold unterminated? at h
  cases quote with
  | some q => cases h
  | none =>
    simp only [Option.isSome_none, Bool.false_eq_true, if_false] at h
    split at h
    · cases h
    · split at h
      · cases h
      · simp_all [atTop]

/-- Where an item may end, nothing is open. -/
theorem unterminated?_of_atTop (h : n.atTop = true) : n.unterminated? = none := by
  obtain ⟨quote, escaped, brackets, braces⟩ := n
  simp only [atTop, Bool.and_eq_true, beq_iff_eq, Option.isNone_iff_eq_none] at h
  obtain ⟨⟨rfl, rfl⟩, rfl⟩ := h
  rfl

/-- Where an item may end, no string is open. -/
theorem quote_of_atTop (h : n.atTop = true) : n.quote = none := by
  simp only [atTop, Bool.and_eq_true, Option.isNone_iff_eq_none] at h
  exact h.1.1

/-- **A text that is cut into pieces** stays within brackets and braces around it. -/
theorem within_of_pieces (h : n.pieces cs = .ok ps) {k l : Nat} (hkl : 0 < k + l) :
    ∃ m : Nesting, m.atTop = true ∧ Within (n.deeper k l) cs (m.deeper k l) := by
  induction cs generalizing n ps with
  | nil => exact ⟨n, atTop_of_unterminated? (pieces_nil_eq_ok h).1, .nil⟩
  | cons c cs ih =>
    obtain ⟨⟨rfl, htop⟩, ps', hpieces, -⟩ | ⟨-, n', ps', hfeed, hpieces, -⟩ := cases_of_pieces h
    · obtain ⟨m, hm, hwithin⟩ := ih hpieces
      have hfeed : n.feed ',' = .ok n := by
        rw [feed, quote_of_atTop htop]
        rfl
      exact ⟨m, hm, .cons (feed_deeper hfeed k l) (atTop_deeper _ hkl) hwithin⟩
    · obtain ⟨m, hm, hwithin⟩ := ih hpieces
      exact ⟨m, hm, .cons (feed_deeper hfeed k l) (atTop_deeper _ hkl) hwithin⟩

/-- Blanks that are cut into pieces are one piece, outside all literals. -/
theorem pieces_of_isBlank (hcs : ∀ c ∈ cs, Text.isBlank c = true) (h : n.pieces cs = .ok ps) :
    n.atTop = true ∧ ps = [cs] := by
  induction cs generalizing n ps with
  | nil =>
    obtain ⟨hnone, rfl⟩ := pieces_nil_eq_ok h
    exact ⟨atTop_of_unterminated? hnone, rfl⟩
  | cons c cs ih =>
    have hc := hcs c List.mem_cons_self
    obtain ⟨⟨rfl, -⟩, -⟩ | ⟨-, n', ps', hfeed, hpieces, rfl⟩ := cases_of_pieces h
    · cases hc
    · obtain ⟨htop', rfl⟩ := ih (fun d hd => hcs d (List.mem_cons_of_mem _ hd)) hpieces
      refine ⟨?_, rfl⟩
      rw [← Bool.not_eq_false]
      intro htop
      rw [atTop_feed_of_isBlank hc htop hfeed] at htop'
      cases htop'

/-- Without blanks at its end, a text has the same pieces, up to blanks at their ends. -/
theorem exists_pieces_of_append {blanks : List Char} (hblanks : ∀ c ∈ blanks, Text.isBlank c = true)
    (h : n.pieces (cs ++ blanks) = .ok ps) :
    ∃ ps', n.pieces cs = .ok ps' ∧ ps'.map Text.trimEnd = ps.map Text.trimEnd := by
  induction cs generalizing n ps with
  | nil =>
    obtain ⟨htop, rfl⟩ := pieces_of_isBlank hblanks h
    refine ⟨[[]], by rw [pieces, unterminated?_of_atTop htop], ?_⟩
    rw [List.map_singleton, List.map_singleton, Text.trimEnd_of_isBlank hblanks]
    rfl
  | cons c cs ih =>
    rw [List.cons_append] at h
    rw [pieces]
    obtain ⟨hcomma, ps₀, hpieces, rfl⟩ | ⟨hcomma, n', ps₀, hfeed, hpieces, rfl⟩ := cases_of_pieces h
    · obtain ⟨ps', hps', hmap⟩ := ih hpieces
      refine ⟨[] :: ps', by rw [if_pos hcomma, hps'], ?_⟩
      rw [List.map_cons, List.map_cons, hmap]
    · obtain ⟨ps', hps', hmap⟩ := ih hpieces
      obtain ⟨piece, rest, rfl, -⟩ := exists_of_pieces hpieces
      obtain ⟨piece', rest', rfl, -⟩ := exists_of_pieces hps'
      refine ⟨consFirst c (piece' :: rest'), by simp only [if_neg hcomma, hfeed, hps'], ?_⟩
      rw [List.map_cons, List.map_cons, List.cons.injEq] at hmap
      rw [consFirst, consFirst, List.map_cons, List.map_cons,
        Text.trimEnd_cons_congr c hmap.1, hmap.2]

end Nesting

/-- A list stays within brackets and braces around it. -/
theorem Nesting.within_of_splitList {list : String} {items : List String}
    (h : splitList list = .ok items) {k l : Nat} (hkl : 0 < k + l) :
    ∃ m : Nesting, m.atTop = true ∧ Within (start.deeper k l) list.toList (m.deeper k l) := by
  obtain ⟨hblank, -⟩ | ⟨-, ps, hpieces, -⟩ := cases_of_splitList h
  · refine ⟨start, rfl, (crosses_of_isOrdinary rfl fun c hc => ?_).within_deeper hkl⟩
    exact isOrdinary_of_class (by decide) (Text.trimChars_eq_nil_iff.1 hblank c hc)
  · exact within_of_pieces hpieces hkl

/-- **Blanks at the end of a list** make no difference to its items. -/
theorem splitList_trimEnd {list : String} {items : List String} (h : splitList list = .ok items) :
    splitList (String.ofList (Text.trimEnd list.toList)) = .ok items := by
  unfold splitList
  rw [String.toList_ofList, Text.trimChars_trimEnd]
  obtain ⟨hblank, rfl⟩ | ⟨hblank, ps, hpieces, rfl⟩ := cases_of_splitList h
  · rw [if_pos hblank]
  · obtain ⟨blanks, hblanks, htext⟩ := Text.exists_eq_trimEnd_append list.toList
    rw [htext] at hpieces
    obtain ⟨ps', hps', hmap⟩ := Nesting.exists_pieces_of_append hblanks hpieces
    have htrim : ∀ qs : List (List Char),
        (qs.map fun piece => String.ofList (Text.trimChars piece)) =
          (qs.map Text.trimEnd).map fun piece => String.ofList (Text.trimStart piece) :=
      fun qs => by
      simp only [List.map_map, Function.comp_def, Text.trimStart_trimEnd]
    rw [if_neg hblank, hps']
    simp only [htrim, hmap]

/-! ## Commands -/

namespace Pattern

/-- A name is taken up to the first character that is not of its class. -/
theorem name?_append {more : Char → Bool} {c : Char} {taken after : List Char}
    (hstart : Text.isNameStart c = true) (htaken : ∀ d ∈ taken, more d = true)
    (hafter : ∀ d ∈ after.head?, more d = false) :
    name? more (c :: taken ++ after) = some (String.ofList (c :: taken), after) := by
  obtain ⟨htake, hdrop⟩ := Text.takeWhile_append_of_head? htaken hafter
  rw [List.cons_append, name?, if_pos hstart, htake, hdrop]

/-- Only the text after a name is trimmed. -/
theorem trimChars_name_append {c : Char} {taken : List Char} (hstart : Text.isNameStart c = true)
    (htaken : ∀ d ∈ taken, isQualifiedChar d = true) (after : List Char) :
    Text.trimChars (c :: taken ++ after) = c :: taken ++ Text.trimEnd after := by
  have hname : ∀ d ∈ c :: taken, Text.isBlank d = false := by
    intro d hd
    rcases List.mem_cons.1 hd with rfl | hd
    · exact Text.isBlank_of_isPathChar (Text.isPathChar_of_isNameStart hstart)
    · exact isBlank_of_isQualifiedChar (htaken d hd)
  rw [Text.trimChars, List.cons_append,
    Text.trimStart_cons_of_not_blank (hname c List.mem_cons_self), ← List.cons_append,
    Layout.trimEnd_append]
  by_cases hnil : Text.trimEnd after = []
  · rw [if_pos hnil, hnil, List.append_nil, Text.trimEnd_of_not_blank hname]
  · rw [if_neg hnil]

/-- A rest is taken after all blanks in front of it. -/
theorem restAfter?_append {least : Nat} {multiline : Bool} {blanks ds : List Char} {d : Char}
    (hblanks : ∀ c ∈ blanks, Text.isBlank c = true) (hleast : least ≤ blanks.length)
    (hd : Text.isBlank d = false) (hfits : fits multiline (d :: ds) = true) :
    restAfter? least multiline (blanks ++ d :: ds) = some (String.ofList (d :: ds)) := by
  have hrest : ∀ e ∈ (d :: ds).head?, Text.isBlank e = false := by
    intro e he
    obtain rfl : d = e := by simpa using he
    exact hd
  obtain ⟨htake, hdrop⟩ := Text.takeWhile_append_of_head? hblanks hrest
  unfold restAfter?
  rw [htake, hdrop]
  simp [hleast, hfits]

/-- A name, blanks and a text that starts with no blank are a command with that text. -/
theorem command?_append {multiline : Bool} {c d : Char} {taken blanks ds : List Char}
    (hstart : Text.isNameStart c = true) (htaken : ∀ d ∈ taken, isQualifiedChar d = true)
    (hne : blanks ≠ []) (hblanks : ∀ d ∈ blanks, Text.isBlank d = true)
    (hd : Text.isBlank d = false) (hfits : fits multiline (d :: ds) = true) :
    command? isQualifiedChar multiline (c :: taken ++ (blanks ++ d :: ds)) =
      some (String.ofList (c :: taken), some (String.ofList (d :: ds))) := by
  obtain ⟨b, bs, rfl⟩ := List.exists_cons_of_ne_nil hne
  have hafter : ∀ e ∈ (b :: bs ++ d :: ds).head?, isQualifiedChar e = false := by
    intro e he
    obtain rfl : b = e := by simpa using he
    rw [Bool.eq_false_iff]
    intro hword
    have hblank := hblanks b List.mem_cons_self
    rw [isBlank_of_isQualifiedChar hword] at hblank
    cases hblank
  rw [command?, name?_append hstart htaken hafter]
  exact congrArg (Option.map _) (restAfter?_append hblanks (by simp) hd hfits)

/-- **A trimmed command** has the same name, and its arguments are trimmed. -/
theorem command?_trimChars {cs : List Char} {name : String} {args : Option String}
    (h : command? isQualifiedChar false cs = some (name, args)) :
    ∃ args', command? isQualifiedChar true (Text.trimChars cs) = some (name, args') ∧
      args'.getD "" = String.ofList (Text.trimEnd (args.getD "").toList) := by
  -- a name with nothing but blanks after it is a command without arguments
  have halone : ∀ {c : Char} {taken : List Char}, Text.isNameStart c = true →
      (∀ d ∈ taken, isQualifiedChar d = true) → command? isQualifiedChar true (c :: taken ++ []) =
        some (String.ofList (c :: taken), none) := fun hstart htaken => by
    rw [command?, name?_append hstart htaken (by simp)]
  obtain ⟨hname, rfl⟩ | ⟨after, rest, hname, hrest, rfl⟩ := cases_of_command? h
  · obtain ⟨c, taken, hstart, htaken, rfl, rfl⟩ := eq_append_of_name? hname
    refine ⟨none, ?_, rfl⟩
    rw [trimChars_name_append hstart htaken]
    exact halone hstart htaken
  · obtain ⟨c, taken, hstart, htaken, rfl, rfl⟩ := eq_append_of_name? hname
    rw [trimChars_name_append hstart htaken]
    obtain ⟨blanks, last, hblanks, hlast, -, rfl, rfl⟩ |
      ⟨blanks, d, ds, hblanks, hd, hleast, rfl, rfl⟩ := cases_of_restAfter? hrest
    · -- nothing but blanks is left after the name, and the last of them was taken for the arguments
      have hall : ∀ c ∈ blanks ++ [last], Text.isBlank c = true := by
        intro c hc
        rcases List.mem_append.1 hc with hc | hc
        · exact hblanks c hc
        · rwa [List.mem_singleton.1 hc]
      refine ⟨none, ?_, ?_⟩
      · rw [Text.trimEnd_of_isBlank hall]
        exact halone hstart htaken
      · rw [Option.getD_some, String.toList_ofList, Text.trimEnd_of_isBlank (by simpa using hlast)]
        rfl
    · have hne : blanks ≠ [] := List.ne_nil_of_length_pos hleast
      refine ⟨some (String.ofList (d :: Text.trimEnd ds)), ?_, ?_⟩
      · rw [Layout.trimEnd_append, Text.trimEnd_cons_of_not_blank hd, if_neg (List.cons_ne_nil _ _)]
        exact command?_append hstart htaken hne hblanks hd rfl
      · rw [Option.getD_some, Option.getD_some, String.toList_ofList,
          Text.trimEnd_cons_of_not_blank hd]

/-- A command is a name, blanks and its arguments. -/
theorem exists_of_command? {multiline : Bool} {cs : List Char} {name : String}
    {args : Option String} (h : command? isQualifiedChar multiline cs = some (name, args)) :
    ∃ word blanks, (∀ c ∈ word, Nesting.isOrdinary c = true) ∧
      (∀ c ∈ blanks, Text.isBlank c = true) ∧ cs = word ++ (blanks ++ (args.getD "").toList) := by
  have hword : ∀ {c : Char} {taken : List Char}, Text.isNameStart c = true →
      (∀ d ∈ taken, isQualifiedChar d = true) → ∀ d ∈ c :: taken, Nesting.isOrdinary d = true := by
    intro c taken hstart htaken d hd
    rcases List.mem_cons.1 hd with rfl | hd
    · exact Nesting.isOrdinary_of_isNameChar (Text.isNameChar_of_isNameStart hstart)
    · exact Nesting.isOrdinary_of_class (by decide) (htaken d hd)
  obtain ⟨hname, rfl⟩ | ⟨after, rest, hname, hrest, rfl⟩ := cases_of_command? h
  · obtain ⟨c, taken, hstart, htaken, -, rfl⟩ := eq_append_of_name? hname
    exact ⟨c :: taken, [], hword hstart htaken, by simp, by simp⟩
  · obtain ⟨c, taken, hstart, htaken, -, rfl⟩ := eq_append_of_name? hname
    obtain ⟨blanks, hblanks, rfl⟩ := exists_of_restAfter? hrest
    exact ⟨c :: taken, blanks, hword hstart htaken, hblanks, rfl⟩

/-- **A command in braces** is one literal, if its arguments form a list. -/
theorem encloses_of_command? {multiline : Bool} {cs : List Char} {name : String}
    {args : Option String} (h : command? isQualifiedChar multiline cs = some (name, args))
    {items : List String} (hitems : splitList (args.getD "") = .ok items) :
    Nesting.Encloses { braces := 1 } cs '\x7d' := by
  obtain ⟨word, blanks, hword, hblanks, rfl⟩ := exists_of_command? h
  have hblanks' : ∀ c ∈ blanks, Nesting.isOrdinary c = true := fun c hc =>
    Nesting.isOrdinary_of_class (by decide) (hblanks c hc)
  have hfront : Nesting.Crosses .start (word ++ blanks) .start :=
    (Nesting.crosses_of_isOrdinary rfl hword).append (Nesting.crosses_of_isOrdinary rfl hblanks')
  obtain ⟨m, htop, hlist⟩ := Nesting.within_of_splitList hitems (k := 0) (l := 1) Nat.one_pos
  have hlast : Nesting.Encloses (m.deeper 0 1) [] '\x7d' := by
    have hbraces : m.braces = 0 := by
      simp only [Nesting.atTop, Bool.and_eq_true, beq_iff_eq] at htop
      exact htop.2
    have hclose : (m.deeper 0 1).feed '\x7d' = .ok m := by
      obtain ⟨quote, escaped, brackets, braces⟩ := m
      obtain rfl : quote = none := Nesting.quote_of_atTop htop
      obtain rfl : braces = 0 := hbraces
      rfl
    exact .close hclose htop
  have hwithin := (hfront.within_deeper (k := 0) (l := 1) Nat.one_pos).append hlist
  rw [List.append_assoc] at hwithin
  have hencloses := hwithin.encloses hlast
  rw [List.append_nil] at hencloses
  exact hencloses

end Pattern

/-! ## Calls -/

namespace Formula

variable {σ : Type} {line name : String} {args : Option String} {items : List String}

/-- **A call in braces is one token.** -/
theorem tokens_braced
    (h : Pattern.command? Pattern.isQualifiedChar false line.toList = some (name, args))
    (hitems : splitList (args.getD "") = .ok items) :
    tokens ("\x7b" ++ line ++ "\x7d") = .ok [.call line] := by
  have htokens := tokens_of_operand
    (.literal '\x7b' _ .call _ '\x7d' rfl (Pattern.encloses_of_command? h hitems))
  have htext : "\x7b" ++ line ++ "\x7d" = String.ofList ('\x7b' :: line.toList ++ ['\x7d']) := by
    rw [← String.ofList_toList (s := "\x7b" ++ line ++ "\x7d"), String.toList_append,
      String.toList_append]
    rfl
  rw [htext]
  refine htokens.trans ?_
  simp only [Operand.token, String.ofList_toList]

/-- The call of a literal that could stand as a statement. -/
theorem evaluateCall_eq (host : Host σ) (inner : String → Action σ Value)
    (h : Pattern.command? Pattern.isQualifiedChar false line.toList = some (name, args))
    (hitems : splitList (args.getD "") = .ok items) :
    evaluateCall host inner line = items.mapM inner >>= host.callFunction name := by
  obtain ⟨args', hcommand, hargs⟩ := Pattern.command?_trimChars h
  have hitems' : splitList (args'.getD "") = .ok items := by
    rw [hargs]
    exact splitList_trimEnd hitems
  unfold evaluateCall
  rw [hcommand]
  cases args' with
  | none =>
    cases hitems'
    rfl
  | some list =>
    dsimp only
    unfold evaluateItems
    rw [Option.getD_some] at hitems'
    rw [hitems']
    rfl

/-- **The value of a call in braces**: its arguments are evaluated as formulas of their own, from
left to right, and then the function is called. -/
theorem evaluate_braced (host : Host σ)
    (h : Pattern.command? Pattern.isQualifiedChar false line.toList = some (name, args))
    (hitems : splitList (args.getD "") = .ok items) :
    evaluate host ("\x7b" ++ line ++ "\x7d") =
      items.mapM (evaluate host) >>= host.callFunction name := by
  have hlength : ("\x7b" ++ line ++ "\x7d").length = line.length + 2 := by
    simp only [String.length_append]
    change 1 + line.length + 1 = _
    omega
  have hinner : evaluateCall host (evaluateWithin host (line.length + 2)) line =
      evaluateCall host (evaluate host) line :=
    evaluateCall_congr fun src hsrc => evaluateWithin_eq_evaluate (by omega)
  have htoken : evaluateTokensWith host (evaluateWithin host (line.length + 2)) [.call line] =
      evaluateCall host (evaluateWithin host (line.length + 2)) line := by
    simp only [evaluateTokensWith, stepToken, List.foldlM_cons, List.foldlM_nil, bind_assoc,
      pure_bind, bind_pure]
  calc evaluate host ("\x7b" ++ line ++ "\x7d")
      = Action.ofExcept (tokens ("\x7b" ++ line ++ "\x7d")) >>=
          evaluateTokensWith host (evaluateWithin host (line.length + 2)) := by
        rw [evaluate, hlength, evaluateWithin]
    _ = evaluateTokensWith host (evaluateWithin host (line.length + 2)) [.call line] := by
        rw [tokens_braced h hitems]
        rfl
    _ = evaluateCall host (evaluate host) line := by rw [htoken, hinner]
    _ = items.mapM (evaluate host) >>= host.callFunction name := evaluateCall_eq host _ h hitems

end Formula

namespace Statement

/-- Only a word that is no keyword makes a call. -/
theorem eq_of_ofCommand_call {word name : String} {params args : Option String}
    (h : ofCommand word params = .ok (.call name args)) : word = name ∧ params = args := by
  cases reading_of_ofCommand h with
  | call _ => exact ⟨rfl, rfl⟩

/-- A line that is read as a call is a command with the same name and arguments. -/
theorem command?_of_parse_call {line name : String} {args : Option String}
    (h : parse line = .ok (.call name args)) :
    Pattern.command? Pattern.isQualifiedChar false line.toList = some (name, args) := by
  obtain ⟨word, params, hcommand, hword⟩ := exists_of_parse h
  obtain ⟨rfl, rfl⟩ := eq_of_ofCommand_call hword
  exact hcommand

/-- What a call does to a session. -/
theorem runSimple_call (run : SourceRunner) (name : String) {args : Option String}
    {items : List String} (hitems : splitList (args.getD "") = .ok items) :
    Session.runSimple run (.call name args) =
      (do
        let vs ← items.mapM (Session.evaluateWith run)
        let _ ← Session.callFunction run name vs
        pure .next) := by
  cases args with
  | none =>
    cases hitems
    rfl
  | some list =>
    rw [Option.getD_some] at hitems
    rw [Session.runSimple, Formula.evaluateList, Formula.evaluateItems, hitems]
    rfl

/-- **A call does the same as a statement and as a formula.** If a line is read as a call, without
arguments or with arguments that form a list, then the line in braces is a formula of one token.
That formula and the statement, in an active block, evaluate the same items from left to right and
then make the same call. So they stop alike, or end with the same session and the same failure, if
any; only the value of the formula is dropped by the statement, which goes on at the next line.

**Proof sketch.** The name and the blanks of the line hold no delimiters, and its list keeps the
scan for the closing brace within the braces (`Pattern.encloses_of_command?`). The text that is
found there is the line, whose last argument loses the blanks at its end
(`Pattern.command?_trimChars`); the items of the list stay the same (`splitList_trimEnd`), and they
have the values that they have on their own (`Formula.evaluate_braced`). -/
theorem call_as_formula {line name : String} {args : Option String}
    (hparse : parse line = .ok (.call name args))
    (hargs : ∀ list, args = some list → (splitList list).isOk = true) :
    Formula.tokens ("\x7b" ++ line ++ "\x7d") = .ok [.call line] ∧
    ∃ items, splitList (args.getD "") = .ok items ∧ ∀ run : SourceRunner,
      Session.evaluateWith run ("\x7b" ++ line ++ "\x7d") =
        items.mapM (Session.evaluateWith run) >>= Session.callFunction run name ∧
      ∀ (index : Nat) (a : Activation), a.blocks.active = true →
        (Activation.runLine run index line).runFrom a =
          ((Session.evaluateWith run ("\x7b" ++ line ++ "\x7d")).runFrom a.session).map
            fun (outcome, t) => (outcome.map fun _ => Flow.next, { a with session := t }) := by
  have hcommand := command?_of_parse_call hparse
  obtain ⟨items, hitems⟩ : ∃ items, splitList (args.getD "") = .ok items := by
    cases args with
    | none => exact ⟨[], rfl⟩
    | some list =>
      have hok := hargs list rfl
      cases hsplit : splitList list with
      | ok items => exact ⟨items, hsplit⟩
      | error e =>
        rw [hsplit] at hok
        cases hok
  refine ⟨Formula.tokens_braced hcommand hitems, items, hitems, fun run => ?_⟩
  have hvalue : Session.evaluateWith run ("\x7b" ++ line ++ "\x7d") =
      items.mapM (Session.evaluateWith run) >>= Session.callFunction run name :=
    Formula.evaluate_braced (Session.host run) hcommand hitems
  refine ⟨hvalue, fun index a hactive => ?_⟩
  have hline : (Activation.runLine run index line).runFrom a =
      (Activation.onSession (Session.runSimple run (.call name args))).runFrom a := by
    unfold Activation.runLine
    rw [hparse, Action.runFrom_bind, Action.runFrom_ofExcept]
    simp only [Activation.runStatement, Action.runFrom_get_bind, hactive, if_true]
  have hsimple : Session.runSimple run (.call name args) =
      Session.evaluateWith run ("\x7b" ++ line ++ "\x7d") >>= fun _ => pure .next := by
    rw [runSimple_call run name hitems, hvalue, bind_assoc]
  rw [hline, hsimple, Activation.onSession, Action.runFrom_zoom, Action.runFrom_bind]
  rcases (Session.evaluateWith run ("\x7b" ++ line ++ "\x7d")).runFrom a.session with
    reason | ⟨e | v, t⟩
  · rfl
  · rfl
  · rfl

/-- Arguments with commas, brackets and braces inside strings, a call among them, and a blank at
their end. -/
def pickyList : String :=
  "['\x7d, [', \"\\\"\x7b\"], \x7bf [a: true], null\x7d ,  !false "

/-- A call with these arguments is one token in braces, and evaluates three formulas. -/
theorem call_as_formula_pickyList :
    Formula.tokens ("\x7b" ++ ("lib:join " ++ pickyList) ++ "\x7d") =
      .ok [.call ("lib:join " ++ pickyList)] ∧
    ∀ run : SourceRunner,
      Session.evaluateWith run ("\x7b" ++ ("lib:join " ++ pickyList) ++ "\x7d") =
        ["['\x7d, [', \"\\\"\x7b\"]", "\x7bf [a: true], null\x7d", "!false"].mapM
          (Session.evaluateWith run) >>= Session.callFunction run "lib:join" := by
  have hparse : parse ("lib:join " ++ pickyList) = .ok (.call "lib:join" (some pickyList)) := by
    decide +kernel
  have hlist : splitList pickyList =
      .ok ["['\x7d, [', \"\\\"\x7b\"]", "\x7bf [a: true], null\x7d", "!false"] := by
    decide +kernel
  have hargs : ∀ list, some pickyList = some list → (splitList list).isOk = true := by
    rintro list ⟨⟩
    rw [hlist]
    rfl
  obtain ⟨htokens, items, hitems, hrun⟩ := call_as_formula hparse hargs
  rw [Option.getD_some, hlist] at hitems
  cases hitems
  exact ⟨htokens, fun run => (hrun run).1⟩

end Statement

end LineScript
