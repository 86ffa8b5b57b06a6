import LineScript.Proofs.Formula.Parenthesized
import LineScript.Proofs.Statement.Counting

set_option relaxedAutoImplicit false
set_option autoImplicit false

/-!
# The lines of assignments

The line `set $path sign formula` is cut at the end of the path, at the sign, and at the end of the
line. Whatever formula stands there, also with more blanks before or after it, it is found again.

## Main definitions

* `LineScript.Path.IsPlain` — paths as they can be written in statements and in formulas alike.
* `LineScript.AssignMode.operator?` — the operator that an assignment applies.
* `LineScript.Statement.setLine` — the line of an assignment.

## Main results

* `LineScript.Statement.parse_setLine` — the line of an assignment is read as it was put together.
* `LineScript.Text.lines_of_notMem` — a text without line feeds is one line.
-/

namespace LineScript

/-- A path of a letter or underscore, and then letters, digits, underscores and dots, all of them of
ASCII. -/
def Path.IsPlain (path : String) : Prop :=
  ∃ first rest, path.toList = first :: rest ∧ Text.isNameStart first = true ∧
    ∀ c ∈ rest, Text.isPathChar c = true

namespace AssignMode

/-- The sign of an assignment. -/
def sign : AssignMode → Char
  | .replace => '='
  | .add => '+'
  | .sub => '-'
  | .mul => '*'
  | .div => '/'

/-- The operator that an assignment applies, unless it replaces what was there. -/
def operator? : AssignMode → Option Operator
  | .replace => none
  | .add => some .add
  | .sub => some .sub
  | .mul => some .mul
  | .div => some .div

variable {mode : AssignMode} {op : Operator}

/-- The symbol of the operator is the sign of the mode. -/
theorem symbol_of_operator? (h : mode.operator? = some op) :
    op.symbol = String.singleton mode.sign := by
  cases mode <;> cases h <;> rfl

/-- The mode combines the values by its operator. -/
theorem combine_of_operator? (h : mode.operator? = some op) (current rhs : Value) :
    mode.combine current rhs = op.apply current rhs := by
  cases mode <;> cases h <;> rfl

end AssignMode

/-- A text without line feeds is one line, unless it is empty. -/
theorem Text.lines_of_notMem {s : String} (hline : '\n' ∉ s.toList) (hne : s.toList ≠ []) :
    lines s = [s] := by
  have hreverse : s.toList.reverse ++ [] ≠ [] := by simpa using hne
  rw [lines, linesFrom_last hline, if_neg hreverse, List.reverse_nil, List.nil_append,
    String.ofList_toList]

/-- Trimmed at its end only, a text is blanks and its trimmed part. -/
theorem Text.exists_trimEnd_eq {cs : List Char} (h : trimChars cs ≠ []) :
    ∃ blanks d ds, (∀ c ∈ blanks, isBlank c = true) ∧ isBlank d = false ∧ trimChars cs = d :: ds ∧
      trimEnd cs = blanks ++ d :: ds := by
  obtain ⟨d, ds, hcons⟩ := List.exists_cons_of_ne_nil h
  refine ⟨(trimEnd cs).takeWhile isBlank, d, ds, fun c hc => List.mem_takeWhile_imp hc, ?_,
    hcons, ?_⟩
  · have hhead : (trimStart (trimEnd cs)).head? = some d := by
      rw [trimStart_trimEnd, hcons]
      rfl
    exact isBlank_of_head?_trimStart hhead
  · rw [← hcons, ← trimStart_trimEnd, trimStart, List.takeWhile_append_dropWhile]

/-- Blanks around a formula do not count. -/
theorem Formula.tokens_trim (src : String) : tokens (Text.trim src) = tokens src := by
  have htrim : Text.trimChars (Text.trim src).toList = Text.trimChars src.toList := by
    have hchars := congrArg String.toList (Text.trim_trim src)
    simpa only [Text.trim, String.toList_ofList] using hchars
  rw [tokens, tokens, htrim]

namespace Path.IsPlain

variable {path src : String} (h : IsPlain path)

include h

/-- A plain path stands on one line. -/
theorem noFeed : '\n' ∉ path.toList := by
  obtain ⟨first, rest, hchars, hstart, hrest⟩ := h
  rw [hchars, List.mem_cons, not_or]
  refine ⟨?_, fun hmem => absurd (hrest _ hmem) (by decide +kernel)⟩
  rintro rfl
  exact absurd hstart (by decide +kernel)

/-- The operation is written on one line if the formula is. -/
theorem notMem_operation (op : Operator) (hline : '\n' ∉ src.toList) :
    '\n' ∉ (Formula.operation path op src).toList := by
  have hsymbol : '\n' ∉ op.symbol.toList := by cases op <;> decide
  simp [Formula.operation, h.noFeed, hsymbol, hline]

/-- The operation can be read if the formula can: it stands in parentheses. -/
theorem exists_tokens_operation (op : Operator) {ts : List Token}
    (htokens : Formula.tokens src = .ok ts) :
    ∃ ts', Formula.tokens (Formula.operation path op src) = .ok ts' := by
  obtain ⟨first, rest, hchars, hstart, hrest⟩ := h
  exact ⟨_, Formula.tokens_operation hchars hstart hrest op htokens⟩

end Path.IsPlain

namespace Statement

/-- The line `set $path sign src`. -/
def setLine (path sign src : String) : String :=
  "set $" ++ path ++ " " ++ sign ++ " " ++ src

section

variable {path : String} (hpath : Path.IsPlain path)

include hpath

/-- The assignment is written on one line if the formula is. -/
theorem notMem_setLine (mode : AssignMode) {src : String} (hline : '\n' ∉ src.toList) :
    '\n' ∉ (setLine path (String.singleton mode.sign) src).toList := by
  have hsign : '\n' ≠ mode.sign := by cases mode <;> decide
  simp [setLine, hpath.noFeed, hsign, hline]

/-- What stands after the keyword: the path, the sign, blanks and the formula.

**Proof sketch.** The path is taken as far as its characters go, which is up to the space before the
sign; then the sign tells the mode, and the formula starts after the blanks. -/
theorem parseSet_eq (mode : AssignMode) {blanks ds : List Char} {d : Char}
    (hblanks : ∀ c ∈ blanks, Text.isBlank c = true) (hd : Text.isBlank d = false)
    (hline : '\n' ∉ d :: ds) :
    parseSet (String.ofList ('$' :: (path.toList ++ (' ' :: mode.sign :: (blanks ++ d :: ds))))) =
      .ok (.set path mode (String.ofList (d :: ds))) := by
  obtain ⟨first, rest, hchars, hstart, hrest⟩ := hpath
  have hdotted : ∀ c ∈ rest, Pattern.isDottedChar c = true := by
    intro c hc
    have hpath := hrest c hc
    rw [Text.isPathChar, Bool.or_eq_true] at hpath
    rw [Pattern.isDottedChar, Bool.or_eq_true]
    exact hpath.imp_left Text.isWordChar_of_isNameChar
  have hspace : ∀ c ∈ (' ' :: mode.sign :: (blanks ++ d :: ds)).head?,
      Pattern.isDottedChar c = false := by
    intro c hc
    obtain rfl : ' ' = c := by simpa using hc
    decide +kernel
  have hname : Pattern.dollarName? Pattern.isDottedChar
      ('$' :: (path.toList ++ (' ' :: mode.sign :: (blanks ++ d :: ds)))) =
      some (path, ' ' :: mode.sign :: (blanks ++ d :: ds)) := by
    rw [← String.ofList_toList (s := path), hchars, String.toList_ofList]
    exact Pattern.name?_append hstart hdotted hspace
  have hformula := Pattern.restAfter?_append hblanks (Nat.zero_le _) hd
    (Pattern.fits_of_notMem hline)
  have htrim : Text.trimStart (' ' :: mode.sign :: (blanks ++ d :: ds)) =
      mode.sign :: (blanks ++ d :: ds) := by
    cases mode <;> rfl
  unfold parseSet
  rw [String.toList_ofList, hname]
  dsimp only
  rw [htrim]
  cases mode <;> simp only [AssignMode.sign, hformula]

/-- **The line of an assignment** is read as it was put together, however many blanks stand around
its formula.

**Proof sketch.** Trimming the line trims only the end of its formula. What is left is the word
`set` and the text after it (`hcommand`), which `parseSet_eq` reads. -/
theorem parse_setLine (mode : AssignMode) {src : String} (hline : '\n' ∉ src.toList)
    (hsrc : Text.trimChars src.toList ≠ []) :
    parse (Text.trim (setLine path (String.singleton mode.sign) src)) =
      .ok (.set path mode (Text.trim src)) := by
  obtain ⟨blanks, d, ds, hblanks, hd, htrim, hend⟩ := Text.exists_trimEnd_eq hsrc
  have hkept : '\n' ∉ Text.trimEnd src.toList := fun hmem =>
    hline ((Text.trimEnd_isPrefix src.toList).subset hmem)
  rw [hend, List.mem_append, not_or] at hkept
  have hfits : '\n' ∉ '$' :: (path.toList ++ (' ' :: mode.sign :: (' ' :: blanks ++ d :: ds))) := by
    have hplain := hpath.noFeed
    have hsign : '\n' ≠ mode.sign := by cases mode <;> decide
    simp_all
  have htext : Text.trimChars (setLine path (String.singleton mode.sign) src).toList =
      's' :: ['e', 't'] ++
        ([' '] ++ '$' :: (path.toList ++ (' ' :: mode.sign :: (' ' :: blanks ++ d :: ds)))) := by
    have happend : (setLine path (String.singleton mode.sign) src).toList =
        's' :: ['e', 't'] ++
          (' ' :: '$' :: (path.toList ++ [' ', mode.sign, ' ']) ++ src.toList) := by
      simp [setLine]
    rw [happend, Pattern.trimChars_name_append rfl (List.all_eq_true.1 rfl), Layout.trimEnd_append,
      if_neg (by simp [hend]), hend]
    simp
  have hcommand : Pattern.command? Pattern.isQualifiedChar false
      (Text.trim (setLine path (String.singleton mode.sign) src)).toList =
      some ("set", some (String.ofList
        ('$' :: (path.toList ++ (' ' :: mode.sign :: (' ' :: blanks ++ d :: ds)))))) := by
    rw [Text.trim, String.toList_ofList, htext]
    exact Pattern.command?_append rfl (List.all_eq_true.1 rfl) (by simp)
      (List.all_eq_true.1 rfl) rfl (Pattern.fits_of_notMem hfits)
  have hblanks' : ∀ c ∈ ' ' :: blanks, Text.isBlank c = true :=
    List.forall_mem_cons.2 ⟨rfl, hblanks⟩
  rw [parse, hcommand, Text.trim, htrim]
  exact parseSet_eq hpath mode hblanks' hd hkept.2

end

end Statement

end LineScript
