import LineScript.Settings
import LineScript.Proofs.Library.Splitting
import LineScript.Proofs.Lists
import LineScript.Proofs.Statement.Names

set_option relaxedAutoImplicit false
set_option autoImplicit false

/-!
# Faulty lines of a settings file

A line of a settings file is skipped, or sets something, or has a fault, and which of them it is
does not depend on the other lines. So the faulty lines of a file are reported one by one, and the
file with blank lines in their place gives the same settings.

## Main definitions

* `LineScript.Settings.step` — the settings after a line as it is read.
* `LineScript.Settings.IsIdle`, `LineScript.Settings.Offends` — lines that are skipped, and lines
  with a fault.
* `LineScript.Settings.Blanked` — a text in which some lines have been made blank.

## Main results

* `LineScript.Settings.step_eq_error_iff` — the faults of a line.
* `LineScript.Settings.mem_errors_iff`, `LineScript.Settings.pairwise_errors` — the errors in a
  file.
* `LineScript.Settings.applyLines_blanked` — lines with faults may be made blank.
-/

namespace LineScript

/-! ## Blanks and cuts around a character -/

namespace Text

/-- A text is trimmed on both sides of a character that is no blank. -/
theorem trimChars_append_cons {c : Char} (hc : isBlank c = false) (front rest : List Char) :
    trimChars (front ++ c :: rest) = trimStart front ++ c :: trimEnd rest := by
  have hrest : trimEnd (c :: rest) = c :: trimEnd rest := trimEnd_cons_of_not_blank hc rest
  rw [← trimStart_trimEnd, Layout.trimEnd_append, hrest, if_neg (List.cons_ne_nil _ _), trimStart,
    List.dropWhile_append]
  cases hfront : front.dropWhile isBlank with
  | nil => simp [trimStart, hfront, hc]
  | cons d ds => simp [trimStart, hfront]

/-- A text is cut at the first of its equals signs, or another character. -/
theorem cutAt?_append_cons {c : Char} {front : List Char} (h : c ∉ front) (rest : List Char) :
    cutAt? [c] (front ++ c :: rest) = some (front, rest) := by
  refine cutAt?_eq_some_iff.2 ⟨by simp, fun u v heq => ?_⟩
  by_contra hlt
  have hlength : (u ++ [c]).length ≤ front.length := by
    simp only [List.length_append, List.length_singleton]
    omega
  have hstarts : u ++ [c] <+: front :=
    List.prefix_of_prefix_length_le ⟨v, heq.symm⟩ (List.prefix_append front _) hlength
  exact h (hstarts.subset (by simp))

end Text

namespace Settings

open Text (isBlank trim trimChars trimStart trimEnd)

/-! ## Lines -/

/-- The settings after a line as it is read. -/
def step (s : Settings) (line : String) : Except SettingFault Settings :=
  if skipped (trim line) then .ok s else s.applyLine (trim line)

/-- Lines that are skipped: blanks only, or blanks and then a comment. -/
inductive IsIdle : List Char → Prop
  | blank {row : List Char} : (∀ c ∈ row, isBlank c = true) → IsIdle row
  | comment {blanks text : List Char} :
      (∀ c ∈ blanks, isBlank c = true) → IsIdle (blanks ++ ';' :: text)

/-- A line with an equals sign: the key before the first of them and the value after it, trimmed. -/
def Assigns (line key value : String) : Prop :=
  ∃ front rest, '=' ∉ front ∧ line.toList = front ++ '=' :: rest ∧
    key = String.ofList (trimChars front) ∧ value = String.ofList (trimChars rest)

/-- The words for a truth value. -/
def truthWords (b : Bool) : List String :=
  if b then ["true", "on", "1"] else ["false", "off", "0"]

/-- A text spells a truth value, in small or capital letters. -/
def SpellsTruth (b : Bool) (value : String) : Prop :=
  String.ofList (value.toList.map Char.toLower) ∈ truthWords b

/-- What is wrong with a line. -/
inductive Offends (line : String) : SettingFault → Prop
  | notASetting : ¬IsIdle line.toList → '=' ∉ line.toList → Offends line (.notASetting (trim line))
  | invalidBoolean {key value : String} : Assigns line key value →
      key = "silent" ∨ key = "throw_errors" → (∀ b, ¬SpellsTruth b value) →
      Offends line (.invalidBoolean value)
  | missingPath : Assigns line "import_dir" "" → Offends line .missingPath
  | unknownKey {key value : String} : ¬IsIdle line.toList → Assigns line key value →
      key ∉ ["silent", "throw_errors", "libs", "import_dir"] → Offends line (.unknownKey key)

variable {s : Settings} {line : String} {fault : SettingFault}

/-- Skipped lines are the idle ones. -/
theorem skipped_trim_iff (line : String) : skipped (trim line) = true ↔ IsIdle line.toList := by
  have hskipped : skipped (trim line) = true ↔
      trimChars line.toList = [] ∨ (trimChars line.toList).head? = some ';' := by
    simp [skipped, trim]
  rw [hskipped]
  constructor
  · rintro (hblank | hcomment)
    · exact .blank (Text.trimChars_eq_nil_iff.1 hblank)
    · obtain ⟨before, after, hbefore, -, htext⟩ := Text.exists_eq_append_trimChars line.toList
      obtain ⟨rest, hrest⟩ : ∃ rest, trimChars line.toList = ';' :: rest :=
        List.head?_eq_some_iff.1 hcomment
      rw [hrest, List.append_assoc, List.cons_append] at htext
      rw [htext]
      exact .comment hbefore
  · intro hidle
    generalize line.toList = row at hidle
    cases hidle with
    | blank hblank => exact .inl (Text.trimChars_eq_nil_iff.2 hblank)
    | comment hblanks =>
      right
      rw [Text.trimChars_append_cons rfl, trimStart, List.dropWhile_eq_nil_iff.2 hblanks]
      rfl

/-- An idle line changes no setting. -/
theorem step_of_isIdle (s : Settings) (h : IsIdle line.toList) : s.step line = .ok s :=
  if_pos ((skipped_trim_iff line).2 h)

/-- Any other line is applied as it is trimmed. -/
theorem step_of_not_isIdle (s : Settings) (h : ¬IsIdle line.toList) :
    s.step line = s.applyLine (trim line) :=
  if_neg fun hskipped => h ((skipped_trim_iff line).1 hskipped)

/-- A line is taken apart at its first equals sign. -/
theorem applyLine_trim_of_assigns (s : Settings) {key value : String} (h : Assigns line key value) :
    s.applyLine (trim line) = s.apply key value := by
  obtain ⟨front, rest, hfront, hline, rfl, rfl⟩ := h
  have hstart : '=' ∉ trimStart front := fun hmem =>
    hfront ((List.dropWhile_suffix isBlank).subset hmem)
  have hkey : trimChars (trimStart front) = trimChars front := by
    rw [trimChars, Text.trimStart_trimStart, trimChars]
  rw [applyLine, trim, hline, String.toList_ofList, Text.trimChars_append_cons rfl,
    Text.cutAt?_append_cons hstart]
  simp only [hkey, Text.trimChars_trimEnd]

/-- A line without an equals sign is no setting. -/
theorem applyLine_trim_of_notMem (s : Settings) (h : '=' ∉ line.toList) :
    s.applyLine (trim line) = .error (.notASetting (trim line)) := by
  have htrim : '=' ∉ (trim line).toList := by
    obtain ⟨before, after, -, -, htext⟩ := Text.exists_eq_append_trimChars line.toList
    rw [trim, String.toList_ofList]
    intro hmem
    refine h ?_
    rw [htext]
    simp [hmem]
  rw [applyLine, Text.cutAt?, Text.cutFrom_of_notMem htrim]

/-- A line that is no assignment has no equals sign. -/
theorem exists_assigns_or_notMem (line : String) :
    (∃ key value, Assigns line key value) ∨ '=' ∉ line.toList := by
  by_cases hmem : '=' ∈ line.toList
  · obtain ⟨front, rest, hline, hfront⟩ := List.eq_append_cons_of_mem hmem
    exact .inl ⟨_, _, front, rest, hfront, hline, rfl, rfl⟩
  · exact .inr hmem

/-- A line with a key is not idle, unless the key starts like a comment. -/
theorem Assigns.not_isIdle {key value : String} (h : Assigns line key value)
    (hkey : key.toList.head? ≠ some ';') : ¬IsIdle line.toList := by
  obtain ⟨front, rest, -, hline, rfl, -⟩ := h
  rw [← skipped_trim_iff]
  have htrim : trimChars line.toList = trimStart front ++ '=' :: trimEnd rest := by
    rw [hline, Text.trimChars_append_cons rfl]
  simp only [skipped, trim, htrim, String.toList_ofList]
  rw [String.toList_ofList] at hkey
  cases hfront : trimStart front with
  | nil => simp
  | cons c cs =>
    have hc : isBlank c = false := Text.isBlank_of_head?_trimStart (by rw [hfront]; rfl)
    rw [trimChars, hfront, Text.trimEnd_cons_of_not_blank hc] at hkey
    simpa using hkey

/-! ## Faults -/

/-- What is read as a truth value spells it. -/
theorem parseBool_eq_ok_iff {value : String} {b : Bool} :
    parseBool value = .ok b ↔ SpellsTruth b value := by
  unfold parseBool SpellsTruth truthWords
  split <;> cases b <;> simp_all

/-- What is read as no truth value spells neither. -/
theorem parseBool_eq_error_iff {value : String} :
    parseBool value = .error fault ↔ fault = .invalidBoolean value ∧ ∀ b, ¬SpellsTruth b value := by
  simp only [← parseBool_eq_ok_iff]
  unfold parseBool
  split <;> simp [eq_comm]

/-- The faults of a key and a value. -/
theorem apply_eq_error_iff {key value : String} : s.apply key value = .error fault ↔
    ((key = "silent" ∨ key = "throw_errors") ∧ fault = .invalidBoolean value ∧
      ∀ b, ¬SpellsTruth b value) ∨
    (key = "import_dir" ∧ value = "" ∧ fault = .missingPath) ∨
    (key ∉ ["silent", "throw_errors", "libs", "import_dir"] ∧ fault = .unknownKey key) := by
  have hflag : ∀ change : Bool → Settings, (parseBool value).map change = .error fault ↔
      fault = .invalidBoolean value ∧ ∀ b, ¬SpellsTruth b value := by
    intro change
    rw [← parseBool_eq_error_iff]
    cases parseBool value <;> simp [Except.map]
  unfold apply
  split
  · simp [hflag]
  · simp [hflag]
  · simp
  · split <;> simp_all [eq_comm]
  · simp_all [eq_comm]

/-- **The faults of a line** do not depend on what the settings are before it.

**Proof sketch.** A line is idle, an assignment, or neither, and an assignment fails by its key and
value (`apply_eq_error_iff`). From right to left each fault says which of the three its line is. -/
theorem step_eq_error_iff : s.step line = .error fault ↔ Offends line fault := by
  constructor
  · intro h
    by_cases hidle : IsIdle line.toList
    · rw [step_of_isIdle s hidle] at h
      cases h
    · rw [step_of_not_isIdle s hidle] at h
      rcases exists_assigns_or_notMem line with ⟨key, value, hassigns⟩ | hnot
      · rw [applyLine_trim_of_assigns s hassigns, apply_eq_error_iff] at h
        rcases h with ⟨hkey, rfl, hvalue⟩ | ⟨rfl, rfl, rfl⟩ | ⟨hkey, rfl⟩
        · exact .invalidBoolean hassigns hkey hvalue
        · exact .missingPath hassigns
        · exact .unknownKey hidle hassigns hkey
      · rw [applyLine_trim_of_notMem s hnot] at h
        cases h
        exact .notASetting hidle hnot
  · intro h
    cases h with
    | notASetting hidle hnot => rw [step_of_not_isIdle s hidle, applyLine_trim_of_notMem s hnot]
    | invalidBoolean hassigns hkey hvalue =>
      have hidle : ¬IsIdle line.toList :=
        hassigns.not_isIdle (by rcases hkey with rfl | rfl <;> decide)
      rw [step_of_not_isIdle s hidle, applyLine_trim_of_assigns s hassigns, apply_eq_error_iff]
      exact .inl ⟨hkey, rfl, hvalue⟩
    | missingPath hassigns =>
      rw [step_of_not_isIdle s (hassigns.not_isIdle (by decide)),
        applyLine_trim_of_assigns s hassigns, apply_eq_error_iff]
      exact .inr (.inl ⟨rfl, rfl, rfl⟩)
    | unknownKey hidle hassigns hkey =>
      rw [step_of_not_isIdle s hidle, applyLine_trim_of_assigns s hassigns, apply_eq_error_iff]
      exact .inr (.inr ⟨hkey, rfl⟩)

/-- The settings after a line, and then after the lines below it. A fault of the line comes first
among the faults, under its number. -/
theorem applyLines_cons (s : Settings) (number : Nat) (line : String) (rest : List String) :
    s.applyLines number (line :: rest) =
      match s.step line with
      | .ok s' => s'.applyLines (number + 1) rest
      | .error fault =>
        ((s.applyLines (number + 1) rest).1,
          ⟨number, fault⟩ :: (s.applyLines (number + 1) rest).2) := by
  rw [applyLines, step]
  split
  · rfl
  · cases s.applyLine (trim line) <;> rfl

/-- **The errors in the lines of a file** are the faults of its lines, each with the number of its
line.

**Proof sketch.** Induction on the lines, with `hcons` for what a line in front of the others adds.
Whether it adds an error is what `step_eq_error_iff` says, whatever the settings are. -/
theorem mem_errors_iff {number : Nat} {lines : List String} {e : SettingsError} :
    e ∈ (s.applyLines number lines).2 ↔
      ∃ i line, lines[i]? = some line ∧ e.line = number + i ∧ Offends line e.fault := by
  induction lines generalizing s number with
  | nil => simp [applyLines]
  | cons line lines ih =>
    have hcons : (∃ i l, (line :: lines)[i]? = some l ∧ e.line = number + i ∧ Offends l e.fault) ↔
        (e.line = number ∧ Offends line e.fault) ∨
          ∃ i l, lines[i]? = some l ∧ e.line = number + 1 + i ∧ Offends l e.fault := by
      constructor
      · rintro ⟨_ | i, l, hl, hnumber, hfault⟩
        · cases hl
          exact .inl ⟨hnumber, hfault⟩
        · exact .inr ⟨i, l, hl, by omega, hfault⟩
      · rintro (⟨hnumber, hfault⟩ | ⟨i, l, hl, hnumber, hfault⟩)
        · exact ⟨0, line, rfl, hnumber, hfault⟩
        · exact ⟨i + 1, l, hl, by omega, hfault⟩
    rw [applyLines_cons, hcons]
    -- the lines after this one go on with other settings, which `ih` is about as well
    cases hstep : s.step line with
    | ok s' =>
      have hnone : ¬Offends line e.fault := by
        rw [← step_eq_error_iff (s := s), hstep]
        simp
      simp [ih, hnone]
    | error fault =>
      have hhead : e = ⟨number, fault⟩ ↔ e.line = number ∧ Offends line e.fault := by
        rw [← step_eq_error_iff (s := s), hstep, SettingsError.mk.injEq, Except.error.injEq,
          eq_comm (a := fault)]
      rw [List.mem_cons, ih, hhead]

/-- The errors come in the order of the lines, and no line has two of them. -/
theorem pairwise_errors (s : Settings) (number : Nat) (lines : List String) :
    (s.applyLines number lines).2.Pairwise fun e e' => e.line < e'.line := by
  induction lines generalizing s number with
  | nil => exact .nil
  | cons line lines ih =>
    rw [applyLines_cons]
    cases s.step line with
    | ok s' => exact ih s' (number + 1)
    | error fault =>
      refine .cons (fun e he => ?_) (ih s (number + 1))
      obtain ⟨i, -, -, hnumber, -⟩ := mem_errors_iff.1 he
      show number < e.line
      omega

/-! ## Blank lines in place of faulty ones -/

/-- The second text is the first one, from line `number` on, with the lines of the given numbers
made blank: their characters are left out, and blanks may be put in their place. -/
inductive Blanked (numbers : List Nat) : Nat → List Char → List Char → Prop
  | nil {number : Nat} : Blanked numbers number [] []
  | feed {number : Nat} {cs ds : List Char} :
      Blanked numbers (number + 1) cs ds → Blanked numbers number ('\n' :: cs) ('\n' :: ds)
  | keep {number : Nat} {c : Char} {cs ds : List Char} : number ∉ numbers → c ≠ '\n' →
      Blanked numbers number cs ds → Blanked numbers number (c :: cs) (c :: ds)
  | drop {number : Nat} {c : Char} {cs ds : List Char} : number ∈ numbers → c ≠ '\n' →
      Blanked numbers number cs ds → Blanked numbers number (c :: cs) ds
  | blank {number : Nat} {b : Char} {cs ds : List Char} :
      number ∈ numbers → isBlank b = true → b ≠ '\n' →
      Blanked numbers number cs ds → Blanked numbers number cs (b :: ds)

/-- A part of a line that is made blank may be left out. -/
theorem Blanked.drop_append {numbers : List Nat} {number : Nat} {part cs ds : List Char}
    (hmem : number ∈ numbers) (hpart : '\n' ∉ part) (h : Blanked numbers number cs ds) :
    Blanked numbers number (part ++ cs) ds := by
  induction part with
  | nil => exact h
  | cons c part ih =>
    rw [List.mem_cons, not_or] at hpart
    exact .drop hmem (Ne.symm hpart.1) (ih hpart.2)

/-- A part of any other line is kept. -/
theorem Blanked.keep_append {numbers : List Nat} {number : Nat} {part cs ds : List Char}
    (hmem : number ∉ numbers) (hpart : '\n' ∉ part) (h : Blanked numbers number cs ds) :
    Blanked numbers number (part ++ cs) (part ++ ds) := by
  induction part with
  | nil => exact h
  | cons c part ih =>
    rw [List.mem_cons, not_or] at hpart
    exact .keep hmem (Ne.symm hpart.1) (ih hpart.2)

/-- **Lines can be blanked** in any text, whatever their numbers are. By induction on the text: a
character of such a line becomes a space. -/
theorem exists_blanked (numbers : List Nat) (number : Nat) (cs : List Char) :
    ∃ ds, Blanked numbers number cs ds := by
  induction cs generalizing number with
  | nil => exact ⟨[], .nil⟩
  | cons c cs ih =>
    by_cases hfeed : c = '\n'
    · obtain ⟨ds, hds⟩ := ih (number + 1)
      exact ⟨c :: ds, hfeed ▸ .feed hds⟩
    · obtain ⟨ds, hds⟩ := ih number
      by_cases hmem : number ∈ numbers
      · exact ⟨ds, .drop hmem hfeed hds⟩
      · exact ⟨c :: ds, .keep hmem hfeed hds⟩

/-- The numbers of the faulty lines, of which the first one has the number `number`. -/
def FaultyNumbers (numbers : List Nat) (number : Nat) (lines : List String) : Prop :=
  ∀ i, number + i ∈ numbers ↔ ∃ line fault, lines[i]? = some line ∧ Offends line fault

/-- The numbers of the faulty lines below the first one. -/
theorem FaultyNumbers.tail {numbers : List Nat} {number : Nat} {line : String} {lines : List String}
    (h : FaultyNumbers numbers number (line :: lines)) :
    FaultyNumbers numbers (number + 1) lines := by
  intro i
  rw [Nat.add_assoc, Nat.add_comm 1, h (i + 1)]
  rfl

/-- An idle line changes nothing. -/
theorem applyLines_cons_of_isIdle (s : Settings) (number : Nat) (h : IsIdle line.toList)
    (rest : List String) : s.applyLines number (line :: rest) = s.applyLines (number + 1) rest := by
  rw [applyLines_cons, step_of_isIdle s h]

/-- A faulty line leaves the settings to the lines after it. -/
theorem fst_applyLines_cons_of_offends (s : Settings) (number : Nat) (h : Offends line fault)
    (rest : List String) :
    (s.applyLines number (line :: rest)).1 = (s.applyLines (number + 1) rest).1 := by
  rw [applyLines_cons, step_eq_error_iff.2 h]

/-- Any other line changes the settings in its own way. -/
theorem exists_applyLines_cons (s : Settings) (number : Nat) (h : ∀ fault, ¬Offends line fault) :
    ∃ s' : Settings, ∀ rest,
      s.applyLines number (line :: rest) = s'.applyLines (number + 1) rest := by
  cases hstep : s.step line with
  | ok s' => exact ⟨s', fun rest => by rw [applyLines_cons, hstep]⟩
  | error fault => exact absurd (step_eq_error_iff.1 hstep) (h fault)

/-- An empty line at the end of a text makes no difference. -/
theorem applyLines_linesFrom_nil (s : Settings) (number : Nat) (gathered : List Char) :
    s.applyLines number (Text.linesFrom gathered []) =
      s.applyLines number [String.ofList gathered.reverse] := by
  cases gathered with
  | nil => rfl
  | cons c gathered => rfl

/-- What has been gathered at the end of a text is its last line. -/
theorem eq_singleton_of_linesFrom_nil {gathered : List Char} {i : Nat}
    (h : (Text.linesFrom gathered [])[i]? = some line) :
    i = 0 ∧ Text.linesFrom gathered [] = [line] := by
  cases gathered with
  | nil => cases h
  | cons c gathered =>
    cases i with
    | zero =>
      cases h
      exact ⟨rfl, rfl⟩
    | succ i => cases h

/-- Lines of which none offends have no faults. -/
theorem errors_eq_nil {number : Nat} {lines : List String}
    (h : ∀ line ∈ lines, ∀ fault, ¬Offends line fault) : (s.applyLines number lines).2 = [] := by
  rw [List.eq_nil_iff_forall_not_mem]
  intro e he
  obtain ⟨i, line, hline, -, hfault⟩ := mem_errors_iff.1 he
  exact h line (List.mem_of_getElem? hline) e.fault hfault

/-- **Lines with faults may be made blank**, all at once, and the settings become the same without
errors.

**Proof sketch.** Induction on how the text is made blank. The current line has been gathered in
both texts: as it is, or as blanks if its number is that of a faulty line. At its end it does the
same in both. -/
theorem applyLines_blanked {numbers : List Nat} {number : Nat} {cs ds : List Char}
    (h : Blanked numbers number cs ds) {gathered gathered' : List Char}
    (hkept : number ∉ numbers → gathered' = gathered)
    (hblank : number ∈ numbers → ∀ c ∈ gathered', isBlank c = true)
    (hnumbers : FaultyNumbers numbers number (Text.linesFrom gathered cs)) (s : Settings) :
    s.applyLines number (Text.linesFrom gathered' ds) =
      ((s.applyLines number (Text.linesFrom gathered cs)).1, []) := by
  induction h generalizing gathered gathered' s with
  | @nil number =>
    by_cases hmem : number ∈ numbers
    · obtain ⟨line, fault, hline, hfault⟩ := (hnumbers 0).1 hmem
      obtain ⟨-, hlast⟩ := eq_singleton_of_linesFrom_nil hline
      have hidle : IsIdle (String.ofList gathered'.reverse).toList :=
        .blank (by simpa using hblank hmem)
      rw [applyLines_linesFrom_nil, applyLines_cons_of_isIdle s number hidle, hlast,
        fst_applyLines_cons_of_offends s number hfault]
      rfl
    · rw [hkept hmem]
      refine Prod.ext rfl (errors_eq_nil fun line hline fault hfault => hmem ?_)
      obtain ⟨i, hi⟩ := List.mem_iff_getElem?.1 hline
      obtain ⟨rfl, -⟩ := eq_singleton_of_linesFrom_nil hi
      exact (hnumbers 0).2 ⟨line, fault, hi, hfault⟩
  | @feed number cs ds _ ih =>
    rw [Text.linesFrom_feed] at hnumbers ⊢
    rw [Text.linesFrom_feed]
    have hrest : ∀ s : Settings, s.applyLines (number + 1) (Text.linesFrom [] ds) =
        ((s.applyLines (number + 1) (Text.linesFrom [] cs)).1, []) :=
      fun s => ih (fun _ => rfl) (by simp) hnumbers.tail s
    by_cases hmem : number ∈ numbers
    · obtain ⟨line, fault, hline, hfault⟩ := (hnumbers 0).1 hmem
      cases hline
      have hidle : IsIdle (Text.endLine gathered').toList :=
        .blank fun c hc => hblank hmem c (Text.mem_of_mem_endLine hc)
      rw [applyLines_cons_of_isIdle s number hidle, hrest,
        fst_applyLines_cons_of_offends s number hfault]
    · have hnone : ∀ fault, ¬Offends (Text.endLine gathered) fault := fun fault hfault =>
        hmem ((hnumbers 0).2 ⟨_, fault, rfl, hfault⟩)
      obtain ⟨s', hs'⟩ := exists_applyLines_cons s number hnone
      rw [hkept hmem, hs', hs', hrest]
  | keep hmem hc _ ih =>
    rw [Text.linesFrom_cons_of_ne hc] at hnumbers ⊢
    rw [Text.linesFrom_cons_of_ne hc]
    exact ih (fun _ => by rw [hkept hmem]) (fun hnot => absurd hnot hmem) hnumbers s
  | drop hmem hc _ ih =>
    rw [Text.linesFrom_cons_of_ne hc] at hnumbers ⊢
    exact ih (fun hnot => absurd hmem hnot) hblank hnumbers s
  | blank hmem hb hne _ ih =>
    rw [Text.linesFrom_cons_of_ne hne]
    exact ih (fun hnot => absurd hmem hnot)
      (fun _ => List.forall_mem_cons.2 ⟨hb, hblank hmem⟩) hnumbers s

end Settings

end LineScript
