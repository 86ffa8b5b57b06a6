import Mathlib.Data.List.Infix
import LineScript.Proofs.Settings.Faults
import LineScript.Proofs.Unordered

set_option relaxedAutoImplicit false
set_option autoImplicit false

/-!
# Settings written and read

A file may write settings in any order, one in a line, with comments and blank lines between them
and blanks around keys and values. It is read as these settings.

## Main definitions

* `LineScript.Setting`, `LineScript.Setting.WrittenIn` — a single setting, and the lines that write
  it.
* `LineScript.Settings.Written` — the texts that write all settings.
* `LineScript.Settings.IsWritable` — the settings that can be written.

## Main results

* `LineScript.Text.pieces_intercalate` — pieces joined by a character are found again.
* `LineScript.Setting.WrittenIn.step_eq` — a line that writes a setting.
* `LineScript.Settings.applyLines_of_writtenLines` — lines that write settings.
* `LineScript.Settings.faults_isolated` — files with faults, and files without.
-/

namespace LineScript

/-! ## Pieces and lines, trimmed -/

namespace Text

/-- A carriage return at the end of a line is trimmed with it. -/
theorem trim_endLine (row : List Char) :
    trim (endLine row.reverse) = String.ofList (trimChars row) := by
  unfold endLine
  split
  next rest hrow =>
    obtain rfl : row = rest.reverse ++ ['\r'] := by
      rw [← List.reverse_reverse row, hrow, List.reverse_cons]
    have hpadded : trimChars ([] ++ rest.reverse ++ ['\r']) = trimChars rest.reverse :=
      trimChars_padded (by simp) (by simp [isBlank]) rest.reverse
    rw [trim, String.toList_ofList, ← hpadded, List.nil_append]
  · rw [trim, String.toList_ofList, List.reverse_reverse]

/-- **Pieces joined by a character** that is in none of them are found again. -/
theorem pieces_intercalate {c : Char} {ps : List (List Char)} (hps : ∀ p ∈ ps, c ∉ p)
    (hne : ps ≠ []) :
    pieces [c] ([c].intercalate ps) = ps := by
  have hwithin : ∀ bound, ([c].intercalate ps).length ≤ bound →
      piecesWithin [c] bound ([c].intercalate ps) = ps := by
    induction ps with
    | nil => exact absurd rfl hne
    | cons p ps ih =>
      rw [List.forall_mem_cons] at hps
      intro bound hbound
      cases ps with
      | nil =>
        rw [List.intercalate_singleton]
        cases bound with
        | zero => rfl
        | succ bound => rw [piecesWithin, cutAt?, cutFrom_of_notMem hps.1]
      | cons q qs =>
        rw [List.intercalate_cons_cons, List.append_assoc, List.singleton_append] at hbound ⊢
        rw [List.length_append, List.length_cons] at hbound
        obtain ⟨bound, rfl⟩ : ∃ k, bound = k + 1 := ⟨bound - 1, by omega⟩
        rw [piecesWithin, cutAt?_append_cons hps.1]
        exact congrArg (p :: ·) (ih hps.2 (by simp) bound (by omega))
  exact hwithin _ (Nat.le_refl _)

/-- Blanks around joined pieces belong to the first and the last of them.

**Proof sketch.** Induction on the pieces, with any blanks before them. The blanks before belong to
the first piece, and those after are handed on to the last one. -/
theorem exists_intercalate_padded {c : Char} (hc : isBlank c = false) {before after : List Char}
    (hbefore : ∀ b ∈ before, isBlank b = true) (hafter : ∀ b ∈ after, isBlank b = true)
    {ps : List (List Char)} (hps : ∀ p ∈ ps, c ∉ p) (hne : ps ≠ []) :
    ∃ ps', before ++ [c].intercalate ps ++ after = [c].intercalate ps' ∧
      ps'.map trimChars = ps.map trimChars ∧ (∀ p ∈ ps', c ∉ p) ∧ ps' ≠ [] := by
  have hnot : ∀ {blanks : List Char}, (∀ b ∈ blanks, isBlank b = true) → c ∉ blanks := by
    intro blanks hblanks hmem
    rw [hblanks c hmem] at hc
    cases hc
  induction ps generalizing before with
  | nil => exact absurd rfl hne
  | cons p ps ih =>
    rw [List.forall_mem_cons] at hps
    cases ps with
    | nil =>
      -- the only piece takes the blanks of both sides
      refine ⟨[before ++ p ++ after], by simp, ?_, ?_, by simp⟩
      · rw [List.map_singleton, List.map_singleton, trimChars_padded hbefore hafter]
      · simp [hnot hbefore, hnot hafter, hps.1]
    | cons q qs =>
      have hnil : ∀ b ∈ ([] : List Char), isBlank b = true := by simp
      obtain ⟨ps', htext, htrim, hps', hne'⟩ := ih hnil hps.2 (by simp)
      refine ⟨(before ++ p) :: ps', ?_, ?_, ?_, by simp⟩
      · rw [List.intercalate_cons_cons, List.intercalate_cons_of_ne_nil hne', ← htext]
        simp
      · have hp := trimChars_padded hbefore hnil p
        rw [List.append_nil] at hp
        rw [List.map_cons, List.map_cons, hp, htrim]
      · exact List.forall_mem_cons.2 ⟨by simp [hnot hbefore, hps.1], hps'⟩

/-- Pieces that are trimmed may be cut from a trimmed text. -/
theorem map_trimChars_pieces {c : Char} (hc : isBlank c = false) (cs : List Char) :
    (pieces [c] (trimChars cs)).map trimChars = (pieces [c] cs).map trimChars := by
  obtain ⟨before, after, hbefore, hafter, htext⟩ := exists_eq_append_trimChars cs
  have hps : ∀ p ∈ pieces [c] (trimChars cs), c ∉ p := by
    intro p hp hmem
    exact not_infix_of_mem_piecesWithin (by simp) (Nat.le_refl _) p hp
      ((List.singleton_infix_iff c p).2 hmem)
  obtain ⟨ps', hjoined, htrim, hps', hne'⟩ := exists_intercalate_padded hc hbefore hafter hps
    (piecesWithin_ne_nil _ _)
  have hcs : cs = [c].intercalate ps' := by
    rw [← hjoined, pieces, intercalate_piecesWithin]
    exact htext
  rw [← htrim, hcs, pieces_intercalate hps' hne']

end Text

/-! ## Settings one by one -/

/-- A single setting. -/
inductive Setting where
  | silent (b : Bool)
  | throwErrors (b : Bool)
  | libs (names : List String)
  | importDir (path : String)
  deriving Repr, DecidableEq

namespace Setting

open Text (isBlank trim trimChars)

/-- The key of a setting. -/
def key : Setting → String
  | .silent _ => "silent"
  | .throwErrors _ => "throw_errors"
  | .libs _ => "libs"
  | .importDir _ => "import_dir"

/-- The settings that can be written in one line, so that the line can be taken apart again. -/
def IsWritable : Setting → Prop
  | .libs names => ∀ name ∈ names,
      name ≠ "" ∧ trim name = name ∧ ',' ∉ name.toList ∧ '\n' ∉ name.toList
  | .importDir path => path ≠ "" ∧ trim path = path ∧ '\n' ∉ path.toList
  | _ => True

/-- The texts after the equals sign that give a setting its value: a word for the truth value, the
names with commas between them, or the path, and blanks around all of them. -/
inductive ValueIn : Setting → List Char → Prop
  | silent {b : Bool} {value : List Char} :
      Settings.SpellsTruth b (String.ofList (trimChars value)) → ValueIn (.silent b) value
  | throwErrors {b : Bool} {value : List Char} :
      Settings.SpellsTruth b (String.ofList (trimChars value)) → ValueIn (.throwErrors b) value
  | libs {names : List String} {value : List Char} :
      Joined names value → ValueIn (.libs names) value
  | importDir {path : String} {value : List Char} :
      Padded path value → ValueIn (.importDir path) value

/-- The lines that write a setting: its key, an equals sign and its value, with blanks around them.
-/
def WrittenIn (x : Setting) (row : List Char) : Prop :=
  ∃ key value, Padded x.key key ∧ x.ValueIn value ∧ row = key ++ '=' :: value

end Setting

namespace Settings

open Text (isBlank trim trimChars)

/-- The settings with one of them written. -/
def put (s : Settings) : Setting → Settings
  | .silent b => { s with silent := b }
  | .throwErrors b => { s with throwErrors := b }
  | .libs names => { s with libs := names }
  | .importDir path => { s with importDir := some path }

/-- All settings, one by one. Without a directory for imports there is none to write. -/
def parts (s : Settings) : List Setting :=
  [.silent s.silent, .throwErrors s.throwErrors, .libs s.libs] ++ s.importDir.toList.map .importDir

end Settings

/-! ## Lines that write a setting -/

open Text (isBlank trim trimChars)

/-- Padding a trimmed text and trimming it again. -/
theorem Padded.trimChars_eq {item : String} {text : List Char} (h : Padded item text)
    (htrim : trim item = item) : trimChars text = item.toList := by
  obtain ⟨before, after, hbefore, hafter, rfl⟩ := h
  rw [Text.trimChars_padded hbefore hafter]
  have htrim' := congrArg String.toList htrim
  rwa [trim, String.toList_ofList] at htrim'

/-- A character that is no blank is in a padded item only if it is in the item. -/
theorem Padded.notMem {item : String} {text : List Char} (h : Padded item text) {c : Char}
    (hc : isBlank c = false) (hitem : c ∉ item.toList) : c ∉ text := by
  obtain ⟨before, after, hbefore, hafter, rfl⟩ := h
  simp only [List.mem_append, not_or]
  refine ⟨⟨fun hmem => ?_, hitem⟩, fun hmem => ?_⟩
  · rw [hbefore c hmem] at hc
    cases hc
  · rw [hafter c hmem] at hc
    cases hc

/-- Names with blanks around them are trimmed, and have no comma in them. -/
theorem Settings.trimChars_of_forall₂_padded {names : List String} {padded : List (List Char)}
    (h : List.Forall₂ Padded names padded) (hnames : (Setting.libs names).IsWritable) :
    padded.map trimChars = names.map String.toList ∧ ∀ p ∈ padded, ',' ∉ p := by
  induction h with
  | nil => simp
  | @cons name p names padded hp _ ih =>
    obtain ⟨-, htrim, hcomma, -⟩ := hnames name List.mem_cons_self
    obtain ⟨htrims, hcommas⟩ := ih fun n hn => hnames n (List.mem_cons_of_mem name hn)
    refine ⟨?_, List.forall_mem_cons.2 ⟨hp.notMem rfl hcomma, hcommas⟩⟩
    rw [List.map_cons, List.map_cons, hp.trimChars_eq htrim, htrims]

/-- **The names of a list** that has been written with commas between them. -/
theorem Settings.parseNames_of_joined {names : List String} {value : List Char}
    (h : Joined names value) (hnames : (Setting.libs names).IsWritable) :
    parseNames (String.ofList (trimChars value)) = names := by
  have htrim : parseNames (String.ofList (trimChars value)) =
      (((Text.pieces [','] value).map trimChars).map String.ofList).filter (· != "") := by
    rw [← Text.map_trimChars_pieces rfl, List.map_map, parseNames, String.toList_ofList]
    rfl
  rw [htrim]
  cases h with
  | blank hblank =>
    have hpieces : Text.pieces [','] value = [value] := Text.pieces_of_notMem fun hmem => by
      cases hblank ',' hmem
    rw [hpieces, List.map_singleton, Text.trimChars_eq_nil_iff.2 hblank]
    rfl
  | @commas name names padded hpadded =>
    obtain ⟨htrims, hcommas⟩ := trimChars_of_forall₂_padded hpadded hnames
    have hne : padded ≠ [] := by
      rintro rfl
      cases hpadded
    rw [Text.pieces_intercalate hcommas hne, htrims, List.map_map, List.filter_eq_self.2]
    · simp [Function.comp_def]
    · intro n hn
      obtain ⟨n', hn', rfl⟩ := List.mem_map.1 hn
      simpa using (hnames n' hn').1

/-- **A line that writes a setting** does so whatever the settings are before it. -/
theorem Setting.WrittenIn.step_eq {x : Setting} {line : String} (h : x.WrittenIn line.toList)
    (hx : x.IsWritable) (s : Settings) : s.step line = .ok (s.put x) := by
  obtain ⟨key, value, hkey, hvalue, hline⟩ := h
  have hname : trim x.key = x.key ∧ '=' ∉ x.key.toList ∧ x.key.toList.head? ≠ some ';' := by
    cases x <;> simp only [Setting.key] <;> decide
  have hassigns : Settings.Assigns line x.key (String.ofList (trimChars value)) := by
    refine ⟨key, value, hkey.notMem rfl hname.2.1, hline, ?_, rfl⟩
    rw [hkey.trimChars_eq hname.1, String.ofList_toList]
  rw [Settings.step_of_not_isIdle s (hassigns.not_isIdle hname.2.2),
    Settings.applyLine_trim_of_assigns s hassigns]
  cases hvalue with
  | silent htruth =>
    simp only [Setting.key, Settings.apply, Settings.parseBool_eq_ok_iff.2 htruth]
    rfl
  | throwErrors htruth =>
    simp only [Setting.key, Settings.apply, Settings.parseBool_eq_ok_iff.2 htruth]
    rfl
  | libs hjoined =>
    simp only [Setting.key, Settings.apply, Settings.parseNames_of_joined hjoined hx, Settings.put]
  | importDir hpath =>
    obtain ⟨hne, htrim, -⟩ := hx
    simp only [Setting.key, Settings.apply, hpath.trimChars_eq htrim, String.ofList_toList,
      if_neg hne, Settings.put]

namespace Settings

/-! ## Texts that write all settings -/

/-- Lines that write the given settings one after another, with idle lines anywhere. -/
inductive WrittenLines : List Setting → List (List Char) → Prop
  | nil : WrittenLines [] []
  | idle {row : List Char} {xs : List Setting} {rows : List (List Char)} :
      IsIdle row → '\n' ∉ row → WrittenLines xs rows → WrittenLines xs (row :: rows)
  | setting {x : Setting} {row : List Char} {xs : List Setting} {rows : List (List Char)} :
      x.WrittenIn row → '\n' ∉ row → WrittenLines xs rows → WrittenLines (x :: xs) (row :: rows)

/-- The texts that write the settings: all of them, in any order, with idle lines anywhere. -/
def Written (s : Settings) (text : String) : Prop :=
  ∃ xs rows, (∀ x, x ∈ xs ↔ x ∈ s.parts) ∧ WrittenLines xs rows ∧
    text.toList = ['\n'].intercalate rows

/-- Settings that can be written: names of libraries are not empty, trimmed and free of commas and
line feeds, and so is the directory for imports, but for the commas. -/
structure IsWritable (s : Settings) : Prop where
  libs : ∀ name ∈ s.libs, name ≠ "" ∧ trim name = name ∧ ',' ∉ name.toList ∧ '\n' ∉ name.toList
  importDir : ∀ path ∈ s.importDir, path ≠ "" ∧ trim path = path ∧ '\n' ∉ path.toList

/-- Which settings a file has to give: one for each field, but for the import directory only if
there is one. -/
theorem mem_parts_iff {s : Settings} {x : Setting} : x ∈ s.parts ↔
    x = .silent s.silent ∨ x = .throwErrors s.throwErrors ∨ x = .libs s.libs ∨
      ∃ path, s.importDir = some path ∧ x = .importDir path := by
  simp [parts, eq_comm]

/-- The parts of settings that can be written can be written. -/
theorem IsWritable.of_mem_parts {s : Settings} (h : s.IsWritable) {x : Setting} (hx : x ∈ s.parts) :
    x.IsWritable := by
  rcases mem_parts_iff.1 hx with rfl | rfl | rfl | ⟨path, hpath, rfl⟩
  · trivial
  · trivial
  · exact h.libs
  · exact h.importDir path hpath

/-- Settings with different keys may change places. -/
theorem put_comm (s : Settings) {x y : Setting} (h : x.key ≠ y.key) :
    (s.put x).put y = (s.put y).put x := by
  cases x <;> cases y <;> first | rfl | exact absurd rfl h

/-- The settings of a record write different fields, so their order does not matter. -/
theorem unordered_parts (s : Settings) : Unordered put s.parts := by
  have hsame : ∀ x ∈ s.parts, ∀ y ∈ s.parts, x.key = y.key → x = y := by
    intro x hx y hy hkey
    rcases mem_parts_iff.1 hx with rfl | rfl | rfl | ⟨path, hpath, rfl⟩ <;>
      rcases mem_parts_iff.1 hy with rfl | rfl | rfl | ⟨path', hpath', rfl⟩ <;>
      simp_all [Setting.key]
  refine ⟨fun x hx y hy s' => ?_, fun x _ s' => by cases x <;> rfl⟩
  by_cases hkey : x.key = y.key
  · rw [hsame x hx y hy hkey]
  · exact put_comm s' hkey

/-- Written one by one on top of the defaults, the parts of the settings give the settings. -/
theorem foldl_put_parts (s : Settings) : s.parts.foldl put {} = s := by
  obtain ⟨silent, throwErrors, libs, importDir⟩ := s
  cases importDir <;> rfl

/-- A line counts as it is trimmed. -/
theorem step_congr (s : Settings) {line line' : String} (h : trim line = trim line') :
    s.step line = s.step line' := by
  rw [step, step, h]

/-- A line without faults, and then the other lines. -/
theorem applyLines_intercalate_cons {s s' : Settings} (number : Nat) {row : List Char}
    (hfeed : '\n' ∉ row) (hstep : s.step (String.ofList row) = .ok s') (rows : List (List Char)) :
    s.applyLines number (Text.linesFrom [] (['\n'].intercalate (row :: rows))) =
      s'.applyLines (number + 1) (Text.linesFrom [] (['\n'].intercalate rows)) := by
  cases rows with
  | nil =>
    rw [List.intercalate_singleton, Text.linesFrom_last hfeed]
    cases row with
    | nil =>
      cases hstep
      rfl
    | cons c row =>
      rw [if_neg (by simp), List.reverse_nil, List.nil_append, applyLines_cons, hstep]
      rfl
  | cons next rows =>
    have hline : trim (Text.endLine row.reverse) = trim (String.ofList row) := by
      rw [Text.trim_endLine, trim, String.toList_ofList]
    rw [List.intercalate_cons_cons, List.append_assoc, List.singleton_append,
      Text.linesFrom_append_feed hfeed, List.append_nil, applyLines_cons, step_congr s hline, hstep]

/-- **Lines that write settings** write them one after another, and later ones count. -/
theorem applyLines_of_writtenLines {xs : List Setting} {rows : List (List Char)}
    (h : WrittenLines xs rows) (hxs : ∀ x ∈ xs, x.IsWritable) (s : Settings) (number : Nat) :
    s.applyLines number (Text.linesFrom [] (['\n'].intercalate rows)) = (xs.foldl put s, []) := by
  induction h generalizing s number with
  | nil => rfl
  | @idle row xs rows hidle hfeed _ ih =>
    have hstep : s.step (String.ofList row) = .ok s :=
      step_of_isIdle s (by rwa [String.toList_ofList])
    rw [applyLines_intercalate_cons number hfeed hstep, ih hxs]
  | @setting x row xs rows hwritten hfeed _ ih =>
    rw [List.forall_mem_cons] at hxs
    have hstep : s.step (String.ofList row) = .ok (s.put x) :=
      Setting.WrittenIn.step_eq (by rwa [String.toList_ofList]) hxs.1 s
    rw [applyLines_intercalate_cons number hfeed hstep, ih hxs.2, List.foldl_cons]

/-! ## Every setting can be written -/

/-- Whether a value spells a truth can be decided. -/
instance (b : Bool) (value : String) : Decidable (SpellsTruth b value) :=
  inferInstanceAs (Decidable (_ ∈ _))

end Settings

/-- An item is padded by nothing. -/
theorem padded_self (item : String) : Padded item item.toList :=
  ⟨[], [], by simp, by simp, by simp⟩

/-- A character is in joined items only if it joins them or is in one of them. -/
theorem notMem_intercalate {c d : Char} (hne : c ≠ d) {items : List (List Char)}
    (h : ∀ item ∈ items, c ∉ item) : c ∉ [d].intercalate items := by
  induction items with
  | nil => simp
  | cons item items ih =>
    rw [List.forall_mem_cons] at h
    cases items with
    | nil => simpa using h.1
    | cons next items =>
      rw [List.intercalate_cons_cons]
      simpa [hne, h.1] using ih h.2

/-- Names that may be written in a list are joined by commas. -/
theorem joined_intercalate (names : List String) :
    Joined names ([','].intercalate (names.map String.toList)) := by
  cases names with
  | nil => exact .blank (by simp)
  | cons name names =>
    refine .commas (List.forall₂_map_right_iff.2 (List.forall₂_same.2 fun item _ => ?_))
    exact padded_self item

/-- A value of a setting that can be written, on one line. -/
theorem Setting.IsWritable.exists_valueIn {x : Setting} (h : x.IsWritable) :
    ∃ value, x.ValueIn value ∧ '\n' ∉ value := by
  cases x with
  | silent b =>
    exact ⟨[if b then '1' else '0'], .silent (by cases b <;> decide), by cases b <;> decide⟩
  | throwErrors b =>
    exact ⟨[if b then '1' else '0'], .throwErrors (by cases b <;> decide), by cases b <;> decide⟩
  | libs names =>
    refine ⟨_, .libs (joined_intercalate names),
      notMem_intercalate (by decide) fun item hitem => ?_⟩
    obtain ⟨name, hname, rfl⟩ := List.mem_map.1 hitem
    exact (h name hname).2.2.2
  | importDir path => exact ⟨path.toList, .importDir (padded_self path), h.2.2⟩

/-- A line of a setting that can be written. -/
theorem Setting.IsWritable.exists_writtenIn {x : Setting} (h : x.IsWritable) :
    ∃ row, x.WrittenIn row ∧ '\n' ∉ row := by
  have hkey : '\n' ∉ x.key.toList := by
    cases x <;> simp only [Setting.key] <;> decide
  obtain ⟨value, hvalue, hfeed⟩ := h.exists_valueIn
  exact ⟨x.key.toList ++ '=' :: value, ⟨_, value, padded_self x.key, hvalue, rfl⟩,
    by simp [hkey, hfeed]⟩

namespace Settings

/-- Lines of settings that can be written, one below the other. -/
theorem exists_writtenLines {xs : List Setting} (h : ∀ x ∈ xs, x.IsWritable) :
    ∃ rows, WrittenLines xs rows := by
  induction xs with
  | nil => exact ⟨[], .nil⟩
  | cons x xs ih =>
    rw [List.forall_mem_cons] at h
    obtain ⟨row, hrow, hfeed⟩ := h.1.exists_writtenIn
    obtain ⟨rows, hrows⟩ := ih h.2
    exact ⟨row :: rows, .setting hrow hfeed hrows⟩

/-- **Settings that can be written are written in some file.** -/
theorem IsWritable.exists_written {s : Settings} (h : s.IsWritable) : ∃ text, s.Written text := by
  obtain ⟨rows, hrows⟩ := exists_writtenLines fun x hx => h.of_mem_parts hx
  exact ⟨String.ofList (['\n'].intercalate rows), s.parts, rows, fun _ => Iff.rfl, hrows,
    String.toList_ofList⟩

/-- **Settings that are written are read back.** -/
theorem parse_of_written {s : Settings} (h : s.IsWritable) {text : String}
    (htext : s.Written text) :
    parse text = (s, []) := by
  obtain ⟨xs, rows, hxs, hrows, htext⟩ := htext
  have hwritable : ∀ x ∈ xs, x.IsWritable := fun x hx => h.of_mem_parts ((hxs x).1 hx)
  rw [parse, Text.lines, htext, applyLines_of_writtenLines hrows hwritable,
    s.unordered_parts.foldl_eq hxs, foldl_put_parts]

/-! ## Faults are isolated -/

/-- **Faulty lines are isolated.** A file has exactly one error for each of its faulty lines, with
its number, counted from one, and in the order of the lines. Made blank, they leave a file without
errors that gives the same settings. And a file that writes settings, in any order, with comments
and blank lines anywhere, is read as these settings without errors, if their names and paths can be
written at all.

**Proof sketch.** Whether a line has a fault does not depend on the settings before it
(`step_eq_error_iff`), so a line that is made blank takes only its own error away
(`applyLines_blanked`). The settings of a record write different fields, so that their order does
not matter (`unordered_parts`). -/
theorem faults_isolated :
    (∀ text : String,
      (parse text).2.Pairwise (fun e e' => e.line < e'.line) ∧
      (∀ e, e ∈ (parse text).2 ↔
        ∃ i line, (Text.lines text)[i]? = some line ∧ e.line = i + 1 ∧ Offends line e.fault) ∧
      (∃ text' : String,
        Blanked ((parse text).2.map SettingsError.line) 1 text.toList text'.toList) ∧
      ∀ text' : String, Blanked ((parse text).2.map SettingsError.line) 1 text.toList text'.toList →
        parse text' = ((parse text).1, [])) ∧
    ∀ s : Settings, s.IsWritable →
      (∃ text, s.Written text) ∧ ∀ text, s.Written text → parse text = (s, []) := by
  refine ⟨fun text => ⟨pairwise_errors _ _ _, fun e => ?_, ?_, fun text' htext' => ?_⟩,
    fun s hs => ⟨hs.exists_written, fun text => parse_of_written hs⟩⟩
  · simp only [parse, mem_errors_iff, Nat.add_comm 1]
  · obtain ⟨ds, hds⟩ := exists_blanked ((parse text).2.map SettingsError.line) 1 text.toList
    exact ⟨String.ofList ds, by rwa [String.toList_ofList]⟩
  · refine applyLines_blanked htext' (fun _ => rfl) (by simp) (fun i => ?_) {}
    rw [List.mem_map]
    constructor
    · rintro ⟨e, he, hnumber⟩
      obtain ⟨j, line, hline, hj, hfault⟩ := mem_errors_iff.1 he
      obtain rfl : j = i := by omega
      exact ⟨line, e.fault, hline, hfault⟩
    · rintro ⟨line, fault, hline, hfault⟩
      exact ⟨⟨1 + i, fault⟩, mem_errors_iff.2 ⟨i, line, hline, rfl, hfault⟩, rfl⟩

/-- A file with two faulty lines, of which the second ends with a carriage return. -/
def mixedFile : String :=
  "silent = maybe\n;x = 1\nfoo\r\nthrow_errors = OFF"

/-- The same file without these lines. -/
def mendedFile : String :=
  "\n;x = 1\n \nthrow_errors = OFF"

/-- Settings with names and a path that look like something else. -/
def oddSettings : Settings :=
  { silent := true, throwErrors := false, libs := ["a=b", ";c d"], importDir := some "x = y" }

/-- A file that writes them. -/
def oddFile : String :=
  "import_dir =x = y\r\n\n libs = a=b ,;c d\n;silent = 0\nthrow_errors=Off\nsilent = ON"

/-- The mended file is the mixed one with the first line and the third one blanked. -/
theorem blanked_mixedFile : Blanked [1, 3] 1 mixedFile.toList mendedFile.toList := by
  have hmixed : mixedFile.toList = "silent = maybe".toList ++ '\n' :: (";x = 1".toList ++
      '\n' :: ("foo\r".toList ++ '\n' :: ("throw_errors = OFF".toList ++ []))) := by decide +kernel
  have hmended : mendedFile.toList = '\n' :: (";x = 1".toList ++
      '\n' :: (' ' :: '\n' :: ("throw_errors = OFF".toList ++ []))) := by decide +kernel
  rw [hmixed, hmended]
  refine .drop_append (by decide) (by decide) (.feed ?_)
  refine .keep_append (by decide) (by decide) (.feed ?_)
  refine .drop_append (by decide) (by decide)
    (.blank (by decide) (by decide) (by decide) (.feed ?_))
  exact .keep_append (by decide) (by decide) .nil

/-- The file writes these settings. -/
theorem written_oddFile : oddSettings.Written oddFile := by
  refine ⟨[.importDir "x = y", .libs ["a=b", ";c d"], .throwErrors false, .silent true],
    ["import_dir =x = y\r".toList, [], " libs = a=b ,;c d".toList, ";silent = 0".toList,
      "throw_errors=Off".toList, "silent = ON".toList], fun x => ?_, ?_, by decide +kernel⟩
  · simp [parts, oddSettings, or_assoc, or_comm, or_left_comm]
  · refine .setting ⟨"import_dir ".toList, "x = y\r".toList, ?_, .importDir ?_, by decide⟩
      (by decide) ?_
    · exact ⟨[], [' '], by simp, by simp [isBlank], by decide⟩
    · exact ⟨[], ['\r'], by simp, by simp [isBlank], by decide⟩
    refine .idle (.blank (by simp)) (by decide) ?_
    refine .setting ⟨" libs ".toList, " a=b ,;c d".toList, ?_, .libs ?_, by decide⟩ (by decide) ?_
    · exact ⟨[' '], [' '], by simp [isBlank], by simp [isBlank], by decide⟩
    · have hname : Padded "a=b" " a=b ".toList :=
        ⟨[' '], [' '], by simp [isBlank], by simp [isBlank], by decide⟩
      exact .commas (.cons hname (.cons (padded_self ";c d") .nil))
    have hcomment : IsIdle ([] ++ ';' :: "silent = 0".toList) := .comment (by simp)
    refine .idle hcomment (by decide) ?_
    refine .setting ⟨_, "Off".toList, padded_self _, .throwErrors (by decide), by decide⟩
      (by decide) ?_
    refine .setting ⟨"silent ".toList, " ON".toList, ?_, .silent (by decide), by decide⟩
      (by decide) .nil
    exact ⟨[], [' '], by simp, by simp [isBlank], by decide⟩

/-- Their faults are reported, and the files without them are read as they should be. -/
theorem faults_isolated_mixedFile :
    (parse mixedFile).2 = [⟨1, .invalidBoolean "maybe"⟩, ⟨3, .notASetting "foo"⟩] ∧
    Blanked [1, 3] 1 mixedFile.toList mendedFile.toList ∧
    parse mendedFile = ({ throwErrors := false }, []) ∧
    oddSettings.IsWritable ∧ oddSettings.Written oddFile ∧ parse oddFile = (oddSettings, []) := by
  have hparse : parse mixedFile = ({ throwErrors := false },
      [⟨1, .invalidBoolean "maybe"⟩, ⟨3, .notASetting "foo"⟩]) := by decide +kernel
  have hwritable : oddSettings.IsWritable := ⟨by decide +kernel, by decide +kernel⟩
  obtain ⟨-, -, -, hmended⟩ := faults_isolated.1 mixedFile
  rw [hparse] at hmended
  exact ⟨by rw [hparse], blanked_mixedFile, hmended mendedFile blanked_mixedFile, hwritable,
    written_oddFile, (faults_isolated.2 oddSettings hwritable).2 oddFile written_oddFile⟩

end Settings

end LineScript
