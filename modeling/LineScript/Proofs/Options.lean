import LineScript.Options
import LineScript.Proofs.Unordered

set_option relaxedAutoImplicit false
set_option autoImplicit false

/-!
# Command lines, written and read

A command line writes options as clusters of letters. Flags may stand in any cluster; an option with
a value ends its cluster, and takes the rest of it or else the next argument, whatever that looks
like. After all options come two dashes and the scripts. However the options are spread over
clusters, and in whichever order, they are read back.

## Main definitions

* `LineScript.Switch` — what a single option asks for.
* `LineScript.Options.Clustered`, `LineScript.Options.Spelled` — the ways to write options as a
  cluster, and as the arguments of a command line.
* `LineScript.Options.Written` — the command lines that write given options and scripts.

## Main results

* `LineScript.Options.Clustered.take_eq` — an argument that is a cluster, together with the argument
  that it takes for a value.
* `LineScript.Options.parse_written` — options that are written are read back.
-/

namespace LineScript

/-! ## Options one by one -/

/-- The options without a value. -/
inductive Flag where
  | silent
  | keepGoing
  | debug
  deriving Repr, DecidableEq

/-- The letter of a flag. -/
def Flag.letter : Flag → Char
  | .silent => 's'
  | .keepGoing => 'k'
  | .debug => 'd'

/-- The letter of an option that takes a value. -/
def ValueOption.letter : ValueOption → Char
  | .code => 'c'
  | .importDir => 'I'

/-- What a single option asks for. -/
inductive Switch where
  | flag (f : Flag)
  | settingsFile (file : SettingsFile)
  | value (option : ValueOption) (text : String)
  deriving Repr, DecidableEq

/-- The letter of an option. -/
def Switch.letter : Switch → Char
  | .flag f => f.letter
  | .settingsFile _ => 'f'
  | .value option _ => option.letter

namespace Options

/-- The options with one of them given. -/
def turn (o : Options) : Switch → Options
  | .flag .silent => { o with silent := true }
  | .flag .keepGoing => { o with keepGoing := true }
  | .flag .debug => { o with debug := true }
  | .settingsFile file => { o with settingsFile := file }
  | .value option text => o.put option text

/-- The options that are given, one by one. Searching for the settings file is what happens without
one. -/
def switches (o : Options) : List Switch :=
  (if o.silent then [.flag .silent] else []) ++ (if o.keepGoing then [.flag .keepGoing] else []) ++
    (if o.debug then [.flag .debug] else []) ++
    (if o.settingsFile = .search then [] else [.settingsFile o.settingsFile]) ++
    o.importDir.toList.map (.value .importDir) ++ o.code.toList.map (.value .code)

/-! ## Arguments -/

/-- The options `xs` are written as a cluster: the letters after its dash, and the arguments that
follow it and belong to it. Flags may come first; any other option is the last one of its cluster.
-/
inductive Clustered : List Switch → List Char → List String → Prop
  | nil : Clustered [] [] []
  | flag {f : Flag} {xs : List Switch} {cs : List Char} {next : List String} :
      Clustered xs cs next → Clustered (.flag f :: xs) (f.letter :: cs) next
  | skip : Clustered [.settingsFile .skip] ['f'] []
  | file {path : String} : Clustered [.settingsFile (.explicit path)] ('f' :: path.toList) []
  | attached {option : ValueOption} {text : String} :
      text ≠ "" → Clustered [.value option text] (option.letter :: text.toList) []
  | apart {option : ValueOption} {text : String} :
      Clustered [.value option text] [option.letter] [text]

/-- The options `xs` are written as arguments: clusters, each with the argument that it takes for a
value. -/
inductive Spelled : List Switch → List String → Prop
  | nil : Spelled [] []
  | cluster {xs ys : List Switch} {cs : List Char} {next args : List String} :
      cs ≠ [] → Clustered xs cs next → Spelled ys args →
      Spelled (xs ++ ys) (String.ofList ('-' :: cs) :: (next ++ args))

/-- The command lines that write the options: those that are given, in any order, and then two
dashes and the scripts as they are. -/
def Written (o : Options) (argv : List String) : Prop :=
  ∃ xs args, (∀ x, x ∈ xs ↔ x ∈ o.switches) ∧ Spelled xs args ∧ argv = args ++ "--" :: o.scripts

variable {xs : List Switch} {cs : List Char} {next args : List String}

/-- No path of a settings file is empty: an empty one would not show in the argument. -/
def NamesFiles (xs : List Switch) : Prop :=
  .settingsFile (.explicit "") ∉ xs

/-- No cluster goes on with a dash, so none is taken for the two dashes. -/
theorem Clustered.head?_ne_dash (h : Clustered xs cs next) : cs.head? ≠ some '-' := by
  cases h with
  | nil => simp
  | @flag f _ _ _ _ => cases f <;> simp [Flag.letter]
  | skip => simp
  | file => simp
  | @attached option _ _ => cases option <;> simp [ValueOption.letter]
  | @apart option _ => cases option <;> simp [ValueOption.letter]

/-- **A cluster that is read** has given its options, or all but the last one, which waits for the
argument after it.

**Proof sketch.** Induction on the cluster. A flag is turned and the rest is read; an option takes
all that is left of the cluster as its value, or waits for the next argument if nothing is left. -/
theorem Clustered.cluster_eq (h : Clustered xs cs next) (hfiles : NamesFiles xs) (o : Options) :
    (o.cluster cs = .ok (xs.foldl turn o, none) ∧ next = []) ∨
    ∃ o' option text, o.cluster cs = .ok (o', some option) ∧ next = [text] ∧
      xs.foldl turn o = o'.put option text := by
  induction h generalizing o with
  | nil => exact .inl ⟨rfl, rfl⟩
  | @flag f xs cs next _ ih =>
    have hrest := ih (fun hmem => hfiles (List.mem_cons_of_mem _ hmem)) (o.turn (.flag f))
    cases f <;> exact hrest
  | skip => exact .inl ⟨rfl, rfl⟩
  | @file path =>
    refine .inl ⟨?_, rfl⟩
    have hpath : path.toList ≠ [] := by
      intro hnil
      obtain rfl : path = "" := by simpa using hnil
      exact hfiles List.mem_cons_self
    obtain ⟨c, cs, hcs⟩ := List.exists_cons_of_ne_nil hpath
    have hread : o.cluster ('f' :: c :: cs) =
        .ok ({ o with settingsFile := .explicit (String.ofList (c :: cs)) }, none) := rfl
    rw [hcs, hread, ← hcs, String.ofList_toList]
    rfl
  | @attached option text htext =>
    refine .inl ⟨?_, rfl⟩
    have hattached : o.takeValue option text.toList = (o.put option text, none) := by
      rw [takeValue, if_neg (by simpa using htext), String.ofList_toList]
    cases option <;> exact congrArg Except.ok hattached
  | @apart option text =>
    refine .inr ⟨o, option, text, ?_, rfl, rfl⟩
    cases option <;> rfl

/-- A cluster, and the argument that it takes for a value, give its options. -/
theorem Clustered.take_eq (h : Clustered xs cs next) (hne : cs ≠ []) (hfiles : NamesFiles xs)
    (o : Options) (rest : List String) :
    o.take (String.ofList ('-' :: cs) :: (next ++ rest)) = (xs.foldl turn o).take rest := by
  have hdashes : String.ofList ('-' :: cs) ≠ "--" := by
    intro heq
    have hchars : '-' :: cs = ['-', '-'] := by simpa using congrArg String.toList heq
    have hcs : cs = ['-'] := List.tail_eq_of_cons_eq hchars
    exact h.head?_ne_dash (by rw [hcs]; rfl)
  have hcluster : isCluster (String.ofList ('-' :: cs)) = true := by
    simp [isCluster, hne]
  rw [take, if_neg hdashes, if_pos hcluster, String.toList_ofList, List.tail_cons]
  rcases h.cluster_eq hfiles o with ⟨hread, rfl⟩ | ⟨o', option, text, hread, rfl, hput⟩
  · rw [hread]
    rfl
  · rw [hread, hput]
    rfl

/-- **Arguments that write options** give them one after another, and later ones count. -/
theorem Spelled.take_eq (h : Spelled xs args) (hfiles : NamesFiles xs) (o : Options)
    (rest : List String) : o.take (args ++ rest) = (xs.foldl turn o).take rest := by
  induction h generalizing o with
  | nil => rfl
  | @cluster xs ys cs next args hne hcluster _ ih =>
    have hxs : NamesFiles xs := fun hmem => hfiles (List.mem_append_left _ hmem)
    have hys : NamesFiles ys := fun hmem => hfiles (List.mem_append_right _ hmem)
    rw [List.cons_append, List.append_assoc, hcluster.take_eq hne hxs, ih hys, List.foldl_append]

/-! ## The options of a command line -/

/-- Which options are given: one for each field that is not as it is without options. -/
theorem mem_switches_iff {o : Options} {x : Switch} : x ∈ o.switches ↔
    (o.silent = true ∧ x = .flag .silent) ∨ (o.keepGoing = true ∧ x = .flag .keepGoing) ∨
    (o.debug = true ∧ x = .flag .debug) ∨
    (o.settingsFile ≠ .search ∧ x = .settingsFile o.settingsFile) ∨
    (∃ dir, o.importDir = some dir ∧ x = .value .importDir dir) ∨
    ∃ code, o.code = some code ∧ x = .value .code code := by
  simp only [switches, List.mem_append, List.mem_ite_nil_right, List.mem_ite_nil_left,
    List.mem_singleton, List.mem_map, Option.mem_toList, or_assoc, eq_comm (b := x), ne_eq]

/-- Options with different letters may change places. -/
theorem turn_comm (o : Options) {x y : Switch} (h : x.letter ≠ y.letter) :
    (o.turn x).turn y = (o.turn y).turn x := by
  rcases x with ⟨_ | _ | _⟩ | _ | ⟨_ | _, _⟩ <;> rcases y with ⟨_ | _ | _⟩ | _ | ⟨_ | _, _⟩ <;>
    first | rfl | exact absurd rfl h

/-- The options of a command line are different ones, so their order does not matter. -/
theorem unordered_switches (o : Options) : Unordered turn o.switches := by
  have hsame : ∀ x ∈ o.switches, ∀ y ∈ o.switches, x.letter = y.letter → x = y := by
    intro x hx y hy hletter
    rcases mem_switches_iff.1 hx with
      ⟨_, rfl⟩ | ⟨_, rfl⟩ | ⟨_, rfl⟩ | ⟨_, rfl⟩ | ⟨_, hx, rfl⟩ | ⟨_, hx, rfl⟩ <;>
    rcases mem_switches_iff.1 hy with
      ⟨_, rfl⟩ | ⟨_, rfl⟩ | ⟨_, rfl⟩ | ⟨_, rfl⟩ | ⟨_, hy, rfl⟩ | ⟨_, hy, rfl⟩ <;>
    simp_all [Switch.letter, Flag.letter, ValueOption.letter]
  refine ⟨fun x hx y hy o' => ?_, fun x _ o' => ?_⟩
  · by_cases hletter : x.letter = y.letter
    · rw [hsame x hx y hy hletter]
    · exact turn_comm o' hletter
  · rcases x with ⟨_ | _ | _⟩ | _ | ⟨_ | _, _⟩ <;> rfl

/-- Given one by one on top of the defaults, the options are all there but for the scripts. -/
theorem foldl_turn_switches (o : Options) :
    o.switches.foldl turn {} = { o with scripts := [] } := by
  obtain ⟨silent, keepGoing, debug, settingsFile, importDir, code, scripts⟩ := o
  cases silent <;> cases keepGoing <;> cases debug <;> cases settingsFile <;> cases importDir <;>
    cases code <;> rfl

/-- Options that name no empty path give none. -/
theorem namesFiles_switches {o : Options} (h : o.settingsFile ≠ .explicit "") :
    NamesFiles o.switches := by
  intro hmem
  simp only [mem_switches_iff, reduceCtorEq, Switch.settingsFile.injEq, and_false,
    exists_false, false_or, or_false] at hmem
  exact h hmem.2.symm

/-- Every option that can be given has a cluster of its own. -/
theorem exists_clustered {x : Switch} (h : x ≠ .settingsFile .search) :
    ∃ cs next, cs ≠ [] ∧ Clustered [x] cs next := by
  cases x with
  | flag f => exact ⟨[f.letter], [], by simp, .flag .nil⟩
  | settingsFile file =>
    cases file with
    | search => exact absurd rfl h
    | skip => exact ⟨['f'], [], by simp, .skip⟩
    | explicit path => exact ⟨'f' :: path.toList, [], by simp, .file⟩
  | value option text => exact ⟨[option.letter], [text], by simp, .apart⟩

/-- Options can be spelled, one argument or two for each. By induction on them. -/
theorem exists_spelled (h : .settingsFile .search ∉ xs) : ∃ args, Spelled xs args := by
  induction xs with
  | nil => exact ⟨[], .nil⟩
  | cons x xs ih =>
    rw [List.mem_cons, not_or] at h
    obtain ⟨args, hargs⟩ := ih h.2
    obtain ⟨cs, next, hne, hcluster⟩ := exists_clustered (Ne.symm h.1)
    exact ⟨_, .cluster hne hcluster hargs⟩

/-- **Every choice of options can be written** on a command line. -/
theorem exists_written (o : Options) : ∃ argv, o.Written argv := by
  have hsearch : .settingsFile .search ∉ o.switches := by
    simp only [mem_switches_iff, reduceCtorEq, Switch.settingsFile.injEq, and_false,
      exists_false, false_or, or_false, not_and]
    exact fun hne => Ne.symm hne
  obtain ⟨args, hargs⟩ := exists_spelled hsearch
  exact ⟨_, o.switches, args, fun _ => Iff.rfl, hargs, rfl⟩

/-- **Options that are written are read back.** Options that ask for something to run, and whose
settings file, if it is given, has a path that is not empty, can be written as a command line; and
every command line that writes them, its flags apart or in clusters, its values attached or as
arguments of their own, in any order, and then two dashes and the scripts, is read as exactly these
options.

**Proof sketch.** An argument that is a cluster gives its options in turn, and takes the next
argument if the last of them has no value attached (`Clustered.take_eq`), so that nothing is ever
read twice or left over (`Spelled.take_eq`). The options of a command line set different fields
(`unordered_switches`). -/
theorem parse_written (o : Options) (hrun : o.code ≠ none ∨ o.scripts ≠ [])
    (hfile : o.settingsFile ≠ .explicit "") :
    (∃ argv, o.Written argv) ∧ ∀ argv, o.Written argv → parse argv = .ok o := by
  refine ⟨o.exists_written, ?_⟩
  rintro _ ⟨xs, args, hxs, hargs, rfl⟩
  have hfiles : NamesFiles xs := fun hmem => namesFiles_switches hfile ((hxs _).1 hmem)
  have htake : ({} : Options).take (args ++ "--" :: o.scripts) = .ok o := by
    rw [hargs.take_eq hfiles, o.unordered_switches.foldl_eq hxs, foldl_turn_switches, take,
      if_pos rfl, List.nil_append]
  have hsomething : (o.code.isNone && o.scripts.isEmpty) = false := by
    rcases hrun with hcode | hscripts
    · simp [hcode]
    · simp [hscripts]
  simp [parse, htake, hsomething]

/-- Options with values that look like options. -/
def trickyOptions : Options :=
  { silent := true, debug := true, settingsFile := .explicit "s", importDir := some "",
    code := some "--", scripts := ["-c", "--"] }

/-- A command line for them, with a flag that is given twice. -/
def trickyLine : List String :=
  ["-dsc", "--", "-I", "", "-sfs", "--", "-c", "--"]

/-- The command line writes these options. -/
theorem written_trickyLine : trickyOptions.Written trickyLine := by
  refine ⟨[.flag .debug, .flag .silent, .value .code "--"] ++ ([.value .importDir ""] ++
    ([.flag .silent, .settingsFile (.explicit "s")] ++ [])), ["-dsc", "--", "-I", "", "-sfs"],
    fun x => ⟨?_, ?_⟩, ?_, rfl⟩
  · revert x
    decide
  · revert x
    decide
  · exact .cluster (by simp) (.flag (.flag .apart)) (.cluster (by simp) .apart
      (.cluster (by simp) (.flag .file) .nil))

/-- It is read as these options. -/
theorem parse_written_trickyLine :
    trickyOptions.code ≠ none ∧ trickyOptions.settingsFile ≠ .explicit "" ∧
    trickyOptions.Written trickyLine ∧ parse trickyLine = .ok trickyOptions := by
  have hcode : trickyOptions.code ≠ none := by decide
  have hfile : trickyOptions.settingsFile ≠ .explicit "" := by decide
  exact ⟨hcode, hfile, written_trickyLine,
    (parse_written trickyOptions (.inl hcode) hfile).2 trickyLine written_trickyLine⟩

end Options

end LineScript
