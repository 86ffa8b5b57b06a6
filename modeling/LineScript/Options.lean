set_option relaxedAutoImplicit false
set_option autoImplicit false

/-!
# Command-line options

Options are single letters after a dash and may be clustered: `-s`, `-k` and `-d` are flags, `-f`
takes a file that must be attached, and `-c` and `-I` take a value, either attached or as the next
argument. Everything after `--` is the path of a script, and so is `-`, which stands for the
standard input.

## Main definitions

* `LineScript.Options` — what the command line asks for.
* `LineScript.UsageError` — what can be wrong with it.
* `LineScript.Options.parse` — the options of an argument list.
-/

namespace LineScript

/-- Which settings file to load: the one found in the usual places, none, or a given one. -/
inductive SettingsFile where
  | search
  | skip
  | explicit (path : String)
  deriving Repr, DecidableEq

/-- What the command line asks for. -/
structure Options where
  silent : Bool := false
  keepGoing : Bool := false
  debug : Bool := false
  settingsFile : SettingsFile := .search
  importDir : Option String := none
  code : Option String := none
  scripts : List String := []
  deriving Repr, DecidableEq

/-- What can be wrong with a command line. -/
inductive UsageError where
  | missingCode
  | missingDirectory
  | unknownOption (c : Char)
  | nothingToRun
  deriving Repr, DecidableEq

/-- The wording of a usage error. -/
def UsageError.text : UsageError → String
  | .missingCode => "-c requires code"
  | .missingDirectory => "-I requires a directory argument"
  | .unknownOption c => "unknown option: -" ++ c.toString
  | .nothingToRun => "nothing to run"

/-- The options that take a value. -/
inductive ValueOption where
  | code
  | importDir
  deriving Repr, DecidableEq

/-- The error when the value of an option is missing. -/
def ValueOption.missing : ValueOption → UsageError
  | .code => .missingCode
  | .importDir => .missingDirectory

namespace Options

/-- The options with the value of one of them set. -/
def put (o : Options) (option : ValueOption) (value : String) : Options :=
  match option with
  | .code => { o with code := some value }
  | .importDir => { o with importDir := some value }

/-- The options with one more script. -/
def addScript (o : Options) (path : String) : Options :=
  { o with scripts := o.scripts ++ [path] }

/-- An option that takes a value, before the rest of its cluster: an attached value is taken, else
the option waits for the next argument. -/
def takeValue (o : Options) (option : ValueOption) (attached : List Char) :
    Options × Option ValueOption :=
  if attached.isEmpty then (o, some option) else (o.put option (String.ofList attached), none)

/-- The options after a cluster, and the option at its end that waits for a value. -/
def cluster (o : Options) : List Char → Except UsageError (Options × Option ValueOption)
  | [] => .ok (o, none)
  | 's' :: cs => { o with silent := true }.cluster cs
  | 'k' :: cs => { o with keepGoing := true }.cluster cs
  | 'd' :: cs => { o with debug := true }.cluster cs
  | 'f' :: [] => .ok ({ o with settingsFile := .skip }, none)
  | 'f' :: cs => .ok ({ o with settingsFile := .explicit (String.ofList cs) }, none)
  | 'c' :: cs => .ok (o.takeValue .code cs)
  | 'I' :: cs => .ok (o.takeValue .importDir cs)
  | c :: _ => .error (.unknownOption c)

/-- Whether an argument is a cluster of options. -/
def isCluster (arg : String) : Bool :=
  arg.toList.head? == some '-' && arg != "-"

/-- The options after all arguments. -/
def take (o : Options) : List String → Except UsageError Options
  | [] => .ok o
  | arg :: rest =>
    if arg = "--" then .ok { o with scripts := o.scripts ++ rest }
    else if isCluster arg then
      match o.cluster arg.toList.tail with
      | .error e => .error e
      | .ok (o, none) => o.take rest
      | .ok (o, some option) =>
        match rest with
        | [] => .error option.missing
        | value :: rest => (o.put option value).take rest
    else (o.addScript arg).take rest

/-- The options of an argument list, which must ask for something to run. -/
def parse (argv : List String) : Except UsageError Options :=
  match ({} : Options).take argv with
  | .error e => .error e
  | .ok o =>
    if o.code.isNone && o.scripts.isEmpty then .error .nothingToRun else .ok o

end Options

end LineScript
