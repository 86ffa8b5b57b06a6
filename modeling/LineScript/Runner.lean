import LineScript.Files
import LineScript.Options
import LineScript.Session.Run

set_option relaxedAutoImplicit false
set_option autoImplicit false

/-!
# The command-line runner

The runner reads its options and settings, then runs the inline code and the scripts in one session,
up to the first that fails. After each of them it prints the output and then the messages.

## Main definitions

* `LineScript.Invocation` — what the runner is started with.
* `LineScript.Printed`, `LineScript.Report` — what it prints and whether it failed.
* `LineScript.Runner.run` — the whole run.
-/

namespace LineScript

/-- What the runner is started with: its arguments, the files, the standard input, the environment
and the directory of the user. -/
structure Invocation where
  argv : List String
  files : FileReader
  stdin : String
  environment : String → Option String
  home : Option String

/-- A line printed as output or as a message. -/
inductive Printed where
  | output (line : String)
  | message (line : String)
  deriving Repr, DecidableEq

/-- What a run printed, and whether it failed. -/
structure Report where
  printed : List Printed
  failed : Bool
  deriving Repr

namespace Report

/-- The exit status. -/
def exitCode (r : Report) : Nat :=
  if r.failed then 1 else 0

/-- The text of the output. -/
def stdout (r : Report) : String :=
  String.join (r.printed.map fun
    | .output line => line ++ "\n"
    | .message _ => "")

/-- The text of the messages. -/
def stderr (r : Report) : String :=
  String.join (r.printed.map fun
    | .output _ => ""
    | .message line => line ++ "\n")

end Report

namespace Runner

/-- How the runner is used. -/
def usage : String :=
  "Usage: hades [-skd] [-f[<file>]] [-I<dir>] [-c<code>] [<script>...]"

/-- The directory of settings files: that of the environment if it is absolute, else the one below
the user's directory. -/
def settingsDirectory? (inv : Invocation) : Option String :=
  match inv.environment "XDG_CONFIG_HOME" with
  | some dir =>
    if FilePath.isAbsolute dir then some dir
    else inv.home.map fun home => FilePath.join home ".config"
  | none => inv.home.map fun home => FilePath.join home ".config"

/-- The places where a settings file is looked for, in order. -/
def settingsPlaces (inv : Invocation) : List String :=
  ((settingsDirectory? inv).map fun dir => FilePath.join dir "hades/hadesrc").toList ++ [".hadesrc"]

/-- The first of the paths that exists. -/
def firstExisting (files : FileReader) : List String → Except Stop (Option String)
  | [] => .ok none
  | path :: rest =>
    match files path with
    | .text _ | .fault .directory | .fault .denied | .fault .notText => .ok (some path)
    | .fault .absent => firstExisting files rest
    | .unread => .error (.awaiting path)

/-- The path of the settings file: the one that the environment names, else the first that exists.
-/
def searchSettings (inv : Invocation) : Except Stop (Option String) :=
  match inv.environment "HADESRC" with
  | some path => .ok (some path)
  | none => firstExisting inv.files (settingsPlaces inv)

/-- The path of the settings file that the options ask for. -/
def settingsPath (inv : Invocation) : SettingsFile → Except Stop (Option String)
  | .skip => .ok none
  | .explicit path => .ok (some path)
  | .search => searchSettings inv

/-- The settings of a file and the complaints about it. -/
def readSettings (files : FileReader) : Option String → Except Stop (Settings × List String)
  | none => .ok ({}, [])
  | some path =>
    match files path with
    | .unread => .error (.awaiting path)
    | .fault fault => .ok ({}, ["hades: warning: " ++ path ++ ": " ++ fault.text])
    | .text text =>
      let (settings, errors) := Settings.parse text
      .ok (settings, errors.map fun e => "hades: " ++ path ++ ": " ++ e.render)

/-- The settings with the options laid over them. -/
def overlay (o : Options) (s : Settings) : Settings :=
  { s with
    silent := s.silent || o.silent
    throwErrors := s.throwErrors && !o.keepGoing
    importDir := o.importDir <|> s.importDir }

/-- A run in progress: the session, the standard input that is left, what was printed, and whether
it failed. -/
structure Progress where
  session : Session
  stdin : String
  printed : List Printed := []
  failed : Bool := false

namespace Progress

/-- One more message is printed. -/
def complain (p : Progress) (line : String) : Progress :=
  { p with printed := p.printed ++ [.message line] }

/-- A source is run in its zone. What it left in the session is printed. -/
def execute (steps : Nat) (code zone : String) (p : Progress) : Except Stop Progress :=
  match (Session.executeIn steps code zone).runFrom p.session with
  | .error reason => .error reason
  | .ok (outcome, s) =>
    let lines := s.output.toList.map Printed.output
    let messages := s.log.toList.map fun m => Printed.message m.render
    .ok { p with
      session := { s with output := #[], log := #[] }
      printed := p.printed ++ lines ++ messages
      failed := !outcome.isOk }

/-- The source of a script, and the standard input that is left. -/
def source (files : FileReader) (path : String) (p : Progress) : FileAnswer × Progress :=
  if FilePath.isStandardInput path then (.text p.stdin, { p with stdin := "" })
  else (files path, p)

/-- Imports are looked for beside the script, unless the settings say where. -/
def placeLoader (files : FileReader) (path : String) (p : Progress) : Progress :=
  match p.session.settings.importDir with
  | some _ => p
  | none =>
    let loader := directoryLoader files (FilePath.parent path)
    { p with session := { p.session with loader := some loader } }

/-- A script is read and run. -/
def runScript (steps : Nat) (files : FileReader) (path : String) (p : Progress) :
    Except Stop Progress :=
  match p.source files path with
  | (.unread, _) => .error (.awaiting path)
  | (.fault fault, p) =>
    .ok { p.complain ("hades: " ++ path ++ ": " ++ fault.text) with failed := true }
  | (.text code, p) => (p.placeLoader files path).execute steps code path

/-- The scripts are run, up to the first that fails. -/
def runScripts (steps : Nat) (files : FileReader) : List String → Progress → Except Stop Progress
  | [], p => .ok p
  | path :: rest, p =>
    if p.failed then .ok p
    else
      match p.runScript steps files path with
      | .error reason => .error reason
      | .ok p => runScripts steps files rest p

/-- The inline code is run, if there is any. -/
def runCode (steps : Nat) (p : Progress) : Option String → Except Stop Progress
  | none => .ok p
  | some code => p.execute steps code "-c"

end Progress

/-- The run that the options ask for. -/
def runOptions (steps : Nat) (inv : Invocation) (o : Options) : Except Stop Report := do
  let path ← settingsPath inv o.settingsFile
  let (fileSettings, complaints) ← readSettings inv.files path
  let settings := overlay o fileSettings
  let session := Session.ofSettings settings (settings.importDir.map (directoryLoader inv.files))
  let p : Progress :=
    { session := session, stdin := inv.stdin, printed := complaints.map Printed.message }
  let p ← p.runCode steps o.code
  let p ← p.runScripts steps inv.files o.scripts
  pure { printed := p.printed, failed := p.failed }

/-- The whole run, with at most `steps` steps for each source. -/
def run (steps : Nat) (inv : Invocation) : Except Stop Report :=
  match Options.parse inv.argv with
  | .error e =>
    .ok { printed := [.message ("hades: " ++ e.text), .message usage], failed := true }
  | .ok o => runOptions steps inv o

end Runner

end LineScript
