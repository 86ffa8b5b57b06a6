import LineScript.Runner

set_option relaxedAutoImplicit false
set_option autoImplicit false

/-!
# The program

The runner on the real files, environment and streams. The run itself is a pure function of the
files read so far; whenever it needs one that has not been read, the file is read and the run is
started afresh.

## Main definitions

* `main` — the program.
-/

namespace LineScript.Program

/-- The text of the standard input. -/
partial def readInput (stream : IO.FS.Stream) (text : String) : IO String := do
  let line ← stream.getLine
  if line.isEmpty then pure text else readInput stream (text ++ line)

/-- The answer for a path on the file system. -/
def readPath (path : String) : IO FileAnswer := do
  try
    let bytes ← IO.FS.readBinFile path
    match String.fromUTF8? bytes with
    | some text => pure (.text text)
    | none => pure (.fault .notText)
  catch e =>
    match e with
    | .noFileOrDirectory _ _ _ => pure (.fault .absent)
    | .permissionDenied _ _ _ => pure (.fault .denied)
    | _ => pure (.fault .directory)

/-- The answers known so far, as a reader of files. -/
def known (answers : List (String × FileAnswer)) : FileReader :=
  fun path => (Assoc.get? path answers).getD .unread

/-- The values of the environment variables that matter. -/
def readEnvironment : List String → IO (List (String × String))
  | [] => pure []
  | name :: rest => do
    let others ← readEnvironment rest
    match ← IO.getEnv name with
    | some value => pure ((name, value) :: others)
    | none => pure others

/-- More steps than a run can take in a lifetime. -/
def stepBound : Nat := 1000000000000000000

/-- The run, started afresh after each file that it had to wait for. -/
partial def serve (inv : Invocation) (answers : List (String × FileAnswer)) : IO Report := do
  match Runner.run stepBound { inv with files := known answers } with
  | .ok report => pure report
  | .error (.awaiting path) => do
    let answer ← readPath path
    serve inv ((path, answer) :: answers)
  | .error .outOfSteps => pure { printed := [.message "hades: out of steps"], failed := true }

/-- A line is printed where it belongs. -/
def print : Printed → IO Unit
  | .output line => IO.println line
  | .message line => IO.eprintln line

/-- The runner with the given arguments. -/
def run (argv : List String) : IO UInt32 := do
  let values ← readEnvironment ["HADESRC", "XDG_CONFIG_HOME", "HOME"]
  let environment := fun name => Assoc.get? name values
  let stdin ← if argv.any FilePath.isStandardInput then readInput (← IO.getStdin) "" else pure ""
  let inv : Invocation :=
    { argv := argv
      files := fun _ => .unread
      stdin := stdin
      environment := environment
      home := environment "HOME" }
  let report ← serve inv []
  report.printed.forM print
  pure report.exitCode.toUInt32

end LineScript.Program

/-- The program. -/
def main (argv : List String) : IO UInt32 :=
  LineScript.Program.run argv
