import LineScript.Text.Blank
import LineScript.Text.Lines
import LineScript.Text.Search

set_option relaxedAutoImplicit false
set_option autoImplicit false

/-!
# Settings

A settings file has one `key = value` per line; blank lines and lines that start with a semicolon
are skipped. A line that cannot be read is reported and changes nothing.

## Main definitions

* `LineScript.Settings` — the settings.
* `LineScript.SettingFault`, `LineScript.SettingsError` — what is wrong with a line.
* `LineScript.Settings.apply` — one setting.
* `LineScript.Settings.parse` — the settings of a file.
-/

namespace LineScript

/-- How scripts are run: whether their output goes to the log, whether an error fails the run, which
libraries are there, and where imports are looked for. -/
structure Settings where
  silent : Bool := false
  throwErrors : Bool := true
  libs : List String := ["math", "string", "array"]
  importDir : Option String := none
  deriving Repr, DecidableEq, Inhabited

/-- What can be wrong with a line of a settings file. -/
inductive SettingFault where
  | notASetting (line : String)
  | invalidBoolean (value : String)
  | missingPath
  | unknownKey (key : String)
  deriving Repr, DecidableEq

/-- The wording of a fault. -/
def SettingFault.text : SettingFault → String
  | .notASetting line => "expected key = value: " ++ line
  | .invalidBoolean value => "invalid boolean '" ++ value ++ "'"
  | .missingPath => "import_dir needs a path"
  | .unknownKey key => "unknown setting '" ++ key ++ "'"

/-- A fault with the number of its line. -/
structure SettingsError where
  line : Nat
  fault : SettingFault
  deriving Repr, DecidableEq

/-- The fault with its place. -/
def SettingsError.render (e : SettingsError) : String :=
  "line " ++ toString e.line ++ ": " ++ e.fault.text

namespace Settings

/-- A truth value, in any case. -/
def parseBool (value : String) : Except SettingFault Bool :=
  match String.ofList (value.toList.map Char.toLower) with
  | "true" => .ok true
  | "on" => .ok true
  | "1" => .ok true
  | "false" => .ok false
  | "off" => .ok false
  | "0" => .ok false
  | _ => .error (.invalidBoolean value)

/-- The names of a comma-separated list. -/
def parseNames (value : String) : List String :=
  ((Text.pieces [','] value.toList).map fun piece => String.ofList (Text.trimChars piece)).filter
    (· != "")

/-- The settings with one of them set. -/
def apply (s : Settings) (key value : String) : Except SettingFault Settings :=
  match key with
  | "silent" => (parseBool value).map fun b => { s with silent := b }
  | "throw_errors" => (parseBool value).map fun b => { s with throwErrors := b }
  | "libs" => .ok { s with libs := parseNames value }
  | "import_dir" =>
    if value = "" then .error .missingPath else .ok { s with importDir := some value }
  | key => .error (.unknownKey key)

/-- The settings after a trimmed line that is neither blank nor a comment. -/
def applyLine (s : Settings) (line : String) : Except SettingFault Settings :=
  match Text.cutAt? ['='] line.toList with
  | none => .error (.notASetting line)
  | some (key, value) =>
    s.apply (String.ofList (Text.trimChars key)) (String.ofList (Text.trimChars value))

/-- Whether a trimmed line is skipped: if it is blank or a comment. -/
def skipped (line : String) : Bool :=
  line = "" || line.toList.head? == some ';'

/-- The settings after the lines from number `number` on, and the errors in them. -/
def applyLines (s : Settings) (number : Nat) : List String → Settings × List SettingsError
  | [] => (s, [])
  | raw :: rest =>
    let line := Text.trim raw
    if skipped line then s.applyLines (number + 1) rest
    else
      match s.applyLine line with
      | .ok s => s.applyLines (number + 1) rest
      | .error fault =>
        let (s, errors) := s.applyLines (number + 1) rest
        (s, ⟨number, fault⟩ :: errors)

/-- The settings of a file, on top of the defaults, and the errors in it. -/
def parse (text : String) : Settings × List SettingsError :=
  ({} : Settings).applyLines 1 (Text.lines text)

end Settings

end LineScript
