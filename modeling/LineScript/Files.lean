import LineScript.Session.Basic

set_option relaxedAutoImplicit false
set_option autoImplicit false

/-!
# Files and paths

Files are read through a function that answers for a path. Paths are texts with slashes between
their components, and are shown as they were given.

## Main definitions

* `LineScript.FileFault`, `LineScript.FileAnswer`, `LineScript.FileReader` — what reading a file can
  lead to.
* `LineScript.FilePath.join`, `LineScript.FilePath.parent` — a path below a directory, and the
  directory of a path.
* `LineScript.directoryLoader` — imports looked for in a directory.
* `LineScript.FileTree` — the files below a working directory, and `LineScript.FileTree.read`.
-/

namespace LineScript

/-- Why a file cannot be read. -/
inductive FileFault where
  | absent
  | directory
  | denied
  | notText
  deriving Repr, DecidableEq

/-- The wording of a fault. -/
def FileFault.text : FileFault → String
  | .absent => "No such file or directory (os error 2)"
  | .directory => "Is a directory (os error 21)"
  | .denied => "Permission denied (os error 13)"
  | .notText => "stream did not contain valid UTF-8"

/-- The answer to a request for a file: its text, a fault, or that it has not been read. -/
inductive FileAnswer where
  | text (content : String)
  | fault (fault : FileFault)
  | unread
  deriving Repr, DecidableEq

/-- How files are read. -/
abbrev FileReader : Type :=
  String → FileAnswer

namespace FilePath

/-- The components of a path, empty ones included. -/
def components (path : String) : List String :=
  (Text.pieces ['/'] path.toList).map String.ofList

/-- Whether a path starts at the root. -/
def isAbsolute (path : String) : Bool :=
  path.toList.head? == some '/'

/-- The path `path` seen from the directory `dir`. An absolute path stays as it is. -/
def join (dir path : String) : String :=
  if isAbsolute path || dir = "" then path
  else if dir.toList.getLast? == some '/' then dir ++ path
  else dir ++ "/" ++ path

/-- Whether a component adds nothing to the path before it. -/
def isIdle (component : String) : Bool :=
  component = "" || component = "."

/-- Components, last one first, without those at the end that add nothing. The first one stays. -/
def dropIdle : List String → List String
  | [] => []
  | [component] => [component]
  | component :: rest => if isIdle component then dropIdle rest else component :: rest

/-- The directory of a path: `.` if it has a single component, and the root below the root. -/
def parent (path : String) : String :=
  match dropIdle (dropIdle (components path).reverse).tail with
  | [] => "."
  | [""] => "/"
  | rest => String.intercalate "/" rest.reverse

/-- Whether a path stands for the standard input. -/
def isStandardInput (path : String) : Bool :=
  dropIdle (components path).reverse = ["-"]

end FilePath

/-- Imports looked for in a directory. -/
def directoryLoader (files : FileReader) (dir : String) : Loader :=
  fun id =>
    let path := FilePath.join dir id
    match files path with
    | .text code => .text code
    | .fault fault => .missing (path ++ ": " ++ fault.text)
    | .unread => .unread path

/-- The files below a working directory, by their relative paths. -/
structure FileTree where
  files : List (String × String) := []
  deriving Repr

namespace FileTree

/-- The text of the file with these components. -/
def file? (t : FileTree) (place : List String) : Option String :=
  (t.files.find? fun file => FilePath.components file.1 = place).map Prod.snd

/-- Whether there is a directory with these components: the working directory, or one with a file
below it. -/
def hasDirectory (t : FileTree) (place : List String) : Bool :=
  place.isEmpty ||
    t.files.any fun file =>
      place.isPrefixOf (FilePath.components file.1) && place ≠ FilePath.components file.1

/-- The answer for the components of a path, seen from the directory `place`. -/
def readFrom (t : FileTree) (place : List String) : List String → FileAnswer
  | [] => .fault .directory
  | component :: rest =>
    if FilePath.isIdle component then t.readFrom place rest
    else if component = ".." then
      if place.isEmpty then .fault .absent else t.readFrom place.dropLast rest
    else
      let inner := place ++ [component]
      if t.hasDirectory inner then t.readFrom inner rest
      else
        match rest, t.file? inner with
        | [], some content => .text content
        | _, _ => .fault .absent

/-- The answer for a path. Nothing but the root lies outside the working directory. -/
def read (t : FileTree) : FileReader :=
  fun path =>
    if path = "" then .fault .absent
    else if FilePath.isAbsolute path then
      if (FilePath.components path).all FilePath.isIdle then .fault .directory else .fault .absent
    else t.readFrom [] (FilePath.components path)

end FileTree

end LineScript
