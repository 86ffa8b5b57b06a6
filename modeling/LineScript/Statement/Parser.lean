import LineScript.Statement.Basic
import LineScript.Statement.ForHeader

set_option relaxedAutoImplicit false
set_option autoImplicit false

/-!
# Reading statements

## Main definitions

* `LineScript.Statement.parse` — the statement on a trimmed line that is neither blank nor a
  comment.
* `LineScript.Statement.Reading` — the statements that can be read off a first word.

## Main results

* `LineScript.Statement.reading_of_ofCommand` — what is read off a first word is one of these.
-/

namespace LineScript.Statement

/-- The parts of a `set` statement: the path, what to do, and the formula. -/
def parseSet (text : String) : Except ScriptError Statement :=
  match Pattern.dollarName? Pattern.isDottedChar text.toList with
  | none => .error (.invalidSyntax .setStatement)
  | some (path, after) =>
    let parsed :=
      match Text.trimStart after with
      | '=' :: rest => some (AssignMode.replace, rest)
      | '+' :: rest => some (.add, rest)
      | '-' :: rest => some (.sub, rest)
      | '*' :: rest => some (.mul, rest)
      | '/' :: rest => some (.div, rest)
      | _ => none
    match parsed with
    | none => .error (.invalidSyntax .setStatement)
    | some (mode, rest) =>
      match Pattern.restAfter? 0 false rest with
      | none => .error (.invalidSyntax .setStatement)
      | some src => .ok (.set path mode src)

/-- The parts of a `for` statement. -/
def parseFor (text : String) : Except ScriptError Statement :=
  match Pattern.forHeader? text.toList with
  | some header => .ok (.count header.name header.start header.stop header.step)
  | none => .error (.invalidSyntax .forBlock)

/-- The parts of a `foreach` statement: `$name in` and a formula. -/
def parseForeach (text : String) : Except ScriptError Statement :=
  let parsed := do
    let (name, after) ← Pattern.dollarName? Text.isWordChar text.toList
    let rest ← Pattern.afterBlanksAndWord? "in" after
    let src ← Pattern.restAfter? 1 false rest
    pure (Statement.each name src)
  match parsed with
  | some statement => .ok statement
  | none => .error (.invalidSyntax .foreachBlock)

/-- The parts of a function definition: a name without colons and optional parameters. -/
def parseFunction (text : String) : Except ScriptError Statement :=
  match Pattern.command? Text.isWordChar false text.toList with
  | some (name, params) => .ok (.function name params)
  | none => .error (.invalidSyntax .functionDefinition)

/-- A declaration with the given lifetime. -/
def parseDeclare (lifetime : Lifetime) : Option String → Except ScriptError Statement
  | some list => .ok (.declare lifetime list)
  | none => .error (.invalidSyntax .declaration)

/-- The statement with the first word `word` and the text `params` after it. -/
def ofCommand (word : String) (params : Option String) : Except ScriptError Statement :=
  let text := params.getD ""
  match word with
  | "return" => .ok (.giveBack params)
  | "echo" => .ok (.echo text)
  | "eval" => .ok (.eval text)
  | "import" => .ok (.load text)
  | "namespace" =>
    if params = some "global" then .ok (.enterNamespace none) else .ok (.enterNamespace params)
  | "var" => parseDeclare .localScope params
  | "global" => parseDeclare .globalScope params
  | "const" => parseDeclare .constant params
  | "set" => parseSet text
  | "if" => .ok (.branch text)
  | "elseif" => .ok (.otherwiseIf text)
  | "else" => .ok .otherwise
  | "while" => .ok (.loop text)
  | "for" => parseFor text
  | "foreach" => parseForeach text
  | "function" => parseFunction text
  | "macro" => parseFunction text
  | "end" => .ok .close
  | name => .ok (.call name params)

/-- The statement on a line. -/
def parse (line : String) : Except ScriptError Statement :=
  match Pattern.command? Pattern.isQualifiedChar false line.toList with
  | none => .error .invalidCommand
  | some (word, params) => ofCommand word params

/-! ## What can be read -/

variable {word text : String} {params : Option String} {st : Statement}

/-- A declaration has a list. -/
theorem exists_of_parseDeclare {lifetime : Lifetime} (h : parseDeclare lifetime params = .ok st) :
    ∃ list, st = .declare lifetime list := by
  cases params with
  | none => cases h
  | some list =>
    cases h
    exact ⟨list, rfl⟩

/-- A `set` statement has a path and a formula. -/
theorem exists_of_parseSet (h : parseSet text = .ok st) :
    ∃ path mode src, st = .set path mode src := by
  rw [parseSet] at h
  split at h
  · cases h
  · dsimp only at h
    split at h
    · cases h
    · split at h
      · cases h
      · cases h
        exact ⟨_, _, _, rfl⟩

/-- A counting loop has the name after the dollar sign of its header. -/
theorem exists_of_parseFor (h : parseFor text = .ok st) :
    ∃ name start stop step, st = .count name start stop step ∧
      ∃ after, Pattern.dollarName? Text.isWordChar text.toList = some (name, after) := by
  rw [parseFor] at h
  cases hheader : Pattern.forHeader? text.toList with
  | none => simp [hheader] at h
  | some header =>
    simp only [hheader] at h
    cases h
    exact ⟨_, _, _, _, rfl, Pattern.dollarName?_of_forHeader? hheader⟩

/-- A loop over a collection has the name after the dollar sign of its header. -/
theorem exists_of_parseForeach (h : parseForeach text = .ok st) :
    ∃ name src, st = .each name src ∧
      ∃ after, Pattern.dollarName? Text.isWordChar text.toList = some (name, after) := by
  rw [parseForeach] at h
  split at h
  next parsed hparsed =>
    cases h
    obtain ⟨⟨name, after⟩, hname, hparsed⟩ := Option.bind_eq_some_iff.1 hparsed
    obtain ⟨rest, -, hparsed⟩ := Option.bind_eq_some_iff.1 hparsed
    obtain ⟨src, -, hparsed⟩ := Option.bind_eq_some_iff.1 hparsed
    cases hparsed
    exact ⟨name, src, rfl, after, hname⟩
  · cases h

/-- A function definition has a name and parameters. -/
theorem exists_of_parseFunction (h : parseFunction text = .ok st) :
    ∃ name params, st = .function name params := by
  rw [parseFunction] at h
  split at h
  · cases h
    exact ⟨_, _, rfl⟩
  · cases h

/-- The words that start the statements other than calls. -/
def keywords : List String :=
  ["return", "echo", "eval", "import", "namespace", "var", "global", "const", "set", "if", "elseif",
    "else", "while", "for", "foreach", "function", "macro", "end"]

/-- The statements that can be read off a first word and the text after it. -/
inductive Reading (params : Option String) : String → Statement → Prop
  | giveBack : Reading params "return" (.giveBack params)
  | echo : Reading params "echo" (.echo (params.getD ""))
  | eval : Reading params "eval" (.eval (params.getD ""))
  | load : Reading params "import" (.load (params.getD ""))
  | enterNamespace (src : Option String) : Reading params "namespace" (.enterNamespace src)
  | declare {word : String} (lifetime : Lifetime) (list : String) :
      word ∈ ["var", "global", "const"] → Reading params word (.declare lifetime list)
  | set (path : String) (mode : AssignMode) (src : String) :
      Reading params "set" (.set path mode src)
  | branch : Reading params "if" (.branch (params.getD ""))
  | otherwiseIf : Reading params "elseif" (.otherwiseIf (params.getD ""))
  | otherwise : Reading params "else" .otherwise
  | loop : Reading params "while" (.loop (params.getD ""))
  | count {name : String} {after : List Char} (start stop : String) (step : Option String) :
      Pattern.dollarName? Text.isWordChar (params.getD "").toList = some (name, after) →
        Reading params "for" (.count name start stop step)
  | each {name : String} {after : List Char} (src : String) :
      Pattern.dollarName? Text.isWordChar (params.getD "").toList = some (name, after) →
        Reading params "foreach" (.each name src)
  | function {word : String} (name : String) (list : Option String) :
      word ∈ ["function", "macro"] → Reading params word (.function name list)
  | close : Reading params "end" .close
  | call {word : String} : word ∉ keywords → Reading params word (.call word params)

/-- **What is read off a first word** is one of these statements.

**Proof sketch.** One case for each row of the table of words, in its order. The three words of a
declaration and the two of a definition share a row of `Reading`. -/
theorem reading_of_ofCommand (h : ofCommand word params = .ok st) : Reading params word st := by
  have hdeclare : ∀ {lifetime}, parseDeclare lifetime params = .ok st →
      word ∈ ["var", "global", "const"] → Reading params word st := by
    intro lifetime hst hword
    obtain ⟨list, rfl⟩ := exists_of_parseDeclare hst
    exact .declare lifetime list hword
  have hfunction : parseFunction (params.getD "") = .ok st → word ∈ ["function", "macro"] →
      Reading params word st := by
    intro hst hword
    obtain ⟨name, list, rfl⟩ := exists_of_parseFunction hst
    exact .function name list hword
  unfold ofCommand at h
  dsimp only at h
  split at h
  · cases h
    exact .giveBack
  · cases h
    exact .echo
  · cases h
    exact .eval
  · cases h
    exact .load
  · split at h
    · cases h
      exact .enterNamespace none
    · cases h
      exact .enterNamespace params
  · exact hdeclare h (by decide)
  · exact hdeclare h (by decide)
  · exact hdeclare h (by decide)
  · obtain ⟨path, mode, src, rfl⟩ := exists_of_parseSet h
    exact .set path mode src
  · cases h
    exact .branch
  · cases h
    exact .otherwiseIf
  · cases h
    exact .otherwise
  · cases h
    exact .loop
  · obtain ⟨name, start, stop, step, rfl, after, hname⟩ := exists_of_parseFor h
    exact .count start stop step hname
  · obtain ⟨name, src, rfl, after, hname⟩ := exists_of_parseForeach h
    exact .each src hname
  · exact hfunction h (by decide)
  · exact hfunction h (by decide)
  · cases h
    exact .close
  · cases h
    exact .call (by simp_all [keywords])

/-- The statement on a line is read off its first word. -/
theorem exists_of_parse {line : String} (h : parse line = .ok st) :
    ∃ word params,
      Pattern.command? Pattern.isQualifiedChar false line.toList = some (word, params) ∧
      ofCommand word params = .ok st := by
  rw [parse] at h
  cases hcommand : Pattern.command? Pattern.isQualifiedChar false line.toList with
  | none => simp [hcommand] at h
  | some found =>
    obtain ⟨word, params⟩ := found
    exact ⟨word, params, rfl, by simpa only [hcommand] using h⟩

end LineScript.Statement
