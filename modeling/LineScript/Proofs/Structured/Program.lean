import LineScript.Proofs.Statement.Shape

set_option relaxedAutoImplicit false
set_option autoImplicit false

/-!
# Structured programs

A source has no tree: whether a line runs is decided when it is reached. Most sources are
nevertheless the lines of a tree of simple statements, branches, loops and function definitions,
nested to any depth, with lines that are blank or a comment anywhere. Every node keeps its lines,
trimmed, with the proof of what they are read as.

## Main definitions

* `LineScript.LineOf`, `LineScript.IdleLine` — a line with a statement, and a line without.
* `LineScript.LoopHeader` — what a loop goes on for.
* `LineScript.Program`, `LineScript.Branches` — programs, and what follows the first body of an
  `if`.
* `LineScript.Program.lines` — the lines of a program.
* `LineScript.nestAfter` — how deep blocks are nested after some lines.
* `LineScript.Stands` — lines that stand at a place in a source.

## Main results

* `LineScript.Program.nestAfter_lines` — the lines of a program end all blocks that they open.
* `LineScript.Stands.head`, `LineScript.Stands.tail`, `LineScript.Stands.left`,
  `LineScript.Stands.right` — parts of lines stand at their own places.
-/

namespace LineScript

/-! ## Lines and trees -/

/-- A trimmed line that is read as the statement `st`. -/
structure LineOf (st : Statement) where
  text : String
  reads : Statement.parse text = .ok st

/-- A trimmed line that holds no statement. -/
structure IdleLine where
  text : String
  isIdle : Activation.isIdle text = true

/-- Whether a statement neither opens nor continues nor ends a block. -/
def Statement.isSimple : Statement → Bool
  | .branch _ | .otherwiseIf _ | .otherwise | .loop _ | .count .. | .each .. | .function ..
  | .close =>
    false
  | _ => true

/-- What a loop goes on for: a condition, a count or the entries of a collection. -/
inductive LoopHeader where
  | condition (src : String)
  | count (name start stop : String) (step : Option String)
  | each (name src : String)

/-- The statement of a loop header. -/
def LoopHeader.statement : LoopHeader → Statement
  | .condition src => .loop src
  | .count name start stop step => .count name start stop step
  | .each name src => .each name src

mutual

/-- A program: nodes one after another, each with its own lines and the blocks inside it. -/
inductive Program where
  | done
  | idle (line : IdleLine) (next : Program)
  | simple (st : Statement) (line : LineOf st) (isSimple : st.isSimple = true) (next : Program)
  | choice (condition : String) (line : LineOf (.branch condition)) (body : Program)
      (rest : Branches) (next : Program)
  | loop (header : LoopHeader) (line : LineOf header.statement) (body : Program)
      (close : LineOf .close) (next : Program)
  | function (name : String) (params : Option String) (line : LineOf (.function name params))
      (body : Program) (close : LineOf .close) (next : Program)

/-- What follows a branch: the end of the block, or another branch. An `else` is the last one. -/
inductive Branches where
  | close (line : LineOf .close)
  | otherwiseIf (condition : String) (line : LineOf (.otherwiseIf condition)) (body : Program)
      (rest : Branches)
  | otherwise (line : LineOf .otherwise) (body : Program) (close : LineOf .close)

end

mutual

/-- The lines of a program. -/
def Program.lines : Program → List String
  | .done => []
  | .idle line next => line.text :: next.lines
  | .simple _ line _ next => line.text :: next.lines
  | .choice _ line body rest next => line.text :: (body.lines ++ (rest.lines ++ next.lines))
  | .loop _ line body close next => line.text :: (body.lines ++ close.text :: next.lines)
  | .function _ _ line body close next => line.text :: (body.lines ++ close.text :: next.lines)

/-- The lines of branches, with the end of their block. -/
def Branches.lines : Branches → List String
  | .close line => [line.text]
  | .otherwiseIf _ line body rest => line.text :: (body.lines ++ rest.lines)
  | .otherwise line body close => line.text :: (body.lines ++ [close.text])

end

/-- The number of lines of a program. -/
def Program.size (p : Program) : Nat :=
  p.lines.length

/-- The number of lines of branches, with the end of their block. -/
def Branches.size (b : Branches) : Nat :=
  b.lines.length

section Size

variable {st : Statement} {condition name : String} {params : Option String} {header : LoopHeader}
  {isSimple : st.isSimple = true} {body next : Program} {rest : Branches}

/-- An idle line is one line. -/
@[simp]
theorem Program.size_idle {line : IdleLine} : (idle line next).size = 1 + next.size := by
  simp [size, lines, Nat.add_comm]

/-- A simple statement is one line. -/
@[simp]
theorem Program.size_simple {line : LineOf st} :
    (simple st line isSimple next).size = 1 + next.size := by
  simp [size, lines, Nat.add_comm]

/-- A branching block has a header, a first branch, and the further branches with its end. -/
@[simp]
theorem Program.size_choice {line : LineOf (.branch condition)} :
    (choice condition line body rest next).size = 1 + body.size + rest.size + next.size := by
  simp [size, Branches.size, lines]
  omega

/-- A loop has a header, a body and an end. -/
@[simp]
theorem Program.size_loop {line : LineOf header.statement} {close : LineOf .close} :
    (loop header line body close next).size = 1 + body.size + 1 + next.size := by
  simp [size, lines]
  omega

/-- A function has a header, a body and an end. -/
@[simp]
theorem Program.size_function {line : LineOf (.function name params)} {close : LineOf .close} :
    (function name params line body close next).size = 1 + body.size + 1 + next.size := by
  simp [size, lines]
  omega

/-- Without a further branch, a block has its end. -/
@[simp]
theorem Branches.size_close {line : LineOf .close} : (close line).size = 1 :=
  rfl

/-- A further branch, and what comes after it. -/
@[simp]
theorem Branches.size_otherwiseIf {line : LineOf (.otherwiseIf condition)} :
    (otherwiseIf condition line body rest).size = 1 + body.size + rest.size := by
  simp [size, Program.size, lines]
  omega

/-- A last branch, and the end. -/
@[simp]
theorem Branches.size_otherwise {line : LineOf .otherwise} {close : LineOf .close} :
    (otherwise line body close).size = 1 + body.size + 1 := by
  simp [size, Program.size, lines]
  omega

end Size

/-! ## Nesting -/

/-- How deep blocks are nested after a line; none if it ends a block that is not open. -/
def nestStep (depth : Nat) (line : String) : Option Nat :=
  match LineShape.ofLine line, depth with
  | .opener, depth => some (depth + 1)
  | .closer, 0 => none
  | .closer, depth + 1 => some depth
  | .other, depth => some depth

/-- How deep blocks are nested after some lines. -/
def nestAfter (lines : List String) (depth : Nat) : Option Nat :=
  lines.foldlM nestStep depth

/-- The depth after a line, and then after the lines below it. -/
theorem nestAfter_cons (line : String) (lines : List String) (depth : Nat) :
    nestAfter (line :: lines) depth = (nestStep depth line).bind (nestAfter lines) :=
  rfl

/-- The depth after lines, and then after further ones. -/
theorem nestAfter_append (lines more : List String) (depth : Nat) :
    nestAfter (lines ++ more) depth = (nestAfter lines depth).bind (nestAfter more) :=
  List.foldlM_append

namespace LineOf

variable {st : Statement} (line : LineOf st)

/-- The shape of a line is that of its statement. -/
theorem ofLine_text : LineShape.ofLine line.text = st.shape :=
  LineShape.ofLine_of_parse line.reads

/-- The line of a statement that opens a block. -/
theorem nestStep_of_opener (h : st.shape = .opener) (depth : Nat) :
    nestStep depth line.text = some (depth + 1) := by
  simp [nestStep, line.ofLine_text, h]

/-- The line of a statement that neither opens nor ends a block. -/
theorem nestStep_of_other (h : st.shape = .other) (depth : Nat) :
    nestStep depth line.text = some depth := by
  simp [nestStep, line.ofLine_text, h]

/-- The line of a statement that ends a block. -/
theorem nestStep_of_closer (h : st.shape = .closer) (depth : Nat) :
    nestStep (depth + 1) line.text = some depth := by
  simp [nestStep, line.ofLine_text, h]

end LineOf

/-- The header of a loop opens a block. -/
theorem LoopHeader.shape_statement (header : LoopHeader) : header.statement.shape = .opener := by
  cases header <;> rfl

/-- A simple statement neither opens nor ends a block. -/
theorem Statement.shape_of_isSimple {st : Statement} (h : st.isSimple = true) :
    st.shape = .other := by
  cases st <;> first | rfl | cases h

mutual

/-- **The lines of a program end all blocks that they open**, and no others.

**Proof sketch.** By recursion on the program. An opener and its end cancel each other, and the
lines between them leave the depth as it is. -/
theorem Program.nestAfter_lines (depth : Nat) :
    (p : Program) → nestAfter p.lines depth = some depth
  | .done => rfl
  | .idle line next => by
    have hline : nestStep depth line.text = some depth := by
      simp [nestStep, LineShape.ofLine_of_isIdle line.isIdle]
    rw [Program.lines, nestAfter_cons, hline]
    exact next.nestAfter_lines depth
  | .simple _ line isSimple next => by
    rw [Program.lines, nestAfter_cons,
      line.nestStep_of_other (Statement.shape_of_isSimple isSimple)]
    exact next.nestAfter_lines depth
  | .choice _ line body rest next => by
    rw [Program.lines, nestAfter_cons, line.nestStep_of_opener rfl, Option.bind_some,
      nestAfter_append, body.nestAfter_lines, Option.bind_some, nestAfter_append,
      rest.nestAfter_lines]
    exact next.nestAfter_lines depth
  | .loop header line body close next => by
    rw [Program.lines, nestAfter_cons, line.nestStep_of_opener header.shape_statement,
      Option.bind_some, nestAfter_append, body.nestAfter_lines, Option.bind_some, nestAfter_cons,
      close.nestStep_of_closer rfl]
    exact next.nestAfter_lines depth
  | .function _ _ line body close next => by
    rw [Program.lines, nestAfter_cons, line.nestStep_of_opener rfl, Option.bind_some,
      nestAfter_append, body.nestAfter_lines, Option.bind_some, nestAfter_cons,
      close.nestStep_of_closer rfl]
    exact next.nestAfter_lines depth

/-- The lines of branches end the block around them. -/
theorem Branches.nestAfter_lines (depth : Nat) :
    (b : Branches) → nestAfter b.lines (depth + 1) = some depth
  | .close line => by
    rw [Branches.lines, nestAfter_cons, line.nestStep_of_closer rfl]
    rfl
  | .otherwiseIf _ line body rest => by
    rw [Branches.lines, nestAfter_cons, line.nestStep_of_other rfl, Option.bind_some,
      nestAfter_append,
      body.nestAfter_lines]
    exact rest.nestAfter_lines depth
  | .otherwise line body close => by
    rw [Branches.lines, nestAfter_cons, line.nestStep_of_other rfl, Option.bind_some,
      nestAfter_append,
      body.nestAfter_lines, Option.bind_some, nestAfter_cons, close.nestStep_of_closer rfl]
    rfl

end

/-! ## Places in a source -/

/-- The lines stand in the source from the index `i` on, up to blanks at their ends. -/
def Stands (source : Array String) (i : Nat) (lines : List String) : Prop :=
  ∀ k line, lines[k]? = some line → source[i + k]?.map Text.trim = some line

namespace Stands

variable {source : Array String} {i : Nat} {line : String} {lines more : List String}

/-- The trimmed lines of a source stand in it from its start. -/
theorem of_map_trim {raw : List String} (h : raw.map Text.trim = lines) :
    Stands raw.toArray 0 lines := by
  intro k line hline
  rw [← h, List.getElem?_map] at hline
  simpa using hline

/-- The first line stands at the place itself. -/
theorem head (h : Stands source i (line :: lines)) : source[i]?.map Text.trim = some line :=
  h 0 line rfl

/-- The lines below the first one stand at the next place. -/
theorem tail (h : Stands source i (line :: lines)) : Stands source (i + 1) lines := by
  intro k l hl
  rw [Nat.add_assoc, Nat.add_comm 1]
  exact h (k + 1) l hl

/-- The first part of the lines stands at the place itself. -/
theorem left (h : Stands source i (lines ++ more)) : Stands source i lines := by
  intro k l hl
  refine h k l ?_
  rw [List.getElem?_append_left (List.getElem?_eq_some_iff.1 hl).1, hl]

/-- The second part of the lines stands after the first one. -/
theorem right (h : Stands source i (lines ++ more)) : Stands source (i + lines.length) more := by
  intro k l hl
  rw [Nat.add_assoc]
  refine h (lines.length + k) l ?_
  rw [List.getElem?_append_right (Nat.le_add_right _ _), Nat.add_sub_cancel_left, hl]

end Stands

end LineScript
