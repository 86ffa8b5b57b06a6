import LineScript.Proofs.Structured.Program

set_option relaxedAutoImplicit false
set_option autoImplicit false

/-!
# Running structured programs

A structured program is run by recursion on its tree, as an action on the session. The answer is the
value it returns, or none if it runs to its end. Programs know their place in the source, since
messages name the line on which they arise. A bound limits the passes of every loop and the steps of
every source that is run from within.

A statement or header that fails is logged. Below the level of an error, a statement has then been
skipped, a condition is false, a loop ends and a function is not defined; an error ends the program.

## Main definitions

* `LineScript.Session.onLine` — what a line does, with its failure logged.
* `LineScript.Session.thenRun`, `LineScript.Session.passes` — one program after another, and the
  passes of a loop.
* `LineScript.LoopHeader.first`, `LineScript.LoopHeader.again` — the header of a loop, when it is
  first reached and when the loop comes round.
* `LineScript.Program.exec`, `LineScript.Program.result` — a program run on a session.
-/

namespace LineScript

namespace Session

/-! ## Lines -/

/-- The session at another line. -/
def atLine (s : Session) (line : Nat) : Session :=
  { s with line := line }

/-- A line is reached. -/
def reachLine (line : Nat) : Action Session Unit :=
  modify fun s => s.atLine line

/-- An action whose failure is logged. Unless this is an error, which is raised, the answer is then
`fallback`. -/
def guarded {α : Type} (fallback : α) (act : Action Session α) : Action Session α := do
  let outcome ← Action.attempt act
  match outcome with
  | .ok a => pure a
  | .error e => do
    recover e
    pure fallback

/-- A line is reached and does something. -/
def onLine {α : Type} (line : Nat) (fallback : α) (act : Action Session α) : Action Session α := do
  reachLine line
  guarded fallback act

/-! ## Statements and headers -/

/-- A simple statement. The answer is the value it returns, if it does. -/
def perform (run : SourceRunner) (st : Statement) : Action Session (Option Value) := do
  let flow ← runSimple run st
  match flow with
  | .finish v => pure (some v)
  | _ => pure none

/-- Whether a condition is true. -/
def holds (run : SourceRunner) (condition : String) : Action Session Bool := do
  let v ← evaluateWith run condition
  pure v.truth

/-- The entry at the offset `k` of a collection is bound to a variable, if there is one. -/
def bindEntry (run : SourceRunner) (name src : String) (k : Nat) : Action Session (Option Nat) := do
  let v ← evaluateWith run src
  match v with
  | .collection items =>
    match items.entryAt? k with
    | none => pure none
    | some (key, item) => do
      updateStore fun st => st.bind name (Activation.entryRecord key item) .localScope
      pure (some (k + 1))
  | _ => throw .notACollection

/-- The header of a function. -/
def openFunction (run : SourceRunner) (name : String) (params : Option String) :
    Action Session (Option Capture) := do
  let s ← get
  let capture ← prepareCapture run (qualify s.scope name) params
  pure (some capture)

/-- The end of a function whose body has the given lines: it is defined, unless its header failed.
-/
def closeFunction (line : Nat) (body : List String) : Option Capture → Action Session Unit
  | none => reachLine line
  | some capture => onLine line () (defineCaptured { capture with lines := body })

/-! ## Programs one after another -/

/-- One program after another, unless the first returns. -/
def thenRun (first second : Action Session (Option Value)) : Action Session (Option Value) := do
  let result ← first
  match result with
  | some v => pure (some v)
  | none => second

/-- A block that ends on the given line. -/
def closing (line : Nat) (block : Action Session (Option Value)) : Action Session (Option Value) :=
  thenRun block do
    reachLine line
    pure none

/-- The passes of a loop that has come as far as `k`, at most `n` of them. -/
def passes {κ : Type} (again : κ → Action Session (Option κ))
    (body : Action Session (Option Value)) :
    Nat → κ → Action Session (Option Value)
  | 0, _ => Action.stop .outOfSteps
  | n + 1, k =>
    thenRun body do
      let more ← again k
      match more with
      | none => pure none
      | some k => passes again body n k

end Session

namespace LoopHeader

/-- What a loop keeps from one pass to the next: nothing, the evaluated bounds, or the offset of the
next entry. -/
def Progress : LoopHeader → Type
  | .condition _ => Unit
  | .count .. => ForRange
  | .each .. => Nat

/-- The header of a loop when it is first reached. The bounds of a count are evaluated here only. -/
def first (run : SourceRunner) : (header : LoopHeader) → Action Session (Option header.Progress)
  | .condition src => do
    let v ← Session.holds run src
    pure (if v then some () else none)
  | .count name start stop step => do
    let range ← Session.openCount run name start stop step
    pure (some range)
  | .each name src => Session.bindEntry run name src 0

/-- The header of a loop that comes round. Conditions and collections are evaluated anew. -/
def again (run : SourceRunner) :
    (header : LoopHeader) → header.Progress → Action Session (Option header.Progress)
  | .condition src, _ => do
    let v ← Session.holds run src
    pure (if v then some () else none)
  | .count .., range => do
    let more ← Session.advanceCount range
    pure (if more then some range else none)
  | .each name src, k => Session.bindEntry run name src k

end LoopHeader

/-! ## The semantics -/

open Session (runner onLine thenRun closing passes reachLine)

mutual

/-- A program whose first line has the index `i`. -/
def Program.exec (n : Nat) : Program → Nat → Action Session (Option Value)
  | .done, _ => pure none
  | .idle _ next, i => do
    reachLine (i + 1)
    next.exec n (i + 1)
  | .simple st _ _ next, i =>
    thenRun (onLine (i + 1) none (Session.perform (runner n) st)) (next.exec n (i + 1))
  | .choice condition _ body rest next, i =>
    let last := i + 1 + body.size + rest.size
    thenRun
      (do
        let v ← onLine (i + 1) false (Session.holds (runner n) condition)
        if v then closing last (body.exec n (i + 1)) else rest.exec n (i + 1 + body.size))
      (next.exec n last)
  | .loop header _ body _ next, i =>
    let last := i + 1 + body.size + 1
    let again (k : header.Progress) : Action Session (Option header.Progress) := do
      reachLine last
      onLine (i + 1) none (header.again (runner n) k)
    let block : Action Session (Option Value) := do
      let begun ← onLine (i + 1) none (header.first (runner n))
      match begun with
      | none => pure none
      | some k => passes again (body.exec n (i + 1)) n k
    thenRun (closing last block) (next.exec n last)
  | .function name params _ body _ next, i => do
    let last := i + 1 + body.size + 1
    let capture ← onLine (i + 1) none (Session.openFunction (runner n) name params)
    Session.closeFunction last body.lines capture
    next.exec n last

/-- The branches after the first one, none of which has been taken. -/
def Branches.exec (n : Nat) : Branches → Nat → Action Session (Option Value)
  | .close _, i => do
    reachLine (i + 1)
    pure none
  | .otherwiseIf condition _ body rest, i => do
    let v ← onLine (i + 1) false (Session.holds (runner n) condition)
    if v then closing (i + 1 + body.size + rest.size) (body.exec n (i + 1))
    else rest.exec n (i + 1 + body.size)
  | .otherwise _ body _, i => do
    reachLine (i + 1)
    closing (i + 1 + body.size + 1) (body.exec n (i + 1))

end

/-- The result of a program that is a whole source: the value it returns, or `true` at its end. -/
def Program.result (p : Program) (n : Nat) : Action Session Value := do
  let returned ← p.exec n 0
  pure (returned.getD (.bool true))

end LineScript
