import LineScript.ScriptError
import LineScript.Text.Search

set_option relaxedAutoImplicit false
set_option autoImplicit false

/-!
# Variables

A variable has a name, a value and a lifetime. A dotted path such as `player.items.0` addresses an
entry of the collections below a variable. Local variables are hidden while a function runs; global
variables and constants are not, and a constant is written once.

## Main definitions

* `LineScript.Path` — a name and the keys below it; `LineScript.Path.parse` reads it.
* `LineScript.Value.lookup`, `LineScript.Value.assign` — the value below keys, and a value with
  another one written there.
* `LineScript.Lifetime`, `LineScript.Variable`, `LineScript.Store` — the variables.
* `LineScript.Store.declare`, `LineScript.Store.bind`, `LineScript.Store.get`,
  `LineScript.Store.set` — new variables, loop variables and parameters, reading and writing.
* `LineScript.Store.detach`, `LineScript.Store.restore` — local variables hidden and brought back.
-/

namespace LineScript

/-- A dotted path: the name of a variable and the keys below it. -/
structure Path where
  base : String
  keys : List Key
  deriving Repr, DecidableEq

namespace Path

/-- The segments of a dotted path. There is at least one, possibly empty. -/
def segments (path : String) : List String :=
  (Text.pieces ['.'] path.toList).map String.ofList

/-- The name at the start of a dotted path. -/
def baseName (path : String) : String :=
  (segments path).headD ""

/-- The keys of the segments below the name; the first segment that is none is an error. -/
def parseKeys (path : String) : List String → Except ScriptError (List Key)
  | [] => .ok []
  | segment :: rest =>
    match Key.ofSegment? segment with
    | none => .error (.invalidKey path segment)
    | some key =>
      match parseKeys path rest with
      | .error e => .error e
      | .ok keys => .ok (key :: keys)

/-- The path that a text stands for. -/
def parse (path : String) : Except ScriptError Path :=
  match parseKeys path (segments path).tail with
  | .error e => .error e
  | .ok keys => .ok ⟨baseName path, keys⟩

end Path

namespace Value

/-- The value below the keys. -/
def lookup : List Key → Value → Option Value
  | [], v => some v
  | k :: ks, .collection c =>
    match c.get? k with
    | some v => lookup ks v
    | none => none
  | _ :: _, _ => none

/-- The collection that a value can hold entries in: null and `false` give way to an empty one. -/
def asContainer : Value → Option (Collection Value)
  | .collection c => some c
  | .null | .bool false => some Collection.empty
  | _ => none

/-- The value with `new` written below the keys, where missing collections are made on the way. A
value that can hold no entries stops it, and its kind is reported. -/
def assign (new : Value) : List Key → Value → Except ValueKind Value
  | [], _ => .ok new
  | k :: ks, slot =>
    match slot.asContainer with
    | none => .error slot.kind
    | some c =>
      match assign new ks ((c.get? k).getD .null) with
      | .error found => .error found
      | .ok v => .ok (.collection (c.insert k v))

end Value

/-- How long a variable lives, and whether it may be written again. -/
inductive Lifetime where
  | localScope
  | globalScope
  | constant
  deriving Repr, DecidableEq, Inhabited

/-- A value with its lifetime. -/
structure Variable where
  value : Value
  lifetime : Lifetime
  deriving Repr, Inhabited

/-- The variables by name. No two of them have one name. -/
structure Store where
  bindings : List (String × Variable) := []
  distinct : (bindings.map Prod.fst).Nodup := by simp
  deriving Repr

namespace Store

/-- The store without variables. -/
def empty : Store := {}

/-- A store without variables stands for an arbitrary one. -/
instance : Inhabited Store := ⟨empty⟩

/-- The variable of a name. -/
def find? (st : Store) (name : String) : Option Variable :=
  Assoc.get? name st.bindings

/-- Whether there is a variable of that name. -/
def contains (st : Store) (name : String) : Bool :=
  (st.find? name).isSome

/-- The lifetime of a variable. -/
def lifetime? (st : Store) (name : String) : Option Lifetime :=
  (st.find? name).map Variable.lifetime

/-- The store with a variable written, in place or as a new one. -/
def write (st : Store) (name : String) (v : Variable) : Store :=
  ⟨Assoc.insert name v st.bindings, Assoc.nodup_insert st.distinct name v⟩

/-- Whether a name is a path into a variable. -/
def isDotted (name : String) : Bool :=
  name.toList.contains '.'

/-- The store with a new variable. A path, or a name that is taken, cannot be declared. -/
def declare (st : Store) (name : String) (value : Value) (lifetime : Lifetime) :
    Except ScriptError Store :=
  if isDotted name then .error (.subvalueDeclaration name)
  else if st.contains name then .error (.redeclare name)
  else .ok (st.write name ⟨value, lifetime⟩)

/-- A name that is declared is free before and not dotted. A name that cannot be declared is only
worth a warning, and it is taken if it is not dotted. -/
theorem declare_cases (st : Store) (name : String) (v : Value) (lifetime : Lifetime) :
    (st.declare name v lifetime = .ok (st.write name ⟨v, lifetime⟩) ∧ st.find? name = none ∧
      isDotted name = false) ∨
    ∃ e, st.declare name v lifetime = .error e ∧ e.recoverable = true ∧
      (isDotted name = false → st.contains name = true) := by
  rw [declare]
  by_cases hdotted : isDotted name = true
  · rw [if_pos hdotted]
    exact .inr ⟨_, rfl, rfl, fun hnot => nomatch hdotted.symm.trans hnot⟩
  · rw [if_neg hdotted]
    by_cases htaken : st.contains name = true
    · rw [if_pos htaken]
      exact .inr ⟨_, rfl, rfl, fun _ => htaken⟩
    · rw [if_neg htaken]
      exact .inl ⟨rfl, by simpa [contains] using htaken, Bool.eq_false_iff.2 hdotted⟩

/-- The store with a loop variable or parameter. It takes the place of a local variable, is written
into a global one, which stays global, and cannot replace a constant. -/
def bind (st : Store) (name : String) (value : Value) (lifetime : Lifetime) :
    Except ScriptError Store :=
  if isDotted name then .error (.subvalueDeclaration name)
  else
    match st.lifetime? name with
    | some .constant => .error (.assignConst name)
    | some .globalScope => .ok (st.write name ⟨value, .globalScope⟩)
    | _ => .ok (st.write name ⟨value, lifetime⟩)

/-- The value at a path. -/
def get (st : Store) (path : String) : Except ScriptError Value :=
  match Path.parse path with
  | .error e => .error e
  | .ok p =>
    match st.find? p.base with
    | none => .error (.undefinedVariable p.base)
    | some found =>
      match found.value.lookup p.keys with
      | none => .error (.undefinedKey path)
      | some v => .ok v

/-- The store with a value written at a path. A variable that does not exist is made, as a local
one; a constant cannot be written. -/
def set (st : Store) (path : String) (value : Value) : Except ScriptError Store :=
  match Path.parse path with
  | .error e => .error e
  | .ok p =>
    let slot := (st.find? p.base).getD ⟨.null, .localScope⟩
    if slot.lifetime = .constant then .error (.assignConst p.base)
    else
      match Value.assign value p.keys slot.value with
      | .error found => .error (.notIndexable path found)
      | .ok v => .ok (st.write p.base { slot with value := v })

/-- Whether an entry of the store is a local variable. -/
def isLocal (entry : String × Variable) : Bool :=
  entry.2.lifetime = .localScope

/-- The local variables, as a store of their own. -/
def locals (st : Store) : Store :=
  ⟨st.bindings.filter isLocal, Assoc.nodup_filter st.distinct _⟩

/-- The store without its local variables. -/
def withoutLocals (st : Store) : Store :=
  ⟨st.bindings.filter fun entry => !isLocal entry, Assoc.nodup_filter st.distinct _⟩

/-- The local variables taken out, and the store without them. -/
def detach (st : Store) : Store × Store :=
  (st.locals, st.withoutLocals)

/-- The store with its local variables given up for stashed ones, which also win over other
variables of the same name. -/
def restore (st stash : Store) : Store :=
  stash.bindings.foldl (fun st entry => st.write entry.1 entry.2) st.withoutLocals

end Store

end LineScript
