import LineScript.Assoc
import LineScript.Number.Binary64
import LineScript.Text.WordChar

set_option relaxedAutoImplicit false
set_option autoImplicit false

/-!
# Keyed collections

The one compound value of a script is the *collection*: a sequence of entries under integer or
name keys, in the order in which the keys were first written. It serves as a list and as a record.

## Main definitions

* `LineScript.Key` — an integer index or a name; `LineScript.Key.ofSegment?` reads one from a
  segment of a dotted path.
* `LineScript.Collection` — the entries, over any type of values.
* `LineScript.Collection.push` — a value under the next free index.
* `LineScript.Collection.gather` — entries added one after another: indexed ones are numbered
  afresh, named ones replace those of the same name. Concatenation and slices are built from it.

## Design

Keys are meant to be distinct. The type does not force it, since values nest inside themselves
through it; every operation keeps it.
-/

namespace LineScript

/-- A key of a collection. -/
inductive Key where
  | index (n : Int)
  | name (s : String)
  deriving Repr, DecidableEq

/-- The largest index. Indices are signed 64-bit integers. -/
def Key.maxIndex : Int := Number.maxInteger

/-- The text of a key. -/
def Key.text : Key → String
  | .index n => toString n
  | .name s => s

/-- The key that a segment of a dotted path stands for: an index if it consists of digits and the
index fits, a name if it is one. -/
def Key.ofSegment? (segment : String) : Option Key :=
  match segment.toList with
  | [] => none
  | c :: cs =>
    if (c :: cs).all Char.isDigit then
      let n : Nat := (c :: cs).foldl (fun n d => 10 * n + (d.toNat - '0'.toNat)) 0
      if n ≤ Key.maxIndex then some (.index n) else none
    else if Text.isNameStart c && cs.all Text.isNameChar then some (.name segment)
    else none

/-- A sequence of entries under keys, in order of insertion. -/
structure Collection (α : Type) where
  entries : List (Key × α) := []
  deriving Repr

namespace Collection

variable {α : Type}

/-- The collection without entries. -/
def empty : Collection α := {}

/-- A collection without entries stands for an arbitrary one. -/
instance : Inhabited (Collection α) := ⟨empty⟩

/-- The number of entries. -/
def size (c : Collection α) : Nat :=
  c.entries.length

/-- Whether there is no entry. -/
def isEmpty (c : Collection α) : Bool :=
  c.entries.isEmpty

/-- The keys, in order. -/
def keys (c : Collection α) : List Key :=
  c.entries.map Prod.fst

/-- The values, in order. -/
def values (c : Collection α) : List α :=
  c.entries.map Prod.snd

/-- The value under a key. -/
def get? (c : Collection α) (k : Key) : Option α :=
  Assoc.get? k c.entries

/-- The collection with `v` under `k`, in place or as a new last entry. -/
def insert (c : Collection α) (k : Key) (v : α) : Collection α :=
  ⟨Assoc.insert k v c.entries⟩

/-- The integer keys, in order. -/
def indices (c : Collection α) : List Int :=
  c.keys.filterMap fun
    | .index n => some n
    | .name _ => none

/-- The least index from zero on that is not in the list. One of the first `used.length + 1`
candidates is free. -/
def lowestFree (used : List Int) : Int :=
  match (List.range (used.length + 1)).find? fun (i : Nat) => !used.contains (i : Int) with
  | some i => i
  | none => 0

/-- The index under which the next value is appended: one past the largest index and at least
zero, or the lowest free one when the largest index is taken. -/
def nextIndex (c : Collection α) : Int :=
  match c.indices.max? with
  | none => 0
  | some n => if n < Key.maxIndex then max (n + 1) 0 else lowestFree c.indices

/-- The collection with `v` as its last entry, under the next free index. -/
def push (c : Collection α) (v : α) : Collection α :=
  ⟨c.entries ++ [(.index c.nextIndex, v)]⟩

/-- The entry at a position. -/
def entryAt? (c : Collection α) (offset : Nat) : Option (Key × α) :=
  c.entries[offset]?

/-- The collection with one more entry: an indexed value is pushed, a named one inserted. -/
def add (c : Collection α) : Key × α → Collection α
  | (.index _, v) => c.push v
  | (.name s, v) => c.insert (.name s) v

/-- The collection of the entries, added one after another. -/
def gather (entries : List (Key × α)) : Collection α :=
  entries.foldl add empty

/-- The two collections one after the other, with the indexed entries numbered from zero. -/
def append (a b : Collection α) : Collection α :=
  gather (a.entries ++ b.entries)

/-- The entries from position `start` up to, but without, position `stop`, with the indexed entries
numbered from zero. -/
def slice (c : Collection α) (start stop : Nat) : Collection α :=
  gather ((c.entries.take stop).drop start)

/-- The entries of `a` whose value is, by `same`, that of no entry of `b`. Keys are kept. -/
def difference (same : α → α → Bool) (a b : Collection α) : Collection α :=
  ⟨a.entries.filter fun e => !b.values.any (same e.2)⟩

/-- The list of the values, under the indices from zero on. -/
def ofValues (vs : List α) : Collection α :=
  vs.foldl push empty

/-- The collection of the pairs, each inserted in turn. -/
def ofEntries (entries : List (Key × α)) : Collection α :=
  entries.foldl (fun c e => c.insert e.1 e.2) empty

/-- What is put in under a key is found under it. -/
@[simp]
theorem get?_insert_self (c : Collection α) (k : Key) (v : α) :
    (c.insert k v).get? k = some v := by
  simp [get?, insert]

/-- Under any other key, the same is found as before. -/
theorem get?_insert_of_ne (c : Collection α) {k k' : Key} (h : k ≠ k') (v : α) :
    (c.insert k v).get? k' = c.get? k' :=
  Assoc.get?_insert_of_ne h v c.entries

/-- A value that is pushed becomes the last entry, under the next free index. -/
@[simp]
theorem entries_push (c : Collection α) (v : α) :
    (c.push v).entries = c.entries ++ [(.index c.nextIndex, v)] := rfl

end Collection

end LineScript
