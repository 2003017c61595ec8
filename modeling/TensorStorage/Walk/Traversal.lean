import TensorStorage.Entry
import TensorStorage.Walk.Cursor
/-!
# Traversal — iteration over the stored entries of a storage

A traversal is started over a storage whose levels nest under the format; it yields the entries in storage order, with
their coordinates in dimension order.  A typed traversal yields bare scalars of one kind.

Storages are values and have no identity of their own, so a traversal carries a number, `source`, that its caller
gives to the storage; two traversals are the same when their sources are and they have yielded as many entries.
-/
namespace TensorStorage

/-- Takes up to `n` items, stopping for good at the first that is missing. -/
def takeItems {σ α : Type} (next? : σ → Option (Option α × σ)) : Nat → σ → Option (List α × σ)
  | 0, s => some ([], s)
  | n + 1, s => do
    match ← next? s with
    | (none, s) => some ([], s)
    | (some a, s) => do
      let (rest, s) ← takeItems next? n s
      some (a :: rest, s)

/-- An iteration over the stored entries of a storage. -/
structure Traversal where
  source : Nat
  storage : Storage
  format : Format
  levels : List Level
  cursor : Cursor

namespace Traversal

def start (source : Nat) (s : Storage) (f : Format) : Checked Traversal := do
  let levels ← s.checkedLevels f
  return ⟨source, s, f, levels, .new levels.length⟩

/-- Moves to the next stored entry and gives its leaf position. -/
def advance? (t : Traversal) : Option (Option Nat × Traversal) := do
  let (leaf, cursor) ← t.cursor.advance? t.levels
  return (leaf, { t with cursor })

/-- The coordinate of the entry in hand: zeros before the first, and the last one met after the end. -/
def coordinate (t : Traversal) : Coordinate := t.cursor.coordinate t.format

def produced (t : Traversal) : Nat := t.cursor.produced

def length (t : Traversal) : Nat := t.storage.index.size - t.produced

def next? (t : Traversal) : Option (Option Entry × Traversal) := do
  let (leaf, t) ← t.advance?
  let value := leaf.bind t.storage.valueAt?
  return (value.map fun v => ⟨t.coordinate, v⟩, t)

/-- The entries still to come, and the traversal after the last.  One move more than there are entries sees the end. -/
def rest (t : Traversal) : Outcome (List Entry × Traversal) := takeItems next? (t.length + 1) t

/-- The same walk of the same storage, equally far. -/
def same (t u : Traversal) : Bool := t.source == u.source && t.produced == u.produced

end Traversal

structure TypedTraversal (d : DataType) where
  inner : Traversal
  values : Array d.Scalar

/-- Restricts a traversal to kind `d`, which the storage must hold. -/
def Traversal.typed (t : Traversal) (d : DataType) : Checked (TypedTraversal d) := do
  let values ← t.storage.values.slice d
  return ⟨t, values⟩

namespace TypedTraversal

variable {d : DataType}

def length (t : TypedTraversal d) : Nat := t.inner.length

def next? (t : TypedTraversal d) : Option (Option (Coordinate × d.Scalar) × TypedTraversal d) := do
  let (leaf, inner) ← t.inner.advance?
  let value := leaf.bind fun position => t.values[position]?
  return (value.map fun x => (inner.coordinate, x), { t with inner })

def rest (t : TypedTraversal d) : Outcome (List (Coordinate × d.Scalar) × TypedTraversal d) :=
  takeItems next? (t.length + 1) t

end TypedTraversal

def Storage.entries (s : Storage) (f : Format) : Outcome (List Entry) := do
  let t ← Traversal.start 0 s f
  let (entries, _) ← t.rest
  return entries

end TensorStorage
