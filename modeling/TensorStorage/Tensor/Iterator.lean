import TensorStorage.Tensor.Basic
import TensorStorage.Walk.Traversal
/-!
# Iterating over a tensor

An iterator keeps a cursor and the generation of the tensor it was made from, and no arrays: at every step it reads the
tensor as it is then.  A step from another generation yields nothing.  Within one generation the levels cannot change,
so what was checked when the iterator was made still holds; values can, and a step shows the present ones.
-/
namespace TensorStorage

/-- An iteration over the stored entries of some tensor. -/
structure TensorIterator where
  cursor : Cursor
  generation : Nat
deriving DecidableEq, Repr

/-- An iterator before the first entry.  The tensor must be packed and its levels must nest. -/
def Tensor.iterator (t : Tensor) : Checked TensorIterator := do
  let s ← t.storage
  let levels ← s.checkedLevels t.format
  return ⟨.new levels.length, t.generation⟩

namespace TensorIterator

/-- The storage to read and its levels, if the tensor still has them as the iterator knows them. -/
def levels? (i : TensorIterator) (t : Tensor) : Option (Storage × List Level) :=
  if t.generation ≠ i.generation then none
  else
    match t.storage? with
    | none => none
    | some s => (s.levels t.format).toOption.map (s, ·)

def next? (t : Tensor) (i : TensorIterator) : Option (Option Entry × TensorIterator) :=
  match i.levels? t with
  | none => some (none, i)
  | some (s, levels) => do
    let (leaf, cursor) ← i.cursor.advance? levels
    let value := leaf.bind s.valueAt?
    return (value.map fun v => ⟨cursor.coordinate t.format, v⟩, { i with cursor })

/-- The next entry at kind `d`.  An entry of another kind ends the iteration, after it was passed. -/
def nextAs? (d : DataType) (t : Tensor) (i : TensorIterator) :
    Option (Option (Coordinate × d.Scalar) × TensorIterator) := do
  let (entry, i) ← i.next? t
  return (entry.bind fun e => (e.value.as? d).map (e.coordinate, ·), i)

def produced (i : TensorIterator) : Nat := i.cursor.produced

/-- Entries still to come; none once the tensor has another generation. -/
def length (t : Tensor) (i : TensorIterator) : Nat :=
  match t.storage? with
  | some s => if t.generation = i.generation then s.index.size - i.produced else 0
  | none => 0

end TensorIterator

namespace Tensor

/-- An iterator at kind `d`, which must be the tensor's. -/
def iteratorAs (t : Tensor) (d : DataType) : Checked TensorIterator :=
  if t.dtype ≠ d then .error (.typeMismatch t.dtype d) else t.iterator

def entries (t : Tensor) : Outcome (List Entry) := do
  let i ← t.iterator
  let (items, _) ← takeItems (TensorIterator.next? t) (i.length t + 1) i
  return items

def entriesAs (t : Tensor) (d : DataType) : Outcome (List (Coordinate × d.Scalar)) := do
  let i ← t.iteratorAs d
  let (items, _) ← takeItems (TensorIterator.nextAs? d t) (i.length t + 1) i
  return items

end Tensor

end TensorStorage
