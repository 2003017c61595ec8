import TensorStorage.Descriptor
import TensorStorage.Ledger
import TensorStorage.Matrix
import TensorStorage.Tensor.Transpose
/-!
# Workspace — tensors behind shared handles

A workspace keeps tensors and gives out handles to them.  A handle may be copied; all copies reach the same tensor, and
two handles are equal when they do.  An iterator in a workspace holds the handle of its tensor.

The workspace also numbers the names that it makes up, and keeps the ledger of lent arrays: whenever a tensor changes,
what its lent arrays hold is entered there.
-/
namespace TensorStorage

/-- A shared handle to a tensor, the place of the tensor in its workspace. -/
structure Handle where
  place : Nat
deriving DecidableEq, Ord, Repr, Hashable

structure HeldIterator where
  handle : Handle
  iterator : TensorIterator
deriving DecidableEq, Repr

/-- Two held iterators are the same when they iterate over the same tensor and have yielded as many entries. -/
def HeldIterator.same (i j : HeldIterator) : Bool :=
  i.handle == j.handle && i.iterator.produced == j.iterator.produced

/-- Tensors, the number of names drawn, and the lent arrays. -/
structure Workspace where
  tensors : Array Tensor
  drawn : Nat
  ledger : Ledger

namespace Workspace

def empty : Workspace := ⟨#[], 0, .empty⟩

/-- A name that is not drawn again: the letter and a running number. -/
def drawName (w : Workspace) (letter : Char) : String × Workspace :=
  (String.singleton letter ++ toString w.drawn, { w with drawn := w.drawn + 1 })

def tensor? (w : Workspace) (h : Handle) : Option Tensor := w.tensors[h.place]?

/-- The workspace with the ledger showing what the tensor's lent arrays hold. -/
def settle (w : Workspace) (t : Tensor) : Workspace :=
  match t.storage? with
  | some s => { w with ledger := w.ledger.settle s }
  | none => w

def add (w : Workspace) (t : Tensor) : Handle × Workspace :=
  (⟨w.tensors.size⟩, { w with tensors := w.tensors.push t }.settle t)

def put (w : Workspace) (h : Handle) (t : Tensor) : Workspace :=
  { w with tensors := w.tensors.setIfInBounds h.place t }.settle t

/-- Changes a tensor; if the change fails, nothing changes. -/
def update (w : Workspace) (h : Handle) (change : Tensor → Outcome Tensor) : Outcome Workspace := do
  let t ← w.tensor? h
  return w.put h (← change t)

/-- Changes a tensor's storage in place.  The tensor has a new generation even if the change fails. -/
def updateStorage {α : Type} (w : Workspace) (h : Handle) (change : Storage → Outcome (α × Storage)) :
    Outcome α × Workspace :=
  match (do (← w.tensor? h).openStorage : Outcome (Storage × Tensor)) with
  | .error e => (.error e, w)
  | .ok (s, t) =>
    match change s with
    | .error e => (.error e, w.put h t)
    | .ok (a, s) => (.ok a, w.put h (t.closeStorage s))

/-- Adds the tensor that a computation makes, if it makes one. -/
def addMade (w : Workspace) (made : Outcome Tensor) : Outcome Handle × Workspace :=
  match made with
  | .error e => (.error e, w)
  | .ok t => let (h, w) := w.add t; (.ok h, w)

/-- Adds a packed tensor without dimensions that holds one value, under a drawn name. -/
def addScalar (w : Workspace) (v : Value) : Outcome Handle × Workspace :=
  let (name, w) := w.drawName 's'
  w.addMade (Tensor.scalar name v)

/-- Adds a matrix over arrays that a caller hands in, and lends when `lent` is set. -/
def addMatrix (w : Workspace) (kind : MatrixKind) (name : String) (dimensions : List Nat) (lent : Bool)
    (pointers inner : Array Int32) (d : DataType) (values : Array d.Scalar) : Outcome Handle × Workspace :=
  let (pointers, ledger) := w.ledger.takeEntries lent pointers
  let (inner, ledger) := ledger.takeEntries lent inner
  let (values, ledger) := ledger.takeValues lent d values
  { w with ledger }.addMade (kind.assemble name dimensions pointers inner values)

def addTransposed (w : Workspace) (h : Handle) (name : String) (ordering : List Nat) (format : Format) :
    Outcome Handle × Workspace :=
  w.addMade do (← w.tensor? h).transpose name ordering format

/-- Adds a transposed tensor in the format of the first, under a drawn name. -/
def addTransposedAlike (w : Workspace) (h : Handle) (ordering : List Nat) : Outcome Handle × Workspace :=
  let (name, w) := w.drawName 'A'
  w.addMade do
    let t ← w.tensor? h
    t.transpose name ordering t.format

/-! ## Iterators -/

/-- An iterator over a tensor, at kind `d?` if one is given. -/
def iterator (w : Workspace) (h : Handle) (d? : Option DataType) : Outcome HeldIterator := do
  let t ← w.tensor? h
  let iterator ← match d? with
    | none => t.iterator
    | some d => t.iteratorAs d
  return ⟨h, iterator⟩

def next (w : Workspace) (i : HeldIterator) : Outcome (Option Entry × HeldIterator) := do
  let t ← w.tensor? i.handle
  let (entry, iterator) ← i.iterator.next? t
  return (entry, { i with iterator })

def nextAs (w : Workspace) (d : DataType) (i : HeldIterator) : Outcome (Option Entry × HeldIterator) := do
  let t ← w.tensor? i.handle
  let (item, iterator) ← i.iterator.nextAs? d t
  return (item.map fun p => ⟨p.1, ⟨d, p.2⟩⟩, { i with iterator })

def remaining (w : Workspace) (i : HeldIterator) : Nat :=
  match w.tensor? i.handle with
  | some t => i.iterator.length t
  | none => 0

end Workspace

end TensorStorage
