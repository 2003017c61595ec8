import TensorStorage.Tensor.Iterator
import TensorStorage.Tensor.Pack
/-!
# Transposing a tensor

A transposed tensor is a new tensor whose dimension `i` is dimension `ordering[i]` of the first, filled with the first
one's stored entries and packed.
-/
namespace TensorStorage

/-- The numbers of a list at these places; none if a place is past the end. -/
def Coordinate.permuted? (ordering : List Nat) (coordinate : Coordinate) : Option Coordinate :=
  ordering.mapM fun place => coordinate[place]?

def Entry.permuted? (ordering : List Nat) (e : Entry) : Option Entry :=
  (Coordinate.permuted? ordering e.coordinate).map fun coordinate => { e with coordinate }

/-- The transposed tensor, under a name and in a format of its own, with the first one's options. -/
def Tensor.transpose (t : Tensor) (name : String) (ordering : List Nat) (format : Format) : Outcome Tensor := do
  let _ ← Format.of (List.replicate ordering.length .dense) ordering
  if ordering.length ≠ t.order then
    .error (.refused (.invalidFormat (.orderingOrder ordering t.order)))
  let dimensions ← Coordinate.permuted? ordering t.dimensions
  let u ← Tensor.new name t.dtype dimensions format t.options
  let s ← t.storage
  let u ← u.reserve? s.index.size
  let entries ← t.entries
  let permuted ← (entries.mapM (Entry.permuted? ordering) : Option (List Entry))
  let filled ← u.insertAll permuted
  filled.pack

end TensorStorage
