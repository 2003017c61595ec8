import TensorStorage.Tensor.Iterator
/-!
# Equality of what tensors hold

Two tensors are equal when kind and dimensions are, and so are their stored entries that are not zero.  How they are
stored does not matter; waiting records do not count, and a tensor that was never packed holds nothing.
-/
namespace TensorStorage.Tensor

/-- The stored entries that are not zero, sorted by coordinate. -/
def nonzeros (t : Tensor) : Outcome (List Entry) :=
  if t.isPacked then do
    let entries ← t.entries
    return (entries.filter fun e => !e.value.isZero).mergeSort fun a b => a.coordinate.le b.coordinate
  else .ok []

def entryEquals (e g : Entry) : Bool := e.coordinate == g.coordinate && e.value.equals g.value

def entriesEqual : List Entry → List Entry → Bool
  | [], [] => true
  | e :: es, g :: gs => entryEquals e g && entriesEqual es gs
  | _, _ => false

/-- Equality of what the tensors hold; false if the entries of one cannot be read. -/
def equals (t u : Tensor) : Bool :=
  if t.dtype ≠ u.dtype ∨ t.dimensions ≠ u.dimensions then false
  else
    match t.nonzeros, u.nonzeros with
    | .ok es, .ok gs => entriesEqual es gs
    | _, _ => false

end TensorStorage.Tensor
