import TensorStorage.Tensor.Iterator
/-!
# Dense copies

A dense array holds one scalar for every coordinate of its shape, in row-major order.  A shape may have as many
elements as any array.  `Tensor.toDense` multiplies the dimensions from the left to find that out.  The array itself
counts only the dimensions that are not zero, so a shape without elements can still be too large for it; that is a
breach, and so are more bytes than an array can have.
-/
namespace TensorStorage

/-- Scalars of one kind in row-major order. -/
structure DenseArray (d : DataType) where
  shape : List Nat
  cells : Array d.Scalar

/-- The product from the left, if it stays within the words all along and ends within the largest array. -/
def elementCount? (dimensions : List Nat) : Option Nat :=
  (dimensions.foldlM (fun product n => if product * n < wordLimit then some (product * n) else none) 1).filter
    (· ≤ maxRoom)

namespace DenseArray

variable {d : DataType}

/-- The row-major place of a coordinate within a shape; none outside it. -/
def place? (shape : List Nat) (c : Coordinate) : Option Nat :=
  if c.length = shape.length then
    (c.zip shape).foldlM (fun place p => if p.1 < p.2 then some (place * p.2 + p.1) else none) 0
  else none

/-- True when an array of kind `d` and of this shape can be made. -/
def allocatable (d : DataType) (shape : List Nat) : Bool :=
  (shape.filter (· ≠ 0)).foldl (· * ·) 1 ≤ maxRoom && hasRoom (shape.foldl (· * ·) 1) d.byteSize

def zeros (d : DataType) (shape : List Nat) : DenseArray d :=
  ⟨shape, Array.replicate (shape.foldl (· * ·) 1) d.zero⟩

def get? (a : DenseArray d) (c : Coordinate) : Option d.Scalar := do a.cells[← place? a.shape c]?

def set? (a : DenseArray d) (c : Coordinate) (x : d.Scalar) : Option (DenseArray d) := do
  let place ← place? a.shape c
  if h : place < a.cells.size then some { a with cells := a.cells.set place x h } else none

end DenseArray

/-- The dense copy of a tensor's stored entries at kind `d`; of entries at one coordinate the last is kept. -/
def Tensor.toDense (t : Tensor) (d : DataType) : Outcome (DenseArray d) := do
  if (elementCount? t.dimensions).isNone then
    .error (.refused (.invalidShape (.tooManyElements t.dimensions)))
  if !DenseArray.allocatable d t.dimensions then
    .error .breach
  let entries ← t.entriesAs d
  Outcome.ofOption (entries.foldlM (fun a e => a.set? e.1 e.2) (.zeros d t.dimensions))

end TensorStorage
