import TensorStorage.Tensor.Basic
/-!
# Matrix — compressed sparse rows and columns

A matrix comes and goes as three arrays: pointers, inner coordinates and values.  Sparse rows have a pointer per row
and list columns; sparse columns have a pointer per column and list rows.  Both make the same index, a dense level over
a compressed one, and differ in the format alone.
-/
namespace TensorStorage

/-- Which dimension of a matrix is compressed. -/
inductive MatrixKind where
  | rows
  | columns
deriving DecidableEq, Repr

def MatrixKind.format : MatrixKind → Format
  | rows => .csr
  | columns => .csc

/-- The packed matrix over these arrays, of the kind of the values. -/
def MatrixKind.assemble (kind : MatrixKind) (name : String) (dimensions : List Nat)
    (pointers inner : IndexArray) (values : ValueArray) : Outcome Tensor := do
  if dimensions.length ≠ 2 then
    .error (.refused (.dimensionMismatch 2 dimensions.length))
  let index ← TensorIndex.segmented pointers inner
  let s ← Storage.of index values
  let t ← Tensor.new name values.dtype dimensions kind.format {}
  t.setStorage s

structure MatrixArrays (d : DataType) where
  pointers : Array Int32
  inner : Array Int32
  values : Array d.Scalar

/-- An array of the inner level, empty if there is no such array. -/
def Storage.innerArray (s : Storage) (i : Nat) : Array Int32 :=
  match (do (← s.index.mode 1).array i : Checked IndexArray) with
  | .ok a => a.data
  | .error _ => #[]

/-- The values at kind `d`, empty if they are of another kind. -/
def Storage.valuesAs (s : Storage) (d : DataType) : Array d.Scalar :=
  match s.values.slice d with
  | .ok cells => cells
  | .error _ => #[]

def Tensor.matrixArrays (t : Tensor) (kind : MatrixKind) (d : DataType) : Checked (MatrixArrays d) := do
  if t.format ≠ kind.format then
    .error (.invalidFormat (.storedAs t.name t.format.text kind.format.text))
  if t.dtype ≠ d then
    .error (.typeMismatch t.dtype d)
  let s ← t.storage
  return ⟨s.innerArray 0, s.innerArray 1, s.valuesAs d⟩

end TensorStorage
