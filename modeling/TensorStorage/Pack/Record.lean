import TensorStorage.CoordinateBuffer
import TensorStorage.Format
import TensorStorage.Options
/-!
# Record — entries checked against a tensor and keyed by level

A `Packer` is what packing needs to know of a tensor.  `collect` checks entries against it, in their order, and keys
each by its coordinate in level order; sorting by the keys then puts the records in storage order.
-/
namespace TensorStorage

/-- The shape, format, kind and duplicate policy to pack for. -/
structure Packer where
  dimensions : List Nat
  format : Format
  dtype : DataType
  policy : DuplicatePolicy
deriving DecidableEq

/-- A value keyed by its coordinate in level order. -/
structure Record where
  key : Coordinate
  value : Value
deriving DecidableEq

namespace Packer

/-- Checks that the format has the order of the tensor, that packing implements its levels, and that every dimension
fits the index arrays. -/
def check (p : Packer) : Checked Unit := do
  if p.format.order ≠ p.dimensions.length then
    .error (.invalidFormat (.tensorOrder p.format.order p.dimensions.length))
  p.format.ensureSupported
  match p.dimensions.find? (maxIndex < ·) with
  | some dimension => .error (.indexOverflow dimension)
  | none => return

/-- Checks an entry, its number of coordinates first, then its kind, then its bounds, and keys it. -/
def record (p : Packer) (e : Entry) : Outcome Record := do
  if e.coordinate.length ≠ p.dimensions.length then
    .error (.refused (.dimensionMismatch p.dimensions.length e.coordinate.length))
  if e.value.dtype ≠ p.dtype then
    .error (.refused (.typeMismatch p.dtype e.value.dtype))
  if !e.coordinate.inBounds p.dimensions then
    .error (.refused (.outOfBounds e.coordinate p.dimensions))
  let key ← p.format.toLevels? e.coordinate
  return ⟨key, e.value⟩

/-- Checks and keys entries, up to the first that fails. -/
def collect (p : Packer) (entries : List Entry) : Outcome (List Record) := entries.mapM p.record

end Packer

end TensorStorage
