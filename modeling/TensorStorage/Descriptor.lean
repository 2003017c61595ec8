import TensorStorage.Format
import TensorStorage.Storage
/-!
# Descriptor — a storage laid flat for compiled kernels

A kernel reads a storage through plain arrays and numeric tags, all sizes as 32-bit integers.  The descriptor checks
that the orders agree and that the sizes fit; it trusts the arrays.
-/
namespace TensorStorage

/-- What a kernel reads of a storage. -/
structure Descriptor where
  order : Nat
  dimensions : List Nat
  componentSize : Nat
  ordering : List Nat
  types : List ModeType
  levels : List (List (Array Int32))
  values : ValueArray
  valueCount : Nat
deriving DecidableEq

def narrow (n : Nat) : Checked Nat := if maxIndex < n then .error (.indexOverflow n) else .ok n

namespace Descriptor

/-- The descriptor of a storage laid out by a format, for a tensor of these dimensions. -/
def of (s : Storage) (f : Format) (dimensions : List Nat) : Checked Descriptor := do
  if s.index.order ≠ f.order ∨ dimensions.length ≠ f.order then
    .error (.invalidFormat (.ordersDisagree f.order s.index.order dimensions.length))
  let dimensions ← dimensions.mapM narrow
  let ordering ← f.ordering.mapM narrow
  let valueCount ← narrow s.values.size
  let order ← narrow f.order
  let componentSize ← narrow s.dtype.byteSize
  return {
    order, dimensions, componentSize, ordering, valueCount
    types := f.types
    levels := s.index.modes.map fun m => m.arrays.map (·.data)
    values := s.values }

def typeTags (k : Descriptor) : List Nat := k.types.map (·.tag)

def dtypeTag (k : Descriptor) : Nat := k.values.dtype.tag

/-- How many index arrays a level has; past the order, none. -/
def arrayCount (k : Descriptor) (level : Nat) : Nat := (k.levels[level]?.map (·.length)).getD 0

def hasNoLevels (k : Descriptor) : Bool := k.levels.isEmpty

end Descriptor

end TensorStorage
