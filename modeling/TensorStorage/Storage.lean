import TensorStorage.Index
import TensorStorage.ValueArray
/-!
# Storage — an index and the values it addresses

Position `k` of the innermost level owns slot `k` of the value array.  `Storage.of` compares only the two counts;
whether the arrays of the levels nest is checked when a walk starts.
-/
namespace TensorStorage

structure Storage where
  index : TensorIndex
  values : ValueArray
deriving DecidableEq

namespace Storage

/-- A storage from an index and as many values as it addresses. -/
def of (index : TensorIndex) (values : ValueArray) : Checked Storage :=
  if values.size = index.size then .ok ⟨index, values⟩
  else .error (.invalidIndex (.valueCount index.size values.size))

def dtype (s : Storage) : DataType := s.values.dtype

/-- The value of a leaf position; none past the last. -/
def valueAt? (s : Storage) (position : Nat) : Option Value := s.values.get? position

def isOwned (s : Storage) : Bool := s.values.owner.isEngine && s.index.arrays.all (·.owner.isEngine)

def zero (s : Storage) : Storage := { s with values := s.values.fillZero }

def write (s : Storage) (position : Nat) (v : Value) : Checked Storage := do
  let values ← s.values.set position v
  return { s with values }

end Storage

end TensorStorage
