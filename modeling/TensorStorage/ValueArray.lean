import TensorStorage.Buffer
import TensorStorage.Error
import TensorStorage.Room
import TensorStorage.Value
/-!
# ValueArray — the component array of a storage

All components of an array are of the array's kind.  Reading past the end gives nothing; `set` refuses a place past the
end before it looks at the kind, while `put` looks at the kind first and leaves the place to its caller.
-/
namespace TensorStorage

/-- An array of components of one kind. -/
structure ValueArray where
  dtype : DataType
  cells : Buffer dtype.Scalar
deriving DecidableEq

namespace ValueArray

def ofArray (d : DataType) (cells : Array d.Scalar) : ValueArray := ⟨d, { data := cells }⟩

def zeros (d : DataType) (size : Nat) : ValueArray := ofArray d (Array.replicate size d.zero)

/-- The engine's own array of zeros; none if no array can have that many. -/
def zeros? (d : DataType) (size : Nat) : Option ValueArray :=
  if hasRoom size d.byteSize then some (zeros d size) else none

def size (a : ValueArray) : Nat := a.cells.size

def owner (a : ValueArray) : Owner := a.cells.owner

def get? (a : ValueArray) (i : Nat) : Option Value := a.cells.data[i]?.map (⟨a.dtype, ·⟩)

def toList (a : ValueArray) : List Value := a.cells.data.toList.map (⟨a.dtype, ·⟩)

def set (a : ValueArray) (i : Nat) (v : Value) : Checked ValueArray :=
  if h : i < a.cells.data.size then
    match v.as? a.dtype with
    | some x => .ok { a with cells := { a.cells with data := a.cells.data.set i x h } }
    | none => .error (.typeMismatch a.dtype v.dtype)
  else .error (.outOfBounds [i] [a.size])

def slice (a : ValueArray) (d : DataType) : Checked (Array d.Scalar) :=
  if h : a.dtype = d then .ok (h ▸ a.cells.data) else .error (.typeMismatch d a.dtype)

/-- The array with one component replaced through a slice of the value's kind. -/
def put (a : ValueArray) (i : Nat) (v : Value) : Outcome ValueArray :=
  match v.as? a.dtype with
  | some x => do
    let cells ← a.cells.set? i x
    return { a with cells }
  | none => .error (.refused (.typeMismatch v.dtype a.dtype))

def fillZero (a : ValueArray) : ValueArray :=
  { a with cells := { a.cells with data := Array.replicate a.size a.dtype.zero } }

@[simp] theorem size_zeros (d : DataType) (n : Nat) : (zeros d n).size = n := by
  simp [zeros, ofArray, size, Buffer.size]

@[simp] theorem dtype_zeros (d : DataType) (n : Nat) : (zeros d n).dtype = d := rfl

@[simp] theorem size_fillZero (a : ValueArray) : a.fillZero.size = a.size := by
  simp [fillZero, size, Buffer.size]

theorem get?_eq_none_iff (a : ValueArray) (i : Nat) : a.get? i = none ↔ a.size ≤ i := by
  simp [get?, size, Buffer.size]

end ValueArray

end TensorStorage
