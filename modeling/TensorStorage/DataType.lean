/-!
# DataType — the kinds of component a tensor can hold

A tensor holds components of one kind, fixed when the tensor is made.  The six kinds stand in one fixed order
(`DataType.all`); a kind's place in it is also its numeric tag in kernel descriptors.
-/
namespace TensorStorage

/-- The kind of a tensor's components. -/
inductive DataType where
  | int32
  | int64
  | float32
  | float64
  | complex32
  | complex64
deriving DecidableEq, Repr

namespace DataType

def all : List DataType := [int32, int64, float32, float64, complex32, complex64]

def name : DataType → String
  | int32 => "int32"
  | int64 => "int64"
  | float32 => "float32"
  | float64 => "float64"
  | complex32 => "complex32"
  | complex64 => "complex64"

/-- Bytes of one component; a complex component has two parts. -/
def byteSize : DataType → Nat
  | int32 | float32 => 4
  | int64 | float64 | complex32 => 8
  | complex64 => 16

/-- The stable number that stands for the kind in a descriptor. -/
def tag : DataType → Nat
  | int32 => 0
  | int64 => 1
  | float32 => 2
  | float64 => 3
  | complex32 => 4
  | complex64 => 5

def isIntegral : DataType → Bool
  | int32 | int64 => true
  | _ => false

def isFloat : DataType → Bool
  | float32 | float64 => true
  | _ => false

def isComplex : DataType → Bool
  | complex32 | complex64 => true
  | _ => false

def ofName? (text : String) : Option DataType := all.find? (·.name == text)

/-- A kind's tag is its place in `all`. -/
theorem getElem?_all_tag (d : DataType) : all[d.tag]? = some d := by cases d <;> rfl

end DataType

end TensorStorage
