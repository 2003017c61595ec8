import TensorStorage.DataType
import TensorStorage.Number.Complex
/-!
# Value — one component with its kind

`DataType.Scalar d` is the type of the components of kind `d`; the operations on scalars are families over the kind.  A
`Value` pairs a kind with a scalar of it, so records and stored entries of every kind share one type, and kinds never
mix: `Value.as?` opens a value at one kind, and `Value.add?` adds only values of one kind.

Two equalities are told apart.  `=` is identity of the representation; `equals` compares numerically, so the two zeros
agree and a NaN agrees with nothing.
-/
namespace TensorStorage

namespace DataType

abbrev Scalar : DataType → Type
  | int32 => Int32
  | int64 => Int64
  | float32 => Binary32
  | float64 => Binary64
  | complex32 => Complex32
  | complex64 => Complex64

instance instDecidableEqScalar : (d : DataType) → DecidableEq d.Scalar
  | int32 => inferInstanceAs (DecidableEq Int32)
  | int64 => inferInstanceAs (DecidableEq Int64)
  | float32 => inferInstanceAs (DecidableEq Binary32)
  | float64 => inferInstanceAs (DecidableEq Binary64)
  | complex32 => inferInstanceAs (DecidableEq Complex32)
  | complex64 => inferInstanceAs (DecidableEq Complex64)

/-- The additive identity of a kind; of the two zeros, the plus one. -/
def zero : (d : DataType) → d.Scalar
  | int32 => (0 : Int32)
  | int64 => (0 : Int64)
  | float32 => (Binary.zero : Binary32)
  | float64 => (Binary.zero : Binary64)
  | complex32 => (Complex.zero : Complex32)
  | complex64 => (Complex.zero : Complex64)

/-- The sum of two scalars; integers come round at the ends of their range. -/
def add : (d : DataType) → d.Scalar → d.Scalar → d.Scalar
  | int32 => fun (x y : Int32) => x + y
  | int64 => fun (x y : Int64) => x + y
  | float32 => fun (x y : Binary32) => x.add y
  | float64 => fun (x y : Binary64) => x.add y
  | complex32 => fun (x y : Complex32) => x.add y
  | complex64 => fun (x y : Complex64) => x.add y

def equals : (d : DataType) → d.Scalar → d.Scalar → Bool
  | int32 => fun (x y : Int32) => x == y
  | int64 => fun (x y : Int64) => x == y
  | float32 => fun (x y : Binary32) => x.equals y
  | float64 => fun (x y : Binary64) => x.equals y
  | complex32 => fun (x y : Complex32) => x.equals y
  | complex64 => fun (x y : Complex64) => x.equals y

def text : (d : DataType) → d.Scalar → String
  | int32 => fun (x : Int32) => toString x.toInt
  | int64 => fun (x : Int64) => toString x.toInt
  | float32 => fun (x : Binary32) => x.text
  | float64 => fun (x : Binary64) => x.text
  | complex32 => fun (x : Complex32) => x.text
  | complex64 => fun (x : Complex64) => x.text

end DataType

/-- One component together with its kind. -/
structure Value where
  dtype : DataType
  scalar : dtype.Scalar
deriving DecidableEq

namespace Value

def zero (d : DataType) : Value := ⟨d, d.zero⟩

/-- The scalar, if the value is of kind `d`. -/
def as? (v : Value) (d : DataType) : Option d.Scalar :=
  if h : v.dtype = d then some (h ▸ v.scalar) else none

/-- Numeric equality; values of different kinds are never equal. -/
def equals (v w : Value) : Bool :=
  match w.as? v.dtype with
  | some y => v.dtype.equals v.scalar y
  | none => false

/-- Numeric equality with the zero of the value's own kind. -/
def isZero (v : Value) : Bool := v.equals (zero v.dtype)

def add? (v w : Value) : Option Value :=
  (w.as? v.dtype).map fun y => ⟨v.dtype, v.dtype.add v.scalar y⟩

def text (v : Value) : String := v.dtype.text v.scalar

theorem as?_self (v : Value) : v.as? v.dtype = some v.scalar := by simp [as?]

theorem as?_eq_none_iff (v : Value) (d : DataType) : v.as? d = none ↔ v.dtype ≠ d := by simp [as?]

theorem eq_of_as? {v : Value} {d : DataType} {x : d.Scalar} (h : v.as? d = some x) : v = ⟨d, x⟩ := by
  obtain ⟨e, y⟩ := v
  by_cases hd : e = d
  · subst hd
    simp [as?] at h
    rw [h]
  · simp [as?, hd] at h

theorem dtype_add? {v w s : Value} (h : v.add? w = some s) : s.dtype = v.dtype := by
  obtain ⟨y, _, rfl⟩ := Option.map_eq_some_iff.1 h
  rfl

end Value

end TensorStorage
