import TensorStorage.Value
/-!
# Value — numeric equality

Numeric equality is symmetric and transitive, and a value equals itself unless it has a NaN in it.  The zeros of a kind
are the values that equal its plus zero; across kinds, values are the same if they are equal or both zeros
(`Value.Same`).
-/
namespace TensorStorage

/-! ## Floating-point numbers -/

namespace Binary

variable {l : BinaryLayout} {x y z : Binary l}

theorem equals_iff : x.equals y = true ↔
    x.isNaN = false ∧ y.isNaN = false ∧ (x.isZero = true ∧ y.isZero = true ∨ x = y) := by
  unfold equals
  simp only [Bool.and_eq_true, Bool.not_eq_true', Bool.or_eq_true, beq_iff_eq, and_assoc]

theorem equals_self_iff : x.equals x = true ↔ x.isNaN = false := by
  rw [equals_iff]
  exact ⟨fun h => h.1, fun h => ⟨h, h, .inr rfl⟩⟩

theorem equals_symm (h : x.equals y = true) : y.equals x = true := by
  obtain ⟨hx, hy, h⟩ := equals_iff.1 h
  exact equals_iff.2 ⟨hy, hx, h.imp And.symm Eq.symm⟩

theorem equals_trans (h : x.equals y = true) (h' : y.equals z = true) : x.equals z = true := by
  obtain ⟨hx, -, h⟩ := equals_iff.1 h
  obtain ⟨-, hz, h'⟩ := equals_iff.1 h'
  refine equals_iff.2 ⟨hx, hz, ?_⟩
  rcases h with ⟨hx0, hy0⟩ | rfl
  · rcases h' with ⟨-, hz0⟩ | rfl
    · exact .inl ⟨hx0, hz0⟩
    · exact .inl ⟨hx0, hy0⟩
  · exact h'

theorem code_zero : (zero : Binary l).code = 0 := by
  simp [zero, ofCode, ofBits, code]

theorem isNaN_zero : (zero : Binary l).isNaN = false := by
  simp [isNaN, code_zero]

end Binary

/-! ## Complex numbers -/

namespace Complex

variable {l : BinaryLayout} {x y z : Complex l}

def isNaN (x : Complex l) : Bool := x.re.isNaN || x.im.isNaN

theorem equals_iff : x.equals y = true ↔ x.re.equals y.re = true ∧ x.im.equals y.im = true := by
  unfold equals
  rw [Bool.and_eq_true]

theorem equals_self_iff : x.equals x = true ↔ x.isNaN = false := by
  rw [equals_iff, Binary.equals_self_iff, Binary.equals_self_iff, isNaN, Bool.or_eq_false_iff]

theorem equals_symm (h : x.equals y = true) : y.equals x = true := by
  obtain ⟨hre, him⟩ := equals_iff.1 h
  exact equals_iff.2 ⟨Binary.equals_symm hre, Binary.equals_symm him⟩

theorem equals_trans (h : x.equals y = true) (h' : y.equals z = true) : x.equals z = true := by
  obtain ⟨hre, him⟩ := equals_iff.1 h
  obtain ⟨hre', him'⟩ := equals_iff.1 h'
  exact equals_iff.2 ⟨Binary.equals_trans hre hre', Binary.equals_trans him him'⟩

theorem isNaN_zero : (zero : Complex l).isNaN = false := by
  simp [isNaN, zero, Binary.isNaN_zero]

end Complex

/-! ## Scalars -/

namespace DataType

variable {d : DataType} {x y z : d.Scalar}

/-- True of a number that is a NaN, or has one for a part. -/
def isNaN : (d : DataType) → d.Scalar → Bool
  | int32 | int64 => fun _ => false
  | float32 => fun (x : Binary32) => x.isNaN
  | float64 => fun (x : Binary64) => x.isNaN
  | complex32 => fun (x : Complex32) => x.isNaN
  | complex64 => fun (x : Complex64) => x.isNaN

theorem equals_self_iff : d.equals x x = true ↔ d.isNaN x = false := by
  cases d with
  | int32 => simp [equals, isNaN]
  | int64 => simp [equals, isNaN]
  | float32 => exact Binary.equals_self_iff
  | float64 => exact Binary.equals_self_iff
  | complex32 => exact Complex.equals_self_iff
  | complex64 => exact Complex.equals_self_iff

theorem equals_symm (h : d.equals x y = true) : d.equals y x = true := by
  cases d with
  | int32 => exact beq_iff_eq.2 (beq_iff_eq.1 h).symm
  | int64 => exact beq_iff_eq.2 (beq_iff_eq.1 h).symm
  | float32 => exact Binary.equals_symm h
  | float64 => exact Binary.equals_symm h
  | complex32 => exact Complex.equals_symm h
  | complex64 => exact Complex.equals_symm h

theorem equals_trans (h : d.equals x y = true) (h' : d.equals y z = true) : d.equals x z = true := by
  cases d with
  | int32 => exact beq_iff_eq.2 ((beq_iff_eq.1 h).trans (beq_iff_eq.1 h'))
  | int64 => exact beq_iff_eq.2 ((beq_iff_eq.1 h).trans (beq_iff_eq.1 h'))
  | float32 => exact Binary.equals_trans h h'
  | float64 => exact Binary.equals_trans h h'
  | complex32 => exact Complex.equals_trans h h'
  | complex64 => exact Complex.equals_trans h h'

theorem isNaN_zero (d : DataType) : d.isNaN d.zero = false := by
  cases d with
  | int32 => rfl
  | int64 => rfl
  | float32 => exact Binary.isNaN_zero
  | float64 => exact Binary.isNaN_zero
  | complex32 => exact Complex.isNaN_zero
  | complex64 => exact Complex.isNaN_zero

end DataType

/-! ## Values -/

namespace Value

variable {u v w : Value}

def isNaN (v : Value) : Bool := v.dtype.isNaN v.scalar

theorem equals_iff : v.equals w = true ↔
    ∃ (d : DataType) (x y : d.Scalar), v = ⟨d, x⟩ ∧ w = ⟨d, y⟩ ∧ d.equals x y = true := by
  constructor
  · intro h
    unfold equals at h
    cases hw : w.as? v.dtype with
    | none =>
      rw [hw] at h
      cases h
    | some y =>
      rw [hw] at h
      exact ⟨v.dtype, v.scalar, y, rfl, eq_of_as? hw, h⟩
  · rintro ⟨d, x, y, rfl, rfl, h⟩
    rw [equals, as?_self ⟨d, y⟩]
    exact h

theorem dtype_eq_of_equals (h : v.equals w = true) : v.dtype = w.dtype := by
  obtain ⟨d, x, y, rfl, rfl, -⟩ := equals_iff.1 h
  rfl

theorem equals_self_iff : v.equals v = true ↔ v.isNaN = false := by
  rw [equals, as?_self]
  exact DataType.equals_self_iff

theorem equals_symm (h : v.equals w = true) : w.equals v = true := by
  obtain ⟨d, x, y, rfl, rfl, hxy⟩ := equals_iff.1 h
  exact equals_iff.2 ⟨d, y, x, rfl, rfl, DataType.equals_symm hxy⟩

theorem equals_trans (h : u.equals v = true) (h' : v.equals w = true) : u.equals w = true := by
  obtain ⟨d, x, y, rfl, rfl, hxy⟩ := equals_iff.1 h
  obtain ⟨d', y', z, hd, rfl, hyz⟩ := equals_iff.1 h'
  cases hd
  exact equals_iff.2 ⟨d, x, z, rfl, rfl, DataType.equals_trans hxy hyz⟩

/-- **The zeros are told apart from the other numbers** by what equals them. -/
theorem isZero_of_equals (h : v.equals w = true) (hv : v.isZero = true) : w.isZero = true := by
  unfold isZero at hv ⊢
  rw [← dtype_eq_of_equals h]
  exact equals_trans (equals_symm h) hv

theorem isZero_zero (d : DataType) : (zero d).isZero = true := equals_self_iff.2 (DataType.isNaN_zero d)

theorem isNaN_zero (d : DataType) : (zero d).isNaN = false := DataType.isNaN_zero d

/-- **The same value**: numerically equal, or both zeros, if of different kinds. -/
def Same (v w : Value) : Prop := v.equals w = true ∨ v.isZero = true ∧ w.isZero = true

instance (v w : Value) : Decidable (v.Same w) := inferInstanceAs (Decidable (_ ∨ _))

theorem Same.symm (h : v.Same w) : w.Same v := h.imp equals_symm And.symm

theorem Same.trans (h : u.Same v) (h' : v.Same w) : u.Same w := by
  rcases h with h | ⟨hu, hv⟩
  · rcases h' with h' | ⟨hv, hw⟩
    · exact .inl (equals_trans h h')
    · exact .inr ⟨isZero_of_equals (equals_symm h) hv, hw⟩
  · rcases h' with h' | ⟨-, hw⟩
    · exact .inr ⟨hu, isZero_of_equals h' hv⟩
    · exact .inr ⟨hu, hw⟩

theorem Same.isZero_iff (h : v.Same w) : v.isZero = true ↔ w.isZero = true := by
  rcases h with h | ⟨hv, hw⟩
  · exact ⟨isZero_of_equals h, isZero_of_equals (equals_symm h)⟩
  · exact iff_of_true hv hw

theorem same_self (h : v.isNaN = false) : v.Same v := .inl (equals_self_iff.2 h)

end Value

end TensorStorage
