import Mathlib.Algebra.BigOperators.Group.List.Basic
import TensorStorage.Proofs.Pack.Keys
import TensorStorage.Tensor.Dense
/-!
# Dense arrays — a cell for every coordinate of a shape

Within a shape the row-major places of different coordinates are different (`Coordinate.rowMajor_injective`), so a cell
that is set is the one of its coordinate and no other (`DenseArray.Whole.exists_set?`).  An array that is filled item by
item holds at every coordinate the last item for it (`DenseArray.Whole.exists_fill`).  The count of the elements is
refused where a product from the left leaves the words or the last one is more than an array can have
(`elementCount?_eq_none_iff`); where it is not, there can still be no room for the array
(`DenseArray.not_allocatable_iff`).
-/
namespace TensorStorage

/-! ## Places -/

namespace Coordinate

variable {c c' : Coordinate} {shape : List Nat}

/-- A coordinate of a shape. -/
def Within (c : Coordinate) (shape : List Nat) : Prop := c.length = shape.length ∧ c.inBounds shape = true

instance (c : Coordinate) (shape : List Nat) : Decidable (c.Within shape) := inferInstanceAs (Decidable (_ ∧ _))

/-- The place of a coordinate where the last number runs fastest: how many coordinates of the shape are before it. -/
def rowMajor : Coordinate → List Nat → Nat
  | x :: c, _ :: shape => x * shape.prod + rowMajor c shape
  | _, _ => 0

theorem within_cons {x n : Nat} : Within (x :: c) (n :: shape) ↔ x < n ∧ c.Within shape := by
  rw [Within, Within, inBounds_cons, List.length_cons, List.length_cons, Nat.add_right_cancel_iff]
  exact and_left_comm

theorem rowMajor_lt : ∀ {c : Coordinate} {shape : List Nat}, c.Within shape → c.rowMajor shape < shape.prod
  | [], [], _ => Nat.one_pos
  | [], _ :: _, h => absurd h.1 (by simp)
  | _ :: _, [], h => absurd h.1 (by simp)
  | x :: c, n :: shape, h => by
    obtain ⟨hx, hc⟩ := within_cons.1 h
    calc x * shape.prod + rowMajor c shape
        < x * shape.prod + shape.prod := Nat.add_lt_add_left (rowMajor_lt hc) _
      _ = (x + 1) * shape.prod := (Nat.succ_mul _ _).symm
      _ ≤ n * shape.prod := Nat.mul_le_mul_right _ hx
      _ = (n :: shape).prod := List.prod_cons.symm

/-- **Different coordinates of a shape have different places.** -/
theorem rowMajor_injective : ∀ {c c' : Coordinate} {shape : List Nat}, c.Within shape → c'.Within shape →
    c.rowMajor shape = c'.rowMajor shape → c = c'
  | [], c', shape, hc, hc', _ => (List.eq_nil_of_length_eq_zero (hc'.1.trans hc.1.symm)).symm
  | x :: c, [], shape, hc, hc', _ => absurd (hc.1.trans hc'.1.symm) (by simp)
  | x :: c, x' :: c', [], hc, _, _ => absurd hc.1 (by simp)
  | x :: c, x' :: c', n :: shape, hc, hc', h => by
    obtain ⟨-, hc⟩ := within_cons.1 hc
    obtain ⟨-, hc'⟩ := within_cons.1 hc'
    have hlt := rowMajor_lt hc
    have hlt' := rowMajor_lt hc'
    have hpos : 0 < shape.prod := Nat.lt_of_le_of_lt (Nat.zero_le _) hlt
    -- the first number is the quotient by the size of a block, the rest the remainder
    have hquotient := congrArg (· / shape.prod) h
    have hremainder := congrArg (· % shape.prod) h
    simp only [rowMajor, Nat.mul_comm _ shape.prod, Nat.mul_add_div hpos, Nat.mul_add_mod, Nat.div_eq_of_lt hlt,
      Nat.div_eq_of_lt hlt', Nat.mod_eq_of_lt hlt, Nat.mod_eq_of_lt hlt', Nat.add_zero] at hquotient hremainder
    rw [hquotient, rowMajor_injective hc hc' hremainder]

end Coordinate

/-! ## Counts -/

/-- **The product from the left leaves the words on the way.** -/
def LeavesWords (dimensions : List Nat) : Prop := ∃ k, wordLimit ≤ (dimensions.take k).prod

theorem foldlM_product_eq_some_iff : ∀ {dimensions : List Nat} {product n : Nat}, product < wordLimit →
    (dimensions.foldlM (fun product n => if product * n < wordLimit then some (product * n) else none) product =
      some n ↔ (∀ k, product * (dimensions.take k).prod < wordLimit) ∧ n = product * dimensions.prod)
  | [], product, n, h => by simp [h, eq_comm]
  | d :: dimensions, product, n, h => by
    rw [List.foldlM_cons, List.prod_cons, ← Nat.mul_assoc]
    by_cases hlt : product * d < wordLimit
    · rw [if_pos hlt, Option.bind_eq_bind, Option.bind_some, foldlM_product_eq_some_iff hlt]
      refine and_congr_left fun _ => ⟨fun hall k => ?_, fun hall k => ?_⟩
      · cases k with
        | zero => simpa using h
        | succ k =>
          rw [List.take_succ_cons, List.prod_cons, ← Nat.mul_assoc]
          exact hall k
      · rw [Nat.mul_assoc, ← List.prod_cons, ← List.take_succ_cons]
        exact hall (k + 1)
    · rw [if_neg hlt, Option.bind_eq_bind, Option.bind_none]
      refine ⟨nofun, fun hall => absurd (hall.1 1) ?_⟩
      simpa using hlt

theorem elementCount?_eq_some_iff {dimensions : List Nat} {n : Nat} : elementCount? dimensions = some n ↔
    (¬ LeavesWords dimensions ∧ n = dimensions.prod) ∧ n ≤ maxRoom := by
  rw [elementCount?, Option.filter_eq_some_iff, foldlM_product_eq_some_iff (by decide), LeavesWords, not_exists]
  simp only [Nat.one_mul, Nat.not_le, decide_eq_true_eq]

/-- **The count of the elements is refused** where it leaves the words on the way, or is too large in the end. -/
theorem elementCount?_eq_none_iff {dimensions : List Nat} :
    elementCount? dimensions = none ↔ LeavesWords dimensions ∨ maxRoom < dimensions.prod := by
  rw [Option.eq_none_iff_forall_ne_some]
  constructor
  · intro hnone
    by_cases hwords : LeavesWords dimensions
    · exact .inl hwords
    · exact .inr (Nat.lt_of_not_le fun hroom =>
        hnone dimensions.prod (elementCount?_eq_some_iff.2 ⟨⟨hwords, rfl⟩, hroom⟩))
  · rintro hlarge n hn
    obtain ⟨⟨hwords, rfl⟩, hroom⟩ := elementCount?_eq_some_iff.1 hn
    exact hlarge.elim hwords (Nat.not_lt_of_le hroom)

/-! ## Arrays -/

namespace DenseArray

variable {d : DataType} {a b : DenseArray d} {c : Coordinate} {shape : List Nat}

theorem allocatable_iff : allocatable d shape = true ↔
    (shape.filter (· ≠ 0)).prod ≤ maxRoom ∧ shape.prod * d.byteSize ≤ maxRoom := by
  rw [allocatable, ← List.prod_eq_foldl, ← List.prod_eq_foldl, hasRoom, Bool.and_eq_true, decide_eq_true_iff,
    decide_eq_true_iff]

/-- **Why no array is made of a shape whose elements were counted**: a dimension is zero and the others are too large,
or there are too many bytes. -/
theorem not_allocatable_iff (hroom : shape.prod ≤ maxRoom) : ¬ allocatable d shape = true ↔
    0 ∈ shape ∧ maxRoom < (shape.filter (· ≠ 0)).prod ∨ maxRoom < shape.prod * d.byteSize := by
  rw [allocatable_iff, Decidable.not_and_iff_or_not, Nat.not_le, Nat.not_le]
  refine or_congr_left ⟨fun hlarge => ⟨Decidable.not_not.1 fun h0 => ?_, hlarge⟩, And.right⟩
  -- without a zero the others are all, and these were counted
  have hall : shape.filter (· ≠ 0) = shape := List.filter_eq_self.2 fun n hn => by
    simpa using fun hzero : n = 0 => h0 (hzero ▸ hn)
  rw [hall] at hlarge
  exact Nat.not_lt_of_le hroom hlarge

theorem foldlM_place : ∀ {c : Coordinate} {shape : List Nat} (place : Nat), c.length = shape.length →
    (c.zip shape).foldlM (fun place p => if p.1 < p.2 then some (place * p.2 + p.1) else none) place =
      if c.inBounds shape then some (place * shape.prod + c.rowMajor shape) else none
  | [], [], place, _ => by simp [Coordinate.inBounds, Coordinate.rowMajor]
  | [], _ :: _, _, h => absurd h (by simp)
  | _ :: _, [], _, h => absurd h (by simp)
  | x :: c, n :: shape, place, h => by
    rw [List.zip_cons_cons, List.foldlM_cons]
    by_cases hx : x < n
    · rw [if_pos hx, Option.bind_eq_bind, Option.bind_some, foldlM_place _ (Nat.succ.inj h)]
      simp only [Coordinate.inBounds_cons, hx, true_and, Coordinate.rowMajor, List.prod_cons]
      rw [Nat.add_mul, Nat.mul_assoc, Nat.add_assoc]
    · rw [if_neg hx, Option.bind_eq_bind, Option.bind_none, if_neg fun h => hx (Coordinate.inBounds_cons.1 h).1]

theorem place?_of_within (h : c.Within shape) : place? shape c = some (c.rowMajor shape) := by
  rw [place?, if_pos h.1, foldlM_place 0 h.1, if_pos h.2, Nat.zero_mul, Nat.zero_add]

theorem place?_of_not_within (h : ¬ c.Within shape) : place? shape c = none := by
  rw [place?]
  by_cases hlength : c.length = shape.length
  · rw [if_pos hlength, foldlM_place 0 hlength, if_neg fun hin => h ⟨hlength, hin⟩]
  · rw [if_neg hlength]

/-- An array with a cell for every coordinate of its shape. -/
def Whole (a : DenseArray d) : Prop := a.cells.size = a.shape.prod

theorem get?_of_not_within (h : ¬ c.Within a.shape) : a.get? c = none := by
  rw [get?, place?_of_not_within h]
  rfl

theorem get?_of_within (h : c.Within a.shape) : a.get? c = a.cells[c.rowMajor a.shape]? := by
  rw [get?, place?_of_within h]
  rfl

theorem whole_zeros (d : DataType) (shape : List Nat) : (zeros d shape).Whole := by
  rw [Whole, zeros, Array.size_replicate, ← List.prod_eq_foldl]

theorem get?_zeros (h : c.Within shape) : (zeros d shape).get? c = some d.zero := by
  rw [get?_of_within h, zeros, ← List.prod_eq_foldl, Array.getElem?_replicate, if_pos (Coordinate.rowMajor_lt h)]

theorem set?_of_not_within (h : ¬ c.Within a.shape) (x : d.Scalar) : a.set? c x = none := by
  rw [set?, place?_of_not_within h]
  rfl

/-- **A cell that is set** is the one of its coordinate, and no other. -/
theorem Whole.exists_set? (ha : a.Whole) (h : c.Within a.shape) (x : d.Scalar) :
    ∃ b, a.set? c x = some b ∧ b.Whole ∧ b.shape = a.shape ∧
      ∀ c', b.get? c' = if c = c' then some x else a.get? c' := by
  have hplace : c.rowMajor a.shape < a.cells.size := ha ▸ Coordinate.rowMajor_lt h
  let b : DenseArray d := { a with cells := a.cells.set (c.rowMajor a.shape) x hplace }
  refine ⟨b, ?_, ?_, rfl, fun c' => ?_⟩
  · rw [set?, place?_of_within h]
    exact dif_pos hplace
  · show (a.cells.set _ x hplace).size = a.shape.prod
    rwa [Array.size_set]
  · by_cases hc' : c'.Within a.shape
    · rw [get?_of_within hc', show b.get? c' = (a.cells.set _ x hplace)[c'.rowMajor a.shape]? from get?_of_within hc']
      by_cases heq : c = c'
      · rw [if_pos heq, ← heq, Array.getElem?_set_self]
      · rw [if_neg heq, Array.getElem?_set_ne _ fun hsame => heq (Coordinate.rowMajor_injective h hc' hsame)]
    · rw [get?_of_not_within hc', show b.get? c' = none from get?_of_not_within hc',
        if_neg fun heq : c = c' => hc' (heq ▸ h)]

/-! ## Filling -/

/-- The array with these scalars set one after the other. -/
def fill? (a : DenseArray d) (items : List (Coordinate × d.Scalar)) : Option (DenseArray d) :=
  items.foldlM (fun a p => a.set? p.1 p.2) a

/-- The last scalar for a coordinate. -/
def lastAt (items : List (Coordinate × d.Scalar)) (c : Coordinate) : Option d.Scalar :=
  ((items.filter (·.1 = c)).map Prod.snd).getLast?

theorem lastAt_cons (p : Coordinate × d.Scalar) (items : List (Coordinate × d.Scalar)) (c : Coordinate) :
    lastAt (p :: items) c = (lastAt items c).or (if p.1 = c then some p.2 else none) := by
  by_cases hp : p.1 = c
  · rw [lastAt, List.filter_cons_of_pos (by simpa using hp), List.map_cons, List.getLast?_cons, if_pos hp]
    rw [lastAt]
    cases ((items.filter (·.1 = c)).map Prod.snd).getLast? <;> rfl
  · rw [lastAt, List.filter_cons_of_neg (by simpa using hp), if_neg hp, Option.or_none]
    rfl

/-- **A filled array holds the last scalar for a coordinate**, or what it held before. -/
theorem Whole.exists_fill : ∀ {items : List (Coordinate × d.Scalar)} {a : DenseArray d}, a.Whole →
    (∀ p ∈ items, p.1.Within a.shape) → ∃ b, a.fill? items = some b ∧ b.Whole ∧ b.shape = a.shape ∧
      ∀ c, b.get? c = (lastAt items c).or (a.get? c)
  | [], a, ha, _ => ⟨a, rfl, ha, rfl, fun _ => rfl⟩
  | p :: items, a, ha, h => by
    obtain ⟨hp, h⟩ := List.forall_mem_cons.1 h
    obtain ⟨a', hset, ha', hshape, hget⟩ := ha.exists_set? hp p.2
    have h' : ∀ p ∈ items, p.1.Within a'.shape := hshape.symm ▸ h
    obtain ⟨b, hfill, hb, hbshape, hbget⟩ := ha'.exists_fill h'
    refine ⟨b, ?_, hb, hbshape.trans hshape, fun c => ?_⟩
    · rw [fill?, List.foldlM_cons, hset]
      exact hfill
    · rw [hbget, hget, lastAt_cons, Option.or_assoc]
      congr 1
      by_cases hc : p.1 = c <;> simp [hc]

/-- Nothing is filled with a scalar for a coordinate outside the shape. -/
theorem Whole.within_of_fill : ∀ {items : List (Coordinate × d.Scalar)} {a b : DenseArray d}, a.Whole →
    a.fill? items = some b → ∀ p ∈ items, p.1.Within a.shape
  | [], _, _, _, _ => fun p hp => absurd hp List.not_mem_nil
  | p :: items, a, b, ha, h => by
    rw [fill?, List.foldlM_cons, Option.bind_eq_bind, Option.bind_eq_some_iff] at h
    obtain ⟨a', hset, h⟩ := h
    by_cases hp : p.1.Within a.shape
    · obtain ⟨a'', hset', ha', hshape, -⟩ := ha.exists_set? hp p.2
      cases hset.symm.trans hset'
      exact List.forall_mem_cons.2 ⟨hp, hshape ▸ ha'.within_of_fill h⟩
    · rw [set?_of_not_within hp] at hset
      cases hset

end DenseArray

end TensorStorage
