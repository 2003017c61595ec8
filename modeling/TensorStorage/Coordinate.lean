/-!
# Coordinate — places in a tensor

A coordinate has one number per dimension.  Coordinates are compared lexicographically, first number first.  The
numbers of requests are 64-bit words.
-/
namespace TensorStorage

/-- One number per dimension, in the order of the dimensions; also one per level, in the order of the levels. -/
abbrev Coordinate := List Nat

/-- The largest position, extent or dimension that the 32-bit index arrays can hold. -/
def maxIndex : Nat := 2147483647

/-- One more than the largest 64-bit word. -/
def wordLimit : Nat := 18446744073709551616

/-- A number, or the largest word if it is larger. -/
def saturated (n : Nat) : Nat := min n (wordLimit - 1)

namespace Coordinate

/-- How lists of numbers are shown, in messages and texts. -/
def text (c : Coordinate) : String := "[" ++ ", ".intercalate (c.map toString) ++ "]"

/-- Lexicographic order, as a test; a list comes before its extensions. -/
def le : Coordinate → Coordinate → Bool
  | [], _ => true
  | _ :: _, [] => false
  | a :: as, b :: bs => a < b || (a == b && le as bs)

/-- True when every number is below the dimension at its place. -/
def inBounds (c dimensions : Coordinate) : Bool := (c.zip dimensions).all fun p => p.1 < p.2

theorem le_cons_iff (a b : Nat) (as bs : Coordinate) :
    le (a :: as) (b :: bs) = true ↔ a < b ∨ a = b ∧ le as bs = true := by simp [le]

theorem le_total : ∀ a b : Coordinate, le a b || le b a
  | [], _ => by simp [le]
  | _ :: _, [] => by simp [le]
  | a :: as, b :: bs => by
    have ih := le_total as bs
    rw [Bool.or_eq_true] at ih ⊢
    rw [le_cons_iff, le_cons_iff]
    rcases Nat.lt_trichotomy a b with h | h | h
    · exact .inl (.inl h)
    · exact ih.elim (fun i => .inl (.inr ⟨h, i⟩)) (fun i => .inr (.inr ⟨h.symm, i⟩))
    · exact .inr (.inl h)

theorem le_trans : ∀ a b c : Coordinate, le a b → le b c → le a c
  | [], _, _, _, _ => by simp [le]
  | _ :: _, [], _, h, _ => by simp [le] at h
  | _ :: _, _ :: _, [], _, h => by simp [le] at h
  | a :: as, b :: bs, c :: cs, hab, hbc => by
    rw [le_cons_iff] at *
    rcases hab with h | ⟨h, hs⟩ <;> rcases hbc with g | ⟨g, gs⟩
    · exact .inl (Nat.lt_trans h g)
    · exact .inl (g ▸ h)
    · exact .inl (h ▸ g)
    · exact .inr ⟨h.trans g, le_trans as bs cs hs gs⟩

theorem le_antisymm : ∀ {a b : Coordinate}, le a b → le b a → a = b
  | [], [], _, _ => rfl
  | [], _ :: _, _, h => by simp [le] at h
  | _ :: _, [], h, _ => by simp [le] at h
  | a :: as, b :: bs, hab, hba => by
    rw [le_cons_iff] at *
    rcases hab with h | ⟨h, hs⟩ <;> rcases hba with g | ⟨g, gs⟩
    · exact absurd g (Nat.lt_asymm h)
    · exact absurd h (g ▸ Nat.lt_irrefl _)
    · exact absurd g (h ▸ Nat.lt_irrefl _)
    · rw [h, le_antisymm hs gs]

end Coordinate

end TensorStorage
