import TensorStorage.Proofs.Matrix
import TensorStorage.Proofs.Tensor.Ownership
/-!
# Loans — which lent arrays a change can reach

A storage reaches the ledger at the numbers of its own loans and nowhere else (`Ledger.getElem?_settle`), so lent arrays
are safe from every storage whose loans are older (`Storage.LoansBelow`).  A request leaves a tensor the arrays it had,
with zeros for values at most, or gives it arrays of the engine's own (`Tensor.storage?_serve`).
-/
namespace TensorStorage

/-! ## Loans of a storage -/

namespace Storage

variable {s : Storage} {k : Nat}

/-- Whose the arrays of a storage are, the values first. -/
def owners (s : Storage) : List Owner := s.values.owner :: s.index.arrays.map (·.owner)

/-- **Every loan of the storage is older than this one.** -/
def LoansBelow (s : Storage) (k : Nat) : Prop := ∀ loan, .caller loan ∈ s.owners → loan < k

theorem isOwned_iff : s.isOwned = true ↔ ∀ o ∈ s.owners, o.isEngine = true := by
  simp [isOwned, owners]

theorem loansBelow_of_isOwned (h : s.isOwned = true) (k : Nat) : s.LoansBelow k := by
  intro loan hloan
  cases isOwned_iff.1 h _ hloan

theorem LoansBelow.mono {m : Nat} (h : s.LoansBelow k) (hkm : k ≤ m) : s.LoansBelow m := fun loan hloan =>
  Nat.lt_of_lt_of_le (h loan hloan) hkm

/-- The storage with these values in its value array. -/
def withCells (s : Storage) (cells : Array s.values.dtype.Scalar) : Storage :=
  { s with values := { s.values with cells := { s.values.cells with data := cells } } }

theorem LoansBelow.withCells (h : s.LoansBelow k) (cells : Array s.values.dtype.Scalar) :
    (s.withCells cells).LoansBelow k := h

end Storage

/-- **Every loan of the tensor's storage is older than this one.** -/
def Tensor.LoansBelow (t : Tensor) (k : Nat) : Prop := ∀ s, t.storage? = some s → s.LoansBelow k

namespace Ledger

variable {l : Ledger} {s : Storage} {i k : Nat}

theorem settle_eq (l : Ledger) (s : Storage) :
    l.settle s = (s.index.arrays.foldl settleEntries l).settleValues s.values := by
  rw [TensorIndex.arrays, List.foldl_flatMap]
  rfl

theorem getElem?_settleEntries (l : Ledger) {a : IndexArray} (h : a.owner ≠ .caller i) :
    (l.settleEntries a).arrays[i]? = l.arrays[i]? := by
  unfold settleEntries
  cases howner : a.owner with
  | engine => rfl
  | caller loan => exact Array.getElem?_setIfInBounds_ne fun heq => h (howner.trans (congrArg _ heq))

theorem getElem?_foldl_settleEntries : ∀ (arrays : List IndexArray) (l : Ledger),
    (∀ a ∈ arrays, a.owner ≠ .caller i) → (arrays.foldl settleEntries l).arrays[i]? = l.arrays[i]?
  | [], _, _ => rfl
  | a :: arrays, l, h => by
    rw [List.foldl_cons, getElem?_foldl_settleEntries arrays _ fun b hb => h b (List.mem_cons_of_mem _ hb)]
    exact getElem?_settleEntries l (h a List.mem_cons_self)

/-- **A storage reaches only its own loans.** -/
theorem getElem?_settle (l : Ledger) (h : .caller i ∉ s.owners) : (l.settle s).arrays[i]? = l.arrays[i]? := by
  have hentries := getElem?_foldl_settleEntries (i := i) s.index.arrays l fun a ha howner =>
    h (List.mem_cons_of_mem _ (List.mem_map.2 ⟨a, ha, howner⟩))
  rw [settle_eq, ← hentries]
  unfold settleValues
  cases howner : s.values.owner with
  | engine => rfl
  | caller loan =>
    refine Array.getElem?_setIfInBounds_ne fun heq => h (List.mem_cons.2 (.inl ?_))
    rw [howner, heq]

/-- **The ledger shows these arrays of a matrix**, under three numbers from this one on. -/
structure Shows (l : Ledger) (first : Nat) (pointers inner : Array Int32) (d : DataType) (values : Array d.Scalar) :
    Prop where
  pointers : l.arrays[first]? = some (.entries pointers)
  inner : l.arrays[first + 1]? = some (.entries inner)
  values : l.arrays[first + 2]? = some (.components d values)

variable {first : Nat} {pointers inner : Array Int32} {d : DataType} {values values' : Array d.Scalar}

theorem shows_push (l : Ledger) (pointers inner : Array Int32) (d : DataType) (values : Array d.Scalar) :
    (Ledger.mk (((l.arrays.push (.entries pointers)).push (.entries inner)).push (.components d values))).Shows
      l.arrays.size pointers inner d values := by
  refine ⟨?_, ?_, ?_⟩
  all_goals grind

/-- A storage with older loans changes nothing of what is shown. -/
theorem Shows.settle (h : l.Shows first pointers inner d values) (hs : s.LoansBelow first) :
    (l.settle s).Shows first pointers inner d values := by
  have hkept : ∀ i, first ≤ i → (l.settle s).arrays[i]? = l.arrays[i]? := fun i hi =>
    getElem?_settle l fun hmem => absurd (hs i hmem) (Nat.not_lt.2 hi)
  exact ⟨(hkept _ (Nat.le_refl _)).trans h.pointers, (hkept _ (Nat.le_add_right _ 1)).trans h.inner,
    (hkept _ (Nat.le_add_right _ 2)).trans h.values⟩

end Ledger

/-- The storage over the arrays of a matrix, lent under three numbers from this one on. -/
def MatrixKind.storageLent (first : Nat) (pointers inner : Array Int32) (d : DataType) (values : Array d.Scalar) :
    Storage :=
  storageOver ⟨pointers, .caller first⟩ ⟨inner, .caller (first + 1)⟩ ⟨d, values, .caller (first + 2)⟩

theorem MatrixKind.loansBelow_storageLent (first : Nat) (pointers inner : Array Int32) (d : DataType)
    (values : Array d.Scalar) : (storageLent first pointers inner d values).LoansBelow (first + 3) := by
  intro loan hloan
  have hcases : loan = first + 2 ∨ loan = first ∨ loan = first + 1 := by
    simpa [storageLent, storageOver, Storage.owners, TensorIndex.arrays, ModeIndex.dense, ModeIndex.compressed,
      ValueArray.owner] using hloan
  omega

/-- **What a storage over lent arrays holds is shown**: the values in place of those before. -/
theorem Ledger.Shows.settle_storageLent {l : Ledger} {first : Nat} {pointers inner : Array Int32} {d : DataType}
    {values : Array d.Scalar} (h : l.Shows first pointers inner d values) (values' : Array d.Scalar) :
    (l.settle (MatrixKind.storageLent first pointers inner d values')).Shows first pointers inner d values' := by
  have hsettle : l.settle (MatrixKind.storageLent first pointers inner d values') =
      ⟨l.arrays.setIfInBounds (first + 2) (.components d values')⟩ := by
    show Ledger.mk (((l.arrays.setIfInBounds first (.entries pointers)).setIfInBounds (first + 1)
      (.entries inner)).setIfInBounds (first + 2) (.components d values')) = _
    rw [setIfInBounds_of_getElem? h.pointers, setIfInBounds_of_getElem? h.inner]
  obtain ⟨hlt, -⟩ := Array.getElem?_eq_some_iff.1 h.values
  rw [hsettle]
  exact ⟨(Array.getElem?_setIfInBounds_ne (by omega)).trans h.pointers,
    (Array.getElem?_setIfInBounds_ne (by omega)).trans h.inner, Array.getElem?_setIfInBounds_self_of_lt hlt⟩

/-! ## Loans of a tensor -/

namespace Tensor

variable {t u : Tensor}

/-- **What a granted request does to the storage**: waiting records are packed into arrays of the engine's own, or the
values are others at most. -/
theorem storage?_of_perform {r : Request} {s' : Storage} (h : t.perform r = .ok u) (hs' : u.storage? = some s') :
    (r = .pack ∧ t.isSettled = false) ∧ s'.isOwned = true ∨
      ¬ (r = .pack ∧ t.isSettled = false) ∧ ∃ s cells, t.storage? = some s ∧ s' = s.withCells cells := by
  rcases perform_eq_ok h with ⟨hkept, -, -, hstorage⟩ | ⟨rfl, rfl⟩ | ⟨hpacks, stored, s, -, hs, rfl⟩
  · exact .inr ⟨hkept, s', s'.values.cells.data, hstorage.symm.trans hs', rfl⟩
  · obtain ⟨s, hs, rfl⟩ := Option.map_eq_some_iff.1 hs'
    exact .inr ⟨fun h => (nomatch h.1), s, _, hs, rfl⟩
  · cases hs'
    exact .inl ⟨hpacks, Packer.isOwned_of_merge hs⟩

end Tensor

end TensorStorage
