import TensorStorage.Format
import TensorStorage.Proofs.Lists
/-!
# Keys — coordinates in level order

A coordinate of the order of a format has a key, its numbers in level order (`Format.keyOf`); `fromLevels` takes it
back.  Bounds can be compared on either side.
-/
namespace TensorStorage

/-! ## Lists of replacements -/

theorem getElem?_foldl_set_of_not_mem : ∀ {pairs : List (Nat × Nat)} (out : List Nat) {d : Nat},
    d ∉ pairs.map Prod.fst → (pairs.foldl (fun out p => out.set p.1 p.2) out)[d]? = out[d]?
  | [], _, _, _ => rfl
  | (i, x) :: pairs, out, d, h => by
    rw [List.map_cons, List.mem_cons, not_or] at h
    rw [List.foldl_cons, getElem?_foldl_set_of_not_mem _ h.2, List.getElem?_set_ne (Ne.symm h.1)]

theorem getElem?_foldl_set_of_mem : ∀ {pairs : List (Nat × Nat)} (out : List Nat) {d x : Nat},
    (pairs.map Prod.fst).Nodup → (d, x) ∈ pairs → d < out.length →
    (pairs.foldl (fun out p => out.set p.1 p.2) out)[d]? = some x
  | [], _, _, _, _, h, _ => by cases h
  | (i, y) :: pairs, out, d, x, hnodup, h, hd => by
    rw [List.map_cons, List.nodup_cons] at hnodup
    rw [List.foldl_cons]
    rcases List.mem_cons.1 h with he | h
    · cases he
      rw [getElem?_foldl_set_of_not_mem _ hnodup.1, List.getElem?_set_self hd]
    · exact getElem?_foldl_set_of_mem _ hnodup.2 h (by rwa [List.length_set])

namespace Format

variable {f : Format} {c k : Coordinate}

def keyOf (f : Format) (c : Coordinate) : Coordinate := f.ordering.map fun d => c.getD d 0

@[simp] theorem length_keyOf (f : Format) (c : Coordinate) : (f.keyOf c).length = f.order := by
  rw [keyOf, List.length_map, ordering_length]

theorem toLevels?_eq (h : f.order ≤ c.length) : f.toLevels? c = some (f.keyOf c) := by
  have hmem : ∀ d ∈ f.ordering, d < c.length := fun d hd => Nat.lt_of_lt_of_le ((f.mem_ordering_iff d).1 hd) h
  exact mapM_eq_pure fun d hd => by simp [List.getD, hmem d hd]

theorem length_fromLevels (f : Format) (k : Coordinate) : (f.fromLevels k).length = f.order := by
  rw [fromLevels, ← f.ordering_length]
  generalize f.ordering.zip k = pairs
  generalize hout : List.replicate f.ordering.length 0 = out
  have hlen : out.length = f.ordering.length := by rw [← hout, List.length_replicate]
  clear hout
  induction pairs generalizing out with
  | nil => exact hlen
  | cons p pairs ih => exact ih _ (by rw [List.length_set, hlen])

/-- The number of a level's dimension is the level's number. -/
theorem getElem?_fromLevels (hk : k.length = f.order) {l : Nat} (hl : l < f.ordering.length) (hl' : l < k.length) :
    (f.fromLevels k)[f.ordering[l]]? = some k[l] := by
  have hlen : f.ordering.length ≤ k.length := Nat.le_of_eq (f.ordering_length.trans hk.symm)
  have hd : f.ordering[l] < f.order := (f.mem_ordering_iff _).1 (List.getElem_mem hl)
  refine getElem?_foldl_set_of_mem _ ?_ ?_ ?_
  · rw [List.map_fst_zip hlen]
    exact f.nodup_ordering
  · rw [List.mem_iff_getElem]
    exact ⟨l, by rw [List.length_zip]; omega, List.getElem_zip ..⟩
  · rw [List.length_replicate, f.ordering_length]
    exact hd

theorem keyOf_fromLevels (hk : k.length = f.order) : f.keyOf (f.fromLevels k) = k := by
  apply List.ext_getElem
  · rw [length_keyOf, hk]
  · intro l h1 h2
    have hl : l < f.ordering.length := by rw [f.ordering_length]; omega
    simp only [keyOf, List.getElem_map, List.getD_eq_getElem?_getD, getElem?_fromLevels hk hl h2, Option.getD_some]

theorem exists_level_of_dimension {d : Nat} (hd : d < f.order) : ∃ l, ∃ hl : l < f.ordering.length, f.ordering[l] = d :=
  List.mem_iff_getElem.1 ((f.mem_ordering_iff d).2 hd)

theorem fromLevels_keyOf (hc : c.length = f.order) : f.fromLevels (f.keyOf c) = c := by
  apply List.ext_getElem?
  intro d
  by_cases hd : d < f.order
  · obtain ⟨l, hl, rfl⟩ := exists_level_of_dimension hd
    have hl' : l < (f.keyOf c).length := by rw [length_keyOf, ← f.ordering_length]; exact hl
    rw [getElem?_fromLevels (f.length_keyOf c) hl hl']
    simp [keyOf, hc, hd]
  · rw [List.getElem?_eq_none (by rw [length_fromLevels]; omega), List.getElem?_eq_none (by omega)]

end Format

/-! ## Bounds -/

namespace Coordinate

theorem inBounds_cons {x d : Nat} {c dimensions : Coordinate} :
    inBounds (x :: c) (d :: dimensions) = true ↔ x < d ∧ inBounds c dimensions = true := by
  simp [inBounds]

theorem inBounds_iff_getElem {x dimensions : Coordinate} (h : x.length = dimensions.length) :
    x.inBounds dimensions = true ↔ ∀ i (hi : i < x.length) (hi' : i < dimensions.length), x[i] < dimensions[i] := by
  simp only [inBounds, List.all_eq_true, decide_eq_true_eq]
  constructor
  · intro hall i hi hi'
    exact hall (x[i], dimensions[i]) (List.mem_iff_getElem.2
      ⟨i, by rw [List.length_zip]; omega, List.getElem_zip ..⟩)
  · intro hall p hp
    obtain ⟨i, hi, rfl⟩ := List.mem_iff_getElem.1 hp
    rw [List.length_zip] at hi
    simpa using hall i (by omega) (by omega)

end Coordinate

namespace Format

variable {f : Format} {c dimensions : Coordinate}

/-- **Bounds can be compared in level order.** -/
theorem inBounds_keyOf (hc : c.length = f.order) (hd : dimensions.length = f.order) :
    (f.keyOf c).inBounds (f.keyOf dimensions) = true ↔ c.inBounds dimensions = true := by
  rw [Coordinate.inBounds_iff_getElem (by simp), Coordinate.inBounds_iff_getElem (by rw [hc, hd])]
  constructor
  · intro h d hlt _
    obtain ⟨l, hl, rfl⟩ := exists_level_of_dimension (hc ▸ hlt : d < f.order)
    have hm : f.ordering[l] < f.order := (f.mem_ordering_iff _).1 (List.getElem_mem hl)
    have hlk : l < f.order := f.ordering_length ▸ hl
    have := h l (by rwa [length_keyOf]) (by rwa [length_keyOf])
    simpa [keyOf, hc, hd, hm] using this
  · intro h l hl _
    rw [length_keyOf] at hl
    have hol : l < f.ordering.length := f.ordering_length ▸ hl
    have hm : f.ordering[l] < f.order := (f.mem_ordering_iff _).1 (List.getElem_mem hol)
    have := h f.ordering[l] (hc ▸ hm) (hd ▸ hm)
    simpa [keyOf, hc, hd, hm] using this

end Format

end TensorStorage
