import Mathlib.Data.List.Sort
import TensorStorage.Walk.Cursor
import TensorStorage.Proofs.Pack.Keys
/-!
# Formats — level order and dimension order are inverse views

`Format.of` sorts the ordering and compares each number with its place.  The comparison succeeds for permutations and
for nothing else: a list of `n` numbers in which every number below `n` stands once (`perm_range_iff`) sorts to the
numbers below `n` (`sortsInPlace_iff`).

That makes the two changes of view inverse.  `toLevels?` finds every dimension it asks for, and the cursor, which
writes its level coordinates to the dimensions of their levels, writes every dimension once.
-/
namespace TensorStorage

/-- **A list of as many numbers as it has places is a permutation of the places exactly when each stands in it once.** -/
theorem perm_range_iff {ordering : List Nat} :
    ordering.Perm (List.range ordering.length) ↔ ∀ d < ordering.length, ordering.count d = 1 := by
  constructor
  · intro hperm d hd
    rw [hperm.count_eq]
    exact List.count_eq_one_of_mem List.nodup_range (List.mem_range.2 hd)
  · intro hcount
    have hsubset : List.range ordering.length ⊆ ordering := fun d hd =>
      List.count_pos_iff.1 (by rw [hcount d (List.mem_range.1 hd)]; exact Nat.one_pos)
    have hsubperm : (List.range ordering.length).Subperm ordering := List.subperm_of_subset List.nodup_range hsubset
    exact (hsubperm.perm_of_length_le (Nat.le_of_eq List.length_range.symm)).symm

namespace Format

variable {types : List ModeType} {ordering : List Nat} {f : Format}

/-- **Sorting and comparing with places decides whether the ordering is a permutation.** -/
theorem sortsInPlace_iff : sortsInPlace ordering = true ↔ ordering.Perm (List.range ordering.length) := by
  refine ⟨perm_of_sortsInPlace, fun hperm => ?_⟩
  have hsorted : (ordering.mergeSort fun a b => a ≤ b) = List.range ordering.length :=
    ((List.mergeSort_perm ordering _).trans hperm).eq_of_pairwise' (List.pairwise_mergeSort' (· ≤ ·) ordering)
      List.pairwise_le_range
  rw [sortsInPlace, hsorted, List.all_eq_true]
  rintro ⟨d, place⟩ hp
  obtain ⟨hplace, hd⟩ := List.getElem?_eq_some_iff.1 (List.mk_mem_zipIdx_iff_getElem?.1 hp)
  rw [List.getElem_range] at hd
  exact beq_iff_eq.2 hd

example : sortsInPlace [2, 0, 1] = true ∧ sortsInPlace [0, 1, 3] = false ∧ sortsInPlace [1, 1, 0] = false := by cbv

theorem of_eq_ok_iff :
    Format.of types ordering = .ok f ↔
      f.types = types ∧ f.ordering = ordering ∧ types.length = ordering.length ∧ sortsInPlace ordering = true := by
  rw [Format.of]
  split
  · next hl =>
    split
    · next hp =>
      constructor
      · rintro ⟨⟩
        exact ⟨rfl, rfl, hl, hp⟩
      · rintro ⟨rfl, rfl, -, -⟩
        rfl
    · next hp => exact ⟨nofun, fun h => absurd h.2.2.2 hp⟩
  · next hl => exact ⟨nofun, fun h => absurd h.2.2.1 hl⟩

/-- **A format is made of its parts exactly when there is one mode type for each number of the ordering, and every number
below their count stands in the ordering once.** -/
theorem exists_of_eq_ok_iff :
    (∃ f, Format.of types ordering = .ok f) ↔
      types.length = ordering.length ∧ ∀ d < ordering.length, ordering.count d = 1 := by
  rw [← perm_range_iff]
  constructor
  · rintro ⟨f, h⟩
    obtain ⟨-, -, hl, hp⟩ := of_eq_ok_iff.1 h
    exact ⟨hl, sortsInPlace_iff.1 hp⟩
  · rintro ⟨hl, hperm⟩
    exact ⟨⟨types, ordering, hl, hperm⟩, of_eq_ok_iff.2 ⟨rfl, rfl, hl, sortsInPlace_iff.2 hperm⟩⟩

end Format

/-! ## The two views -/

namespace Cursor

variable {f : Format} {cursor : Cursor}

theorem length_levelCoordinate (cursor : Cursor) : cursor.levelCoordinate.length = cursor.frames.length :=
  List.length_map _

/-- A cursor that stands at the level coordinates of a coordinate gives the coordinate. -/
theorem coordinate_of_toLevels? {c k : Coordinate} (hc : c.length = f.order) (hk : f.toLevels? c = some k)
    (hcursor : cursor.levelCoordinate = k) : cursor.coordinate f = c := by
  rw [Format.toLevels?_eq (Nat.le_of_eq hc.symm)] at hk
  cases hk
  rw [coordinate, hcursor, Format.fromLevels_keyOf hc]

/-- The coordinate that a cursor gives has the cursor's level coordinates. -/
theorem toLevels?_coordinate (h : cursor.frames.length = f.order) :
    f.toLevels? (cursor.coordinate f) = some cursor.levelCoordinate := by
  rw [coordinate, Format.toLevels?_eq (Nat.le_of_eq (f.length_fromLevels _).symm),
    Format.keyOf_fromLevels (cursor.length_levelCoordinate.trans h)]

end Cursor

/-- **Level order and dimension order are inverse views.**  `Format.of` accepts a list of mode types and an ordering
exactly when they are of one length and every number below it stands in the ordering once, and the format that it makes
has these parts.

In every format, however it was made, a coordinate of its order has level coordinates, one for each level, and a cursor
with these coordinates at its levels gives the coordinate back.  And for every cursor over the levels of a format, each
level's dimension is one of the coordinate that the cursor fills, whose level coordinates are those of the cursor. -/
theorem Format.views_inverse :
    (∀ types ordering,
      ((∃ f, Format.of types ordering = .ok f) ↔
        types.length = ordering.length ∧ ordering.Perm (List.range ordering.length)) ∧
      (ordering.Perm (List.range ordering.length) ↔ ∀ d < ordering.length, ordering.count d = 1) ∧
      ∀ f, Format.of types ordering = .ok f → f.types = types ∧ f.ordering = ordering) ∧
    (∀ (f : Format) (c : Coordinate), c.length = f.order →
      ∃ k, f.toLevels? c = some k ∧ k.length = f.order ∧
        ∀ cursor : Cursor, cursor.levelCoordinate = k → cursor.coordinate f = c) ∧
    ∀ (f : Format) (cursor : Cursor), cursor.frames.length = f.order →
      (∀ d ∈ f.ordering, d < cursor.frames.length) ∧ (cursor.coordinate f).length = f.order ∧
        f.toLevels? (cursor.coordinate f) = some cursor.levelCoordinate := by
  refine ⟨fun types ordering => ⟨?_, perm_range_iff, ?_⟩, ?_, ?_⟩
  · rw [perm_range_iff]
    exact Format.exists_of_eq_ok_iff
  · intro f h
    obtain ⟨htypes, hordering, -, -⟩ := Format.of_eq_ok_iff.1 h
    exact ⟨htypes, hordering⟩
  · intro f c hc
    have hk := Format.toLevels?_eq (Nat.le_of_eq hc.symm)
    exact ⟨f.keyOf c, hk, f.length_keyOf c, fun cursor => Cursor.coordinate_of_toLevels? hc hk⟩
  · intro f cursor h
    exact ⟨fun d hd => h ▸ (f.mem_ordering_iff d).1 hd, f.length_fromLevels _, Cursor.toLevels?_coordinate h⟩

end TensorStorage
