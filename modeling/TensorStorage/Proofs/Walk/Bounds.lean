import TensorStorage.Proofs.Pack.Keys
import TensorStorage.Proofs.Walk.Iteration
/-!
# Bounds — a storage that fits lists entries within the dimensions

A level that nests and passes the check of its extent gives every child a coordinate below the extent
(`Level.coordinate_lt`).  So the leaves are within the extents of the levels, and the entries of a storage that fits
within the dimensions (`Storage.entries_of_checkFits`).
-/
namespace TensorStorage

/-! ## Levels -/

namespace Level

variable {level : Level} {number extent above below p : Nat} {child : Nat × Nat}

theorem Nested.child_lt (h : level.Nested above below) (hp : p < above) (hc : child ∈ level.children p) :
    child.1 < below := by
  have hmem : child.1 ∈ ((List.range above).flatMap level.children).map Prod.fst :=
    List.mem_map_of_mem (List.mem_flatMap.2 ⟨p, List.mem_range.2 hp, hc⟩)
  rwa [h.flatMap_children, List.mem_range] at hmem

/-- **A child's coordinate is below the extent** that its level was checked against. -/
theorem coordinate_lt (h : level.Nested above below) (hextent : level.checkExtent number extent = .ok ())
    (hp : p < above) (hc : child ∈ level.children p) : child.2 < extent := by
  cases level with
  | dense found =>
    obtain ⟨i, hi, rfl⟩ := List.mem_map.1 hc
    unfold checkExtent at hextent
    rw [guard_eq_ok] at hextent
    exact Decidable.not_not.1 hextent.1 ▸ List.mem_range.1 hi
  | compressed positions coordinates =>
    rw [children_eq] at hc
    obtain ⟨q, hq, rfl⟩ := List.mem_map.1 hc
    obtain ⟨hfirst, hstop⟩ := List.mem_range'_1.1 hq
    -- the coordinate was read, so it is there and not negative
    have hread := h.coordinate p hp q hfirst (by omega)
    simp only [coordinate?, Option.bind_eq_bind, Option.bind_eq_some_iff] at hread
    obtain ⟨c, hc, hplace⟩ := hread
    unfold entryPlace? at hplace
    split at hplace
    · cases hplace
    · rename_i hnonneg
      rw [← Option.some.inj hplace]
      have hmem := Array.mem_of_getElem? hc
      simp only [checkExtent] at hextent
      split at hextent
      · cases hextent
      · rename_i hnone
        have hlt := Array.find?_eq_none.1 hnone c hmem
        rw [decide_eq_true_iff] at hlt
        omega

end Level

/-- **Leaves are within the extents** that their levels were checked against. -/
theorem inBounds_of_mem_leavesBelow : ∀ {levels : List Level} {extents : List Nat} {number above leaves p : Nat},
    LevelsNested levels above leaves → levels.length = extents.length →
      checkExtents number (levels.zip extents) = .ok () → p < above → ∀ leaf ∈ leavesBelow levels p,
        leaf.1.length = levels.length ∧ leaf.1.inBounds extents = true
  | [], [], _, _, _, _, _, _, _, _, leaf, hleaf => by
    rw [List.mem_singleton.1 hleaf]
    exact ⟨rfl, rfl⟩
  | level :: rest, extent :: extents, number, above, leaves, p, ⟨below, hn, hrest⟩, hlen, hextents, hp, leaf, hleaf => by
    rw [List.zip_cons_cons, checkExtents, bind_eq_ok] at hextents
    obtain ⟨⟨⟩, hextent, hextents⟩ := hextents
    obtain ⟨child, hchild, hleaf⟩ := List.mem_flatMap.1 hleaf
    obtain ⟨tail, htail, rfl⟩ := List.mem_map.1 hleaf
    obtain ⟨hlength, hin⟩ := inBounds_of_mem_leavesBelow hrest (Nat.succ.inj hlen) hextents (hn.child_lt hp hchild) tail
      htail
    exact ⟨congrArg Nat.succ hlength, Coordinate.inBounds_cons.2 ⟨Level.coordinate_lt hn hextent hp hchild, hin⟩⟩

/-! ## Storages -/

namespace Storage

variable {s : Storage} {f : Format} {dimensions : List Nat} {levels : List Level}

theorem length_levelsFrom : ∀ {number : Nat} {modes : List (ModeIndex × ModeType)} {levels : List Level},
    levelsFrom number modes = .ok levels → levels.length = modes.length
  | _, [], _, h => by
    cases h
    rfl
  | number, (m, type) :: rest, levels, h => by
    simp only [levelsFrom, bind_eq_ok] at h
    obtain ⟨level, -, levels', hlevels, h⟩ := h
    cases h
    exact congrArg Nat.succ (length_levelsFrom hlevels)

theorem length_levels (h : s.levels f = .ok levels) : levels.length = f.order := by
  simp only [Storage.levels, bind_eq_ok, error_bind, guard_eq_ok] at h
  obtain ⟨⟨⟩, -, horder, h⟩ := h
  have hmodes : s.index.modes.length = f.types.length := Decidable.not_not.1 horder
  rw [length_levelsFrom h, List.length_zip, hmodes, Nat.min_self]
  rfl

theorem checkFits_eq_ok (horder : f.order = dimensions.length) : s.checkFits f dimensions = .ok () ↔
    ∃ levels, s.checkedLevels f = .ok levels ∧ checkExtents 0 (levels.zip (f.keyOf dimensions)) = .ok () := by
  unfold checkFits Format.extents?
  simp only [Format.toLevels?_eq (Nat.le_of_eq horder), bind_eq_ok, Outcome.liftM_checked, Outcome.liftM_option,
    Outcome.ofChecked_eq_ok, Outcome.ofOption_some, ok_bind]

/-- **The entries of a storage that fits** are within the dimensions, and of the storage's kind. -/
theorem entries_of_checkFits (horder : f.order = dimensions.length) (h : s.checkFits f dimensions = .ok ()) :
    ∃ levels, s.checkedLevels f = .ok levels ∧ s.entries f = .ok (s.nestedEntries f levels) ∧
      ∀ e ∈ s.nestedEntries f levels, e.coordinate.length = dimensions.length ∧
        e.coordinate.inBounds dimensions = true ∧ e.value.dtype = s.dtype := by
  obtain ⟨levels, hlevels, hextents⟩ := (checkFits_eq_ok horder).1 h
  obtain ⟨hl, hn, -⟩ := levelsNested_of_checkedLevels hlevels
  have hlength := length_levels hl
  refine ⟨levels, hlevels, entries_of_checkedLevels hlevels, fun e he => ?_⟩
  obtain ⟨leaf, hleaf, hat⟩ := List.mem_filterMap.1 he
  obtain ⟨v, hv, rfl⟩ := Option.map_eq_some_iff.1 hat
  obtain ⟨cell, -, rfl⟩ := Option.map_eq_some_iff.1 hv
  obtain ⟨hlen, hin⟩ := inBounds_of_mem_leavesBelow hn (hlength.trans (Format.length_keyOf f dimensions).symm) hextents
    Nat.one_pos leaf hleaf
  refine ⟨(Format.length_fromLevels f leaf.1).trans horder, ?_, rfl⟩
  rw [← Format.inBounds_keyOf (Format.length_fromLevels f leaf.1) horder.symm,
    Format.keyOf_fromLevels (hlen.trans hlength)]
  exact hin

end Storage

end TensorStorage
