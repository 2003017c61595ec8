import TensorStorage.Proofs.Outcome
import TensorStorage.Walk.Nested
import TensorStorage.Walk.Traversal
/-!
# Nesting — what the checks of a storage establish

A level that passes its check gives every position above it a segment of positions below it; the segments follow each
other without a gap and cover all positions below (`Level.Nested`).  Levels that pass all checks nest (`LevelsNested`),
and then the leaves below the positions above come out as 0, 1, 2, … (`positions_leavesBelow`).
-/
namespace TensorStorage

namespace Level

def firstChild (level : Level) (parent : Nat) : Nat :=
  match level with
  | .dense extent => parent * extent
  | .compressed positions _ => entryAt positions parent

/-- The coordinate of a position whose siblings begin at `first`. -/
def coordinateFrom (level : Level) (first position : Nat) : Nat :=
  match level with
  | .dense _ => position - first
  | .compressed _ coordinates => entryAt coordinates position

/-- **A level that nests between `above` positions and `below` positions**: it gives each position above a segment
that can be read, with the coordinates in it, and the segments are laid end to end. -/
structure Nested (level : Level) (above below : Nat) : Prop where
  below_lt : below < wordLimit
  first_zero : level.firstChild 0 = 0
  first_last : level.firstChild above = below
  first_le : ∀ p < above, level.firstChild p ≤ level.firstChild (p + 1)
  segment : ∀ p < above, level.segment? p = some (level.firstChild p, level.firstChild (p + 1))
  coordinate : ∀ p < above, ∀ q, level.firstChild p ≤ q → q < level.firstChild (p + 1) →
    level.coordinate? (level.firstChild p) q = some (level.coordinateFrom (level.firstChild p) q)

theorem children_eq (level : Level) (p : Nat) :
    level.children p = (List.range' (level.firstChild p) (level.firstChild (p + 1) - level.firstChild p)).map
      fun q => (q, level.coordinateFrom (level.firstChild p) q) := by
  cases level with
  | dense extent =>
    have he : (p + 1) * extent - p * extent = extent := by rw [Nat.succ_mul]; omega
    simp only [children, firstChild, coordinateFrom, he, List.range'_eq_map_range, List.map_map]
    apply List.map_congr_left
    intro i _
    simp
  | compressed positions coordinates => rfl

namespace Nested

variable {level : Level} {above below : Nat}

theorem firstChild_mono (h : level.Nested above below) {p : Nat} : ∀ {q : Nat}, p ≤ q → q ≤ above →
    level.firstChild p ≤ level.firstChild q
  | 0, hp, _ => Nat.le_of_eq (by rw [Nat.le_zero.1 hp])
  | q + 1, hp, hq => by
    rcases Nat.lt_or_ge q p with hlt | hle
    · exact Nat.le_of_eq (by rw [show p = q + 1 by omega])
    · exact Nat.le_trans (h.firstChild_mono hle (by omega)) (h.first_le q (by omega))

theorem firstChild_le (h : level.Nested above below) {p : Nat} (hp : p ≤ above) : level.firstChild p ≤ below :=
  h.first_last ▸ h.firstChild_mono hp (Nat.le_refl _)

/-- **The segments of the first `n` positions, laid end to end, are all positions below the next one's first child.** -/
theorem flatMap_segments (h : level.Nested above below) : ∀ {n : Nat}, n ≤ above →
    (List.range n).flatMap (fun p => List.range' (level.firstChild p) (level.firstChild (p + 1) - level.firstChild p)) =
      List.range (level.firstChild n)
  | 0, _ => by simp [h.first_zero]
  | n + 1, hn => by
    have hle := h.first_le n hn
    have hsum : level.firstChild (n + 1) = level.firstChild n + (level.firstChild (n + 1) - level.firstChild n) := by
      omega
    rw [List.range_succ, List.flatMap_append, h.flatMap_segments (by omega : n ≤ above), List.flatMap_singleton,
      List.range_eq_range', List.range_eq_range']
    conv => rhs; rw [hsum]
    rw [← List.range'_append_1, Nat.zero_add]

/-- **The children of all positions above, in their order, are all positions below.** -/
theorem flatMap_children (h : level.Nested above below) :
    ((List.range above).flatMap level.children).map Prod.fst = List.range below := by
  rw [← h.first_last, ← h.flatMap_segments (Nat.le_refl above), List.map_flatMap]
  congr 1
  funext p
  rw [children_eq, List.map_map]
  exact List.map_id' _

end Nested

/-! ## Dense levels -/

theorem nested_dense {extent above : Nat} (h : above * extent < wordLimit) :
    (dense extent).Nested above (above * extent) where
  below_lt := h
  first_zero := Nat.zero_mul _
  first_last := rfl
  first_le p _ := Nat.mul_le_mul_right _ (Nat.le_succ p)
  segment p hp := by
    have hle : (p + 1) * extent ≤ above * extent := Nat.mul_le_mul_right _ hp
    rw [Nat.succ_mul] at hle
    simp only [segment?, firstChild, Nat.succ_mul]
    rw [if_pos (Nat.lt_of_le_of_lt hle h)]
  coordinate p _ q _ _ := rfl

/-! ## Compressed levels -/

theorem pairwise_of_firstDecrease? : ∀ (place : Nat) (entries : List Int), firstDecrease? place entries = none →
    entries.Pairwise (· ≤ ·)
  | _, [], _ => List.Pairwise.nil
  | _, [x], _ => List.pairwise_singleton _ _
  | place, x :: y :: rest, h => by
    rw [firstDecrease?] at h
    split at h
    · cases h
    · rename_i hxy
      have hs := pairwise_of_firstDecrease? (place + 1) (y :: rest) h
      refine List.Pairwise.cons ?_ hs
      intro z hz
      rcases List.mem_cons.1 hz with rfl | hz
      · omega
      · have := List.rel_of_pairwise_cons hs hz; omega

theorem entryAt_eq {entries : Array Int32} {p : Nat} (h : p < entries.size) :
    entryAt entries p = entries[p].toInt.toNat := by
  simp [entryAt, h]

theorem entryPlace?_eq {entries : Array Int32} {p : Nat} (h : p < entries.size) (h0 : 0 ≤ entries[p].toInt) :
    (entries[p]?).bind entryPlace? = some (entryAt entries p) := by
  rw [entryAt_eq h]
  simp only [Array.getElem?_eq_getElem h, Option.bind_some, entryPlace?]
  rw [if_neg (by omega)]

/-- **What `checkSegments` establishes**: the entries start at 0, never decrease, and end at the number of
coordinates. -/
theorem checkSegments_eq_ok {positions : Array Int32} {n : Nat} (h : checkSegments positions n = .ok ()) :
    ∃ hpos : 0 < positions.size, positions[0].toInt = 0 ∧ positions[positions.size - 1].toInt = n ∧
      ∀ i j (_ : i ≤ j) (hj : j < positions.size), positions[i].toInt ≤ positions[j].toInt := by
  unfold checkSegments at h
  split at h
  · rename_i first last hfirst hlast
    obtain ⟨hpos, rfl⟩ := Array.getElem?_eq_some_iff.1 hfirst
    rw [Array.back?, Array.getElem?_eq_some_iff] at hlast
    obtain ⟨hl, rfl⟩ := hlast
    rw [guard_eq_ok] at h
    obtain ⟨h0, h⟩ := h
    split at h
    · cases h
    rename_i hdec
    rw [guard_eq_ok] at h
    refine ⟨hpos, by simpa using h0, by simpa using h.1, fun i j hij hj => ?_⟩
    have hs := pairwise_of_firstDecrease? 0 _ hdec
    rcases Nat.lt_or_eq_of_le hij with hlt | rfl
    · have := List.pairwise_iff_getElem.1 hs i j (by simpa using Nat.lt_trans hlt hj) (by simpa using hj) hlt
      simpa using this
    · exact Int.le_refl _
  · cases h

theorem nested_compressed {positions coordinates : Array Int32} {above : Nat} (hsize : positions.size = above + 1)
    (hseg : checkSegments positions coordinates.size = .ok ()) (hneg : firstNegative? coordinates = none) :
    (compressed positions coordinates).Nested above coordinates.size := by
  obtain ⟨hpos, hfirst, hlast, hmono⟩ := checkSegments_eq_ok hseg
  have hnonneg : ∀ p (hp : p < positions.size), 0 ≤ positions[p].toInt := fun p hp => by
    have := hmono 0 p (Nat.zero_le p) hp; omega
  have hend : entryAt positions above = coordinates.size := by
    rw [entryAt_eq (by omega)]
    have : positions[above].toInt = coordinates.size := by simpa [hsize] using hlast
    omega
  have hle : ∀ i j, i ≤ j → j ≤ above → entryAt positions i ≤ entryAt positions j := fun i j hij hj => by
    rw [entryAt_eq (by omega), entryAt_eq (by omega)]
    exact Int.toNat_le_toNat (hmono i j hij (by omega))
  have hsmall : (coordinates.size : Int) < 2 ^ 31 := by
    rw [← hlast]
    exact Int32.toInt_lt _
  refine ⟨?_, ?_, hend, fun p hp => hle p (p + 1) (Nat.le_succ p) hp, fun p hp => ?_, fun p hp q _ hq => ?_⟩
  · simp only [wordLimit]; omega
  · show entryAt positions 0 = 0
    rw [entryAt_eq hpos, hfirst]; rfl
  · have h1 : (positions[p]?).bind entryPlace? = some (entryAt positions p) :=
      entryPlace?_eq (by omega) (hnonneg p (by omega))
    have h2 : (positions[p + 1]?).bind entryPlace? = some (entryAt positions (p + 1)) :=
      entryPlace?_eq (by omega) (hnonneg (p + 1) (by omega))
    rw [Option.bind_eq_some_iff] at h1 h2
    obtain ⟨x, hx, hxp⟩ := h1
    obtain ⟨y, hy, hyp⟩ := h2
    simp only [segment?, firstChild, hx, hy, Option.bind_eq_bind, Option.bind_some, hxp, hyp]
    rfl
  · have hqs : q < coordinates.size := by
      have := hle (p + 1) above hp (Nat.le_refl _)
      have : q < entryAt positions (p + 1) := hq
      omega
    refine entryPlace?_eq hqs ?_
    have := Array.find?_eq_none.1 hneg coordinates[q] (Array.getElem_mem hqs)
    simpa using this

end Level

/-! ## All levels -/

/-- **Levels that nest** between `above` positions and `leaves` leaves. -/
def LevelsNested : List Level → Nat → Nat → Prop
  | [], above, leaves => above = leaves
  | level :: rest, above, leaves => ∃ below, level.Nested above below ∧ LevelsNested rest below leaves

theorem leaves_lt_of_levelsNested : ∀ {levels : List Level} {above leaves : Nat}, above < wordLimit →
    LevelsNested levels above leaves → leaves < wordLimit
  | [], _, _, ha, h => h ▸ ha
  | _ :: _, _, _, _, ⟨_, hn, hrest⟩ => leaves_lt_of_levelsNested hn.below_lt hrest

theorem Level.nested_of_countBelow {level : Level} {number above below : Nat} (ha : above < wordLimit)
    (h : level.countBelow number above = .ok below) : level.Nested above below := by
  cases level with
  | dense extent =>
    simp only [Level.countBelow] at h
    split at h
    · rename_i hlt
      cases h
      exact Level.nested_dense hlt
    · cases h
  | compressed positions coordinates =>
    simp only [Level.countBelow, bind, Except.bind] at h
    rw [guard_eq_ok] at h
    obtain ⟨hsize, h⟩ := h
    split at h
    · cases h
    rename_i hseg
    split at h
    · cases h
    rename_i hneg
    cases h
    obtain ⟨hpos, -⟩ := Level.checkSegments_eq_ok hseg
    -- the wanted length comes round to 0 only where the position array would have to be empty
    have hwanted : positions.size = above + 1 := by
      simp only [wordLimit] at ha hsize
      omega
    exact Level.nested_compressed hwanted hseg hneg

/-- **Levels that are counted nest.** -/
theorem levelsNested_of_countLeaves : ∀ (levels : List Level) (number above : Nat) {leaves : Nat}, above < wordLimit →
    countLeaves number above levels = .ok leaves → LevelsNested levels above leaves
  | [], _, _, _, _, h => by cases h; rfl
  | level :: rest, number, above, leaves, ha, h => by
    rw [countLeaves, bind_eq_ok] at h
    obtain ⟨below, hbelow, h⟩ := h
    have hn := Level.nested_of_countBelow ha hbelow
    exact ⟨below, hn, levelsNested_of_countLeaves rest (number + 1) below hn.below_lt h⟩

theorem Storage.checkedLevels_eq_ok {s : Storage} {f : Format} {levels : List Level}
    (h : s.checkedLevels f = .ok levels) : s.levels f = .ok levels ∧ countLeaves 0 1 levels = .ok s.index.size ∧
      s.values.size = s.index.size := by
  simp only [Storage.checkedLevels, bind_eq_ok] at h
  obtain ⟨levels', hl, ⟨⟩, hc, he⟩ := h
  cases he
  simp only [Storage.checkNested, bind_eq_ok, guard_eq_ok] at hc
  obtain ⟨leaves, hleaves, hsizes, -⟩ := hc
  have h1 : leaves = s.index.size := by omega
  have h2 : leaves = s.values.size := by omega
  exact ⟨hl, h1 ▸ hleaves, h2 ▸ h1⟩

/-- **The levels of a storage that passes the checks nest**, from one position at the root to the stored values. -/
theorem Storage.levelsNested_of_checkedLevels {s : Storage} {f : Format} {levels : List Level}
    (h : s.checkedLevels f = .ok levels) :
    s.levels f = .ok levels ∧ LevelsNested levels 1 s.index.size ∧ s.values.size = s.index.size := by
  obtain ⟨hl, hleaves, hv⟩ := Storage.checkedLevels_eq_ok h
  exact ⟨hl, levelsNested_of_countLeaves levels 0 1 (by decide) hleaves, hv⟩

/-- What is checked of a storage is its index, and how many values there are. -/
theorem Storage.checkedLevels_of_sameShape {s s' : Storage} (hindex : s'.index = s.index)
    (hsize : s'.values.size = s.values.size) (f : Format) : s'.checkedLevels f = s.checkedLevels f := by
  have hlevels : s'.levels f = s.levels f := by
    unfold levels
    rw [hindex]
  unfold checkedLevels checkNested
  rw [hlevels, hindex, hsize]

/-! ## Leaves -/

/-- **The leaves below all positions above are 0, 1, 2, … in their order.** -/
theorem positions_leavesBelow : ∀ (levels : List Level) (above leaves : Nat), LevelsNested levels above leaves →
    ((List.range above).flatMap (leavesBelow levels)).map Prod.snd = List.range leaves
  | [], above, leaves, h => by
    cases h
    simp [leavesBelow, List.map_flatMap]
  | level :: rest, above, leaves, ⟨below, hn, hrest⟩ => by
    rw [← positions_leavesBelow rest below leaves hrest, ← hn.flatMap_children]
    simp only [leavesBelow, List.map_flatMap, List.map_map, List.flatMap_map, List.flatMap_assoc]
    rfl

theorem map_snd_leavesBelow {levels : List Level} {leaves : Nat} (h : LevelsNested levels 1 leaves) :
    (leavesBelow levels 0).map Prod.snd = List.range leaves := by
  have := positions_leavesBelow levels 1 leaves h
  simpa using this

theorem length_leavesBelow {levels : List Level} {leaves : Nat} (h : LevelsNested levels 1 leaves) :
    (leavesBelow levels 0).length = leaves := by
  rw [← List.length_map (f := Prod.snd), map_snd_leavesBelow h, List.length_range]

theorem length_of_mem_leavesBelow : ∀ {levels : List Level} {parent : Nat} {leaf : Coordinate × Nat},
    leaf ∈ leavesBelow levels parent → leaf.1.length = levels.length
  | [], parent, leaf, h => by
    rw [List.mem_singleton.1 h]
    rfl
  | level :: rest, parent, leaf, h => by
    obtain ⟨child, -, h⟩ := List.mem_flatMap.1 h
    obtain ⟨tail, htail, rfl⟩ := List.mem_map.1 h
    exact congrArg Nat.succ (length_of_mem_leavesBelow htail)

end TensorStorage
