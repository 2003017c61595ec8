import TensorStorage.Proofs.Pack.Segments
import TensorStorage.Proofs.Walk.Iteration
/-!
# ReadBack — walking what packing laid out

The levels that packing lays out pass the checks of a walk exactly when their counts fit the entries
(`checkedLevels_of_lay`, `fits_of_checkedLevels`), and the leaves below the root are then the nodes of the innermost
level, in their order (`leavesBelow_nodes`).
-/
namespace TensorStorage

/-! ## The levels -/

/-- The level between nodes and the nodes below, as a walk reads its arrays. -/
def levelBetween (depth : Nat) (nodes below : List Coordinate) (shape : ModeType × Nat) : Level :=
  if shape.1 = .compressed then
    .compressed (Layout.positionArray ((familiesOf nodes depth below).map List.length).toArray)
      (below.map fun x => Int32.ofNat (x.getD depth 0)).toArray
  else .dense shape.2

def levelsBetween (keys : List Coordinate) (depth : Nat) : List (ModeType × Nat) → List Coordinate → List Level
  | [], _ => []
  | shape :: rest, nodes =>
    levelBetween depth nodes (nodesBelow keys depth shape nodes) shape ::
      levelsBetween keys (depth + 1) rest (nodesBelow keys depth shape nodes)

/-- **Counts that fit the entries**: at every level there are no more nodes than the largest index. -/
def Fits (keys : List Coordinate) (depth : Nat) : List (ModeType × Nat) → List Coordinate → Prop
  | [], nodes => nodes.length ≤ maxIndex
  | shape :: rest, nodes => nodes.length ≤ maxIndex ∧ Fits keys (depth + 1) rest (nodesBelow keys depth shape nodes)

section Levels

variable {keys nodes : List Coordinate} {depth : Nat} {shape : ModeType × Nat} {rest : List (ModeType × Nat)}

theorem Fits.head : ∀ {shapes : List (ModeType × Nat)}, Fits keys depth shapes nodes → nodes.length ≤ maxIndex
  | [], h => h
  | _ :: _, h => h.1

theorem level_modeBetween {below : List Coordinate} {mode : ModeIndex} (hextent : shape.2 ≤ maxIndex)
    (h : modeBetween depth nodes below shape = .ok mode) :
    mode.level shape.1 depth = .ok (levelBetween depth nodes below shape) := by
  obtain ⟨type, extent⟩ := shape
  cases type with
  | dense =>
    rw [modeBetween, guard_eq_ok] at h
    obtain ⟨-, h⟩ := h
    cases h
    have he : (Int32.ofNat extent).toInt = extent := toInt_ofNat hextent
    simp [ModeIndex.level, ModeIndex.array, ModeIndex.dense, levelBetween, he]
  | compressed =>
    cases h
    rfl
  | singleton => cases h

theorem levelsFrom_modesFrom : ∀ {shapes : List (ModeType × Nat)} {depth : Nat} {nodes : List Coordinate}
    {modes : List ModeIndex}, (∀ shape ∈ shapes, shape.2 ≤ maxIndex) → modesFrom keys depth shapes nodes = .ok modes →
      levelsFrom depth (modes.zip (shapes.map Prod.fst)) = .ok (levelsBetween keys depth shapes nodes) ∧
        modes.length = shapes.length
  | [], _, _, _, _, h => by
    cases h
    exact ⟨rfl, rfl⟩
  | shape :: rest, depth, nodes, modes, hextent, h => by
    simp only [modesFrom, bind_eq_ok] at h
    obtain ⟨mode, hmode, modes', hmodes, h⟩ := h
    cases h
    obtain ⟨ih, hlen⟩ := levelsFrom_modesFrom (fun s hs => hextent s (List.mem_cons_of_mem _ hs)) hmodes
    refine ⟨?_, by rw [List.length_cons, List.length_cons, hlen]⟩
    rw [List.map_cons, List.zip_cons_cons, levelsFrom, level_modeBetween (hextent shape List.mem_cons_self) hmode, ih]
    rfl

/-! ## Counting -/

/-- The families of the nodes, laid end to end, are the nodes below. -/
theorem flatten_familiesOf {below : List Coordinate} (hin : nodes.Pairwise Coordinate.Before)
    (hlen : ∀ x ∈ nodes, x.length = depth) (hin' : below.Pairwise Coordinate.Before)
    (hparent : ∀ x ∈ below, x.take depth ∈ nodes) : (familiesOf nodes depth below).flatten = below := by
  refine Coordinate.eq_of_mem_iff ?_ hin' fun x => ?_
  · rw [familiesOf, List.pairwise_flatten]
    refine ⟨fun family hf => ?_, ?_⟩
    · obtain ⟨node, -, rfl⟩ := List.mem_map.1 hf
      exact hin'.filter _
    · rw [List.pairwise_map]
      refine List.pairwise_iff_forall_sublist.2 fun {a b} hab => ?_
      have ha : a ∈ nodes := hab.subset List.mem_cons_self
      have hb : b ∈ nodes := hab.subset (by simp)
      have hbefore : Coordinate.Before a b := List.pairwise_iff_forall_sublist.1 hin hab
      intro x hx y hy
      obtain ⟨-, hx⟩ := List.mem_filter.1 hx
      obtain ⟨-, hy⟩ := List.mem_filter.1 hy
      rw [decide_eq_true_iff] at hx hy
      rw [← List.take_append_drop depth x, ← List.take_append_drop depth y, hx, hy]
      exact Coordinate.Before.append (by rw [hlen a ha, hlen b hb]) hbefore _ _
  · simp only [familiesOf, List.mem_flatten, List.mem_map]
    constructor
    · rintro ⟨family, ⟨node, -, rfl⟩, hx⟩
      exact (List.mem_filter.1 hx).1
    · intro hx
      exact ⟨_, ⟨_, hparent x hx, rfl⟩, List.mem_filter.2 ⟨hx, by simp⟩⟩

theorem familiesOf_nodesBelow (hsorted : keys.Pairwise Coordinate.Before)
    (hkeys : KeysWithin keys depth (shape :: rest)) (h : NodesAt keys depth nodes) :
    (familiesOf nodes depth (nodesBelow keys depth shape nodes)).flatten = nodesBelow keys depth shape nodes :=
  flatten_familiesOf h.inOrder h.length (nodesAt_nodesBelow hsorted hkeys h).inOrder fun _ hx =>
    (parent_of_mem_nodesBelow hkeys h hx).1

theorem sum_length_familiesOf (hsorted : keys.Pairwise Coordinate.Before)
    (hkeys : KeysWithin keys depth (shape :: rest)) (h : NodesAt keys depth nodes) :
    ((familiesOf nodes depth (nodesBelow keys depth shape nodes)).map List.length).sum =
      (nodesBelow keys depth shape nodes).length := by
  conv => rhs; rw [← familiesOf_nodesBelow hsorted hkeys h]
  rw [List.length_flatten]

theorem toInt_numbers (hkeys : KeysWithin keys depth (shape :: rest)) (h : NodesAt keys depth nodes)
    (hextent : shape.2 ≤ maxIndex) {x : Coordinate} (hx : x ∈ nodesBelow keys depth shape nodes) :
    (Int32.ofNat (x.getD depth 0)).toInt = x.getD depth 0 := by
  obtain ⟨-, hlt, hc⟩ := parent_of_mem_nodesBelow hkeys h hx
  refine toInt_ofNat ?_
  rw [List.getD_eq_getElem?_getD, List.getElem?_eq_getElem hlt]
  exact Nat.le_of_lt (Nat.lt_of_lt_of_le hc hextent)

theorem entryAt_numbers {below : List Coordinate} {place : Nat} {x : Coordinate} (hx : below[place]? = some x)
    (hnumber : (Int32.ofNat (x.getD depth 0)).toInt = x.getD depth 0) :
    Level.entryAt (below.map fun x => Int32.ofNat (x.getD depth 0)).toArray place = x.getD depth 0 := by
  unfold Level.entryAt
  simp only [List.getElem?_toArray, List.getElem?_map, hx, Option.map_some, Option.getD_some, hnumber,
    Int.toNat_natCast]

theorem countBelow_levelBetween (hsorted : keys.Pairwise Coordinate.Before)
    (hkeys : KeysWithin keys depth (shape :: rest)) (h : NodesAt keys depth nodes) (hextent : shape.2 ≤ maxIndex)
    (habove : nodes.length ≤ maxIndex) (hbelow : (nodesBelow keys depth shape nodes).length ≤ maxIndex) (number : Nat) :
    (levelBetween depth nodes (nodesBelow keys depth shape nodes) shape).countBelow number nodes.length =
      .ok (nodesBelow keys depth shape nodes).length := by
  by_cases htype : shape.1 = .compressed
  · rw [levelBetween, if_pos htype]
    have hlen :
        ((familiesOf nodes depth (nodesBelow keys depth shape nodes)).map List.length).length = nodes.length := by
      simp [familiesOf]
    have hcount := countBelow_compressed number
      ((familiesOf nodes depth (nodesBelow keys depth shape nodes)).map List.length)
      ((nodesBelow keys depth shape nodes).map fun x => Int32.ofNat (x.getD depth 0)).toArray (by rwa [hlen])
      (by simp [sum_length_familiesOf hsorted hkeys h]) (by simpa using hbelow) fun c hc => by
        obtain ⟨x, hx, rfl⟩ := List.mem_map.1 (List.mem_toArray.1 hc)
        rw [toInt_numbers hkeys h hextent hx]
        exact Int.natCast_nonneg _
    rw [hlen] at hcount
    rw [hcount, List.size_toArray, List.length_map]
  · have hlen : (nodesBelow keys depth shape nodes).length = nodes.length * shape.2 := length_nodesBelow_of_ne htype
    have hword : nodes.length * shape.2 < wordLimit := by
      rw [← hlen]
      exact Nat.lt_of_le_of_lt hbelow (by decide)
    rw [levelBetween, if_neg htype, Level.countBelow, if_pos hword, hlen]

/-- **Counts that fit pass the check.** -/
theorem countLeaves_levelsBetween (hsorted : keys.Pairwise Coordinate.Before) : ∀ {shapes : List (ModeType × Nat)}
    {depth : Nat} {nodes : List Coordinate}, KeysWithin keys depth shapes → NodesAt keys depth nodes →
      (∀ shape ∈ shapes, shape.2 ≤ maxIndex) → Fits keys depth shapes nodes →
      countLeaves depth nodes.length (levelsBetween keys depth shapes nodes) =
        .ok (nodesAfter keys depth shapes nodes).length
  | [], _, _, _, _, _, _ => rfl
  | shape :: rest, depth, nodes, hkeys, h, hextent, hfits => by
    rw [levelsBetween, countLeaves, nodesAfter, countBelow_levelBetween hsorted hkeys h
      (hextent shape List.mem_cons_self) hfits.1 hfits.2.head depth, ok_bind]
    exact countLeaves_levelsBetween hsorted hkeys.tail (nodesAt_nodesBelow hsorted hkeys h)
      (fun s hs => hextent s (List.mem_cons_of_mem _ hs)) hfits.2

/-- **Counts that pass the check fit**, for dense levels are compared with the largest index when they are laid out. -/
theorem fits_of_countLeaves (hsorted : keys.Pairwise Coordinate.Before) : ∀ {shapes : List (ModeType × Nat)}
    {depth leaves : Nat} {nodes : List Coordinate} {modes : List ModeIndex}, KeysWithin keys depth shapes →
      NodesAt keys depth nodes → (∀ shape ∈ shapes, shape.2 ≤ maxIndex) → nodes.length ≤ maxIndex →
      modesFrom keys depth shapes nodes = .ok modes →
      countLeaves depth nodes.length (levelsBetween keys depth shapes nodes) = .ok leaves → Fits keys depth shapes nodes
  | [], _, _, _, _, _, _, _, hfit, _, _ => hfit
  | shape :: rest, depth, leaves, nodes, modes, hkeys, h, hextent, hfit, hmodes, hcount => by
    simp only [modesFrom, bind_eq_ok] at hmodes
    obtain ⟨mode, hmode, modes', hmodes, -⟩ := hmodes
    rw [levelsBetween, countLeaves, bind_eq_ok] at hcount
    obtain ⟨below, hbelow, hcount⟩ := hcount
    have hfit' : (nodesBelow keys depth shape nodes).length ≤ maxIndex := by
      obtain ⟨type, extent⟩ := shape
      cases type with
      | dense =>
        rw [modeBetween, guard_eq_ok] at hmode
        rw [length_nodesBelow_of_ne (by simp)]
        exact Nat.le_of_not_lt hmode.1
      | singleton => cases hmode
      | compressed =>
        simp only [levelBetween, if_true, Level.countBelow, error_bind, guard_eq_ok, bind_eq_ok] at hbelow
        obtain ⟨-, ⟨⟩, hsegments, -⟩ := hbelow
        simpa using le_of_checkSegments hsegments
    rw [countBelow_levelBetween hsorted hkeys h (hextent shape List.mem_cons_self) hfit hfit' depth] at hbelow
    cases hbelow
    exact ⟨hfit, fits_of_countLeaves hsorted hkeys.tail (nodesAt_nodesBelow hsorted hkeys h)
      (fun s hs => hextent s (List.mem_cons_of_mem _ hs)) hfit' hmodes hcount⟩

/-! ## Leaves -/

theorem children_dense (i extent : Nat) (node : Coordinate) :
    ((Level.dense extent).children i).map (fun child => (node ++ [child.2], child.1)) =
      ((List.range extent).map fun c => node ++ [c]).zipIdx (i * extent) := by
  refine List.ext_getElem (by simp [Level.children]) fun j hj hj' => ?_
  simp [Level.children]

theorem children_compressed (hsorted : keys.Pairwise Coordinate.Before) (hkeys : KeysWithin keys depth (shape :: rest))
    (h : NodesAt keys depth nodes) (hextent : shape.2 ≤ maxIndex) (htype : shape.1 = .compressed)
    (hbelow : (nodesBelow keys depth shape nodes).length ≤ maxIndex) {i : Nat} {node : Coordinate}
    (hnode : nodes[i]? = some node) :
    ((levelBetween depth nodes (nodesBelow keys depth shape nodes) shape).children i).map
        (fun child => (node ++ [child.2], child.1)) =
      ((nodesBelow keys depth shape nodes).filter (·.take depth = node)).zipIdx
        (((familiesOf nodes depth (nodesBelow keys depth shape nodes)).map List.length).take i).sum := by
  have hflat := familiesOf_nodesBelow hsorted hkeys h
  have hsum := sum_length_familiesOf hsorted hkeys h
  have hlen := (nodesAt_nodesBelow hsorted hkeys h).length
  have hnumbers := fun x => toInt_numbers (x := x) hkeys h hextent
  have hlevel : levelBetween depth nodes (nodesBelow keys depth shape nodes) shape = _ := if_pos htype
  rw [hlevel]
  generalize nodesBelow keys depth shape nodes = below at hbelow hflat hsum hlen hnumbers ⊢
  have hfamily : (familiesOf nodes depth below)[i]? = some (below.filter (·.take depth = node)) := by
    rw [familiesOf, List.getElem?_map, hnode]
    rfl
  have hcount : ((familiesOf nodes depth below).map List.length)[i]? =
      some (below.filter (·.take depth = node)).length := by
    rw [List.getElem?_map, hfamily]
    rfl
  rw [children_positionArray (hsum ▸ hbelow) _ hcount]
  refine List.ext_getElem (by simp) fun j hj hj' => ?_
  rw [List.length_zipIdx] at hj'
  obtain ⟨hmem, hparent⟩ := List.mem_filter.1 (List.getElem_mem hj')
  -- the `j`-th of the family stands behind the families of the nodes before
  have hat := getElem?_flatten_total (familiesOf nodes depth below) hfamily (List.getElem?_eq_getElem hj')
  rw [hflat] at hat
  simp only [List.getElem_map, List.getElem_range', List.getElem_zipIdx, Nat.one_mul]
  generalize (below.filter (·.take depth = node))[j] = x at hmem hparent hat ⊢
  rw [decide_eq_true_iff] at hparent
  rw [entryAt_numbers hat (hnumbers x hmem), ← hparent, take_append_getD (hlen x hmem)]

/-- **The children of the nodes above are the nodes below**, numbered in their order. -/
theorem children_levelBetween (hsorted : keys.Pairwise Coordinate.Before)
    (hkeys : KeysWithin keys depth (shape :: rest)) (h : NodesAt keys depth nodes) (hextent : shape.2 ≤ maxIndex)
    (hbelow : (nodesBelow keys depth shape nodes).length ≤ maxIndex) :
    (nodes.zipIdx.flatMap fun p =>
      ((levelBetween depth nodes (nodesBelow keys depth shape nodes) shape).children p.2).map fun child =>
        (p.1 ++ [child.2], child.1)) = (nodesBelow keys depth shape nodes).zipIdx := by
  by_cases htype : shape.1 = .compressed
  · conv => rhs; rw [← familiesOf_nodesBelow hsorted hkeys h]
    rw [zipIdx_flatten]
    conv => rhs; rw [familiesOf, List.zipIdx_map, List.flatMap_map]
    refine flatMap_congr_left fun p hp => ?_
    rw [children_compressed hsorted hkeys h hextent htype hbelow (List.mem_zipIdx_iff_getElem?.1 hp), Nat.zero_add]
    rfl
  · rw [nodesBelow_of_ne htype, levelBetween, if_neg htype]
    conv => rhs; rw [List.flatMap_def, zipIdx_flatten, List.zipIdx_map, List.flatMap_map]
    refine flatMap_congr_left fun p hp => ?_
    obtain ⟨hi, -⟩ := List.getElem?_eq_some_iff.1 (List.mem_zipIdx_iff_getElem?.1 hp)
    rw [children_dense]
    simp [Function.comp_def, List.map_const', List.take_replicate, Nat.min_eq_left (Nat.le_of_lt hi)]

/-- **The leaves below the nodes above some levels are the nodes below them**, numbered in their order. -/
theorem leavesBelow_nodes (hsorted : keys.Pairwise Coordinate.Before) : ∀ {shapes : List (ModeType × Nat)}
    {depth : Nat} {nodes : List Coordinate}, KeysWithin keys depth shapes → NodesAt keys depth nodes →
      (∀ shape ∈ shapes, shape.2 ≤ maxIndex) → Fits keys depth shapes nodes →
      (nodes.zipIdx.flatMap fun p =>
        (leavesBelow (levelsBetween keys depth shapes nodes) p.2).map fun leaf => (p.1 ++ leaf.1, leaf.2)) =
          (nodesAfter keys depth shapes nodes).zipIdx
  | [], _, nodes, _, _, _, _ => by
    simp [levelsBetween, leavesBelow, nodesAfter, List.flatMap_singleton']
  | shape :: rest, depth, nodes, hkeys, h, hextent, hfits => by
    rw [levelsBetween, nodesAfter, ← leavesBelow_nodes hsorted hkeys.tail (nodesAt_nodesBelow hsorted hkeys h)
      (fun s hs => hextent s (List.mem_cons_of_mem _ hs)) hfits.2,
      ← children_levelBetween hsorted hkeys h (hextent shape List.mem_cons_self) hfits.2.head]
    simp only [leavesBelow, List.flatMap_assoc, List.map_flatMap, List.flatMap_map, List.map_map, Function.comp_def,
      List.append_assoc, List.singleton_append]

/-- **Levels that could be laid out fit** when there are no more keys than the largest index. -/
theorem fits_of_modesFrom (hkeys : keys.length ≤ maxIndex) : ∀ {shapes : List (ModeType × Nat)} {depth : Nat}
    {nodes : List Coordinate} {modes : List ModeIndex}, nodes.length ≤ maxIndex →
      modesFrom keys depth shapes nodes = .ok modes → Fits keys depth shapes nodes
  | [], _, _, _, hfit, _ => hfit
  | (type, extent) :: rest, depth, nodes, modes, hfit, h => by
    simp only [modesFrom, bind_eq_ok] at h
    obtain ⟨mode, hmode, modes', hmodes, -⟩ := h
    refine ⟨hfit, fits_of_modesFrom hkeys ?_ hmodes⟩
    cases type with
    | dense =>
      rw [modeBetween, guard_eq_ok] at hmode
      rw [length_nodesBelow_of_ne (by simp)]
      exact Nat.le_of_not_lt hmode.1
    | singleton => cases hmode
    | compressed =>
      refine Nat.le_trans (length_runHeads_le _ _) ?_
      rwa [List.length_map]

end Levels

/-! ## Storages -/

namespace Packer

variable {p : Packer} {records : List Record} {s : Storage}

def levels (p : Packer) (records : List Record) : List Level :=
  levelsBetween (records.map (·.key)) 0 p.levelShapes [[]]

/-- Counts that fit the entries at every level of the storage of some records. -/
def FitsEntries (p : Packer) (records : List Record) : Prop := Fits (records.map (·.key)) 0 p.levelShapes [[]]

def entryAt (p : Packer) (records : List Record) (x : Coordinate) : Entry :=
  ⟨p.format.fromLevels x, p.valueOf records x⟩

theorem extent_le (hc : p.check = .ok ()) : ∀ shape ∈ p.levelShapes, shape.2 ≤ maxIndex := by
  obtain ⟨horder, -, hdimensions⟩ := check_eq_ok hc
  intro shape hshape
  have hmem : shape.2 ∈ p.format.keyOf p.dimensions := by
    rw [← map_snd_levelShapes]
    exact List.mem_map_of_mem hshape
  obtain ⟨d, hd, he⟩ := List.mem_map.1 hmem
  have hlt : d < p.dimensions.length := horder ▸ (p.format.mem_ordering_iff d).1 hd
  rw [← he, List.getD_eq_getElem?_getD, List.getElem?_eq_getElem hlt]
  exact hdimensions _ (List.getElem_mem hlt)

theorem lay_eq_ok (hc : p.check = .ok ()) (h : p.LaysOut records) (hlay : p.lay records = .ok s) :
    ∃ modes, modesFrom (records.map (·.key)) 0 p.levelShapes [[]] = .ok modes ∧
      s = ⟨⟨modes, (p.leaves records).length⟩,
        .ofArray p.dtype ((p.leaves records).map (scalarAt p.dtype records)).toArray⟩ := by
  rw [lay_eq hc h, bind_eq_ok] at hlay
  obtain ⟨modes, hmodes, hs⟩ := hlay
  cases hs
  exact ⟨modes, hmodes, rfl⟩

theorem levels_of_lay (hc : p.check = .ok ()) (h : p.LaysOut records) (hlay : p.lay records = .ok s) :
    s.levels p.format = .ok (p.levels records) := by
  obtain ⟨modes, hmodes, rfl⟩ := lay_eq_ok hc h hlay
  obtain ⟨hlevels, hlen⟩ := levelsFrom_modesFrom (extent_le hc) hmodes
  rw [map_fst_levelShapes] at hlevels
  rw [length_levelShapes] at hlen
  rw [Storage.levels, (check_eq_ok hc).2.1, ok_bind, if_neg (by simp [TensorIndex.order, hlen]), hlevels]
  rfl

/-- **A storage whose counts fit passes the checks of a walk.** -/
theorem checkedLevels_of_lay (hc : p.check = .ok ()) (h : p.LaysOut records) (hlay : p.lay records = .ok s)
    (hfits : p.FitsEntries records) : s.checkedLevels p.format = .ok (p.levels records) := by
  have hlevels := levels_of_lay hc h hlay
  obtain ⟨modes, -, rfl⟩ := lay_eq_ok hc h hlay
  have hcount := countLeaves_levelsBetween h.sorted h.keysWithin (nodesAt_root _) (extent_le hc) hfits
  rw [Storage.checkedLevels, hlevels, ok_bind, Storage.checkNested]
  rw [List.length_singleton] at hcount
  rw [levels, hcount, ok_bind, if_neg]
  · rfl
  · simp [leaves, ValueArray.ofArray, ValueArray.size, Buffer.size]

/-- **A storage that passes the checks of a walk has counts that fit.** -/
theorem fits_of_checkedLevels {levels : List Level} (hc : p.check = .ok ()) (h : p.LaysOut records)
    (hlay : p.lay records = .ok s) (hlevels : s.checkedLevels p.format = .ok levels) : p.FitsEntries records := by
  obtain ⟨modes, hmodes, -⟩ := lay_eq_ok hc h hlay
  obtain ⟨hl, hleaves, -⟩ := Storage.checkedLevels_eq_ok hlevels
  cases (levels_of_lay hc h hlay).symm.trans hl
  exact fits_of_countLeaves h.sorted h.keysWithin (nodesAt_root _) (extent_le hc) (by decide) hmodes hleaves

/-- **What a walk finds is what was laid out**: an entry at each leaf, in level order. -/
theorem nestedEntries_of_lay (hc : p.check = .ok ()) (h : p.LaysOut records) (hlay : p.lay records = .ok s)
    (hfits : p.FitsEntries records) :
    s.nestedEntries p.format (p.levels records) = (p.leaves records).map (p.entryAt records) := by
  obtain ⟨modes, -, rfl⟩ := lay_eq_ok hc h hlay
  have hleaves := leavesBelow_nodes h.sorted h.keysWithin (nodesAt_root _) (extent_le hc) hfits
  rw [← leaves, ← levels] at hleaves
  have hleaves : leavesBelow (p.levels records) 0 = (p.leaves records).zipIdx := by simpa using hleaves
  rw [Storage.nestedEntries, hleaves]
  have hat : ∀ leaf ∈ (p.leaves records).zipIdx,
      (((p.leaves records).map (scalarAt p.dtype records)).toArray[leaf.2]?) =
        some (scalarAt p.dtype records leaf.1) := by
    intro leaf hleaf
    rw [List.getElem?_toArray, List.getElem?_map, List.mem_zipIdx_iff_getElem?.1 hleaf]
    rfl
  conv => rhs; rw [← List.zipIdx_map_fst 0 (p.leaves records), List.map_map]
  refine filterMap_eq_map_of_some fun leaf hleaf => ?_
  show (((((p.leaves records).map (scalarAt p.dtype records)).toArray[leaf.2]?).map _).map _) = _
  rw [hat leaf hleaf]
  rfl

end Packer

end TensorStorage
