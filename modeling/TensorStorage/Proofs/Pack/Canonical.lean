import TensorStorage.Proofs.Pack.Distinct
import TensorStorage.Proofs.Pack.Structure
import TensorStorage.Proofs.Walk.Paths
/-!
# Canonical — storages that packing gives back

What a walk yields of a storage says nothing of siblings out of order, of positions without leaves, and of entries that
no level reads.  A storage without any of these is laid out again as it was when its entries are packed
(`Packer.pack_nestedEntries`).
-/
namespace TensorStorage

/-! ## Levels -/

/-- A level of this type and this extent. -/
def Level.OfShape : Level → ModeType × Nat → Prop
  | .dense found, (.dense, extent) => found = extent
  | .compressed _ _, (.compressed, _) => True
  | _, _ => False

/-- The arrays of a level, as the engine's own. -/
def Level.mode : Level → ModeIndex
  | .dense extent => .dense (Int32.ofNat extent)
  | .compressed positions coordinates => .compressed { data := positions } { data := coordinates }

/-- **Levels that packing gives back**, from the positions above them on: at no level there are more positions than the
largest index, the coordinates of siblings increase, and every position of a compressed level has a leaf below it. -/
structure CanonicalLevels (number above : Nat) (levels : List Level) : Prop where
  few : ∀ n count, countLeaves number above (levels.take n) = .ok count → count ≤ maxIndex
  increasing : ∀ positions coordinates, .compressed positions coordinates ∈ levels → ∀ p, p + 1 < positions.size →
    (((Level.compressed positions coordinates).children p).map Prod.snd).Pairwise (· < ·)
  inUse : ∀ l positions coordinates, levels[l]? = some (.compressed positions coordinates) →
    ∀ q < coordinates.size, leavesBelow (levels.drop (l + 1)) q ≠ []

theorem ofNat_toNat_toInt {x : Int32} (h : 0 ≤ x.toInt) : Int32.ofNat x.toInt.toNat = x := by
  have hlt := Int32.toInt_lt x
  refine Int32.toInt_inj.1 ?_
  rw [toInt_ofNat (by simp only [maxIndex]; omega)]
  exact Int.toNat_of_nonneg h

namespace CanonicalLevels

variable {number above below : Nat} {level : Level} {levels : List Level}

theorem above_le (h : CanonicalLevels number above levels) : above ≤ maxIndex := h.few 0 above rfl

/-- The coordinates of siblings increase at every level. -/
theorem pairwise_children (h : CanonicalLevels number above levels) (hlevel : level ∈ levels) (p : Nat) :
    ((level.children p).map Prod.snd).Pairwise (· < ·) := by
  cases level with
  | dense extent =>
    simp only [Level.children, List.map_map, Function.comp_def, List.map_id']
    exact List.pairwise_lt_range
  | compressed positions coordinates =>
    by_cases hp : p + 1 < positions.size
    · exact h.increasing positions coordinates hlevel p hp
    -- past the last segment there are no children
    · have hstop : Level.entryAt positions (p + 1) = 0 := by
        simp [Level.entryAt, Array.getElem?_eq_none (Nat.le_of_not_lt hp)]
      simp [Level.children, hstop]

theorem tail (h : CanonicalLevels number above (level :: levels)) (hbelow : level.countBelow number above = .ok below) :
    CanonicalLevels (number + 1) below levels := by
  refine ⟨fun n count hcount => h.few (n + 1) count ?_,
    fun positions coordinates hl => h.increasing positions coordinates (List.mem_cons_of_mem _ hl),
    fun l positions coordinates hl => h.inUse (l + 1) positions coordinates hl⟩
  rw [List.take_succ_cons, countLeaves, hbelow]
  exact hcount

end CanonicalLevels

/-! ## One level -/

section Level

variable {nodes : List Coordinate} {depth number above below : Nat} {level : Level} {rest : List Level}
  {shape : ModeType × Nat}

theorem countBelow_compressed_eq_ok {positions coordinates : Array Int32} (habove : above ≤ maxIndex)
    (h : (Level.compressed positions coordinates).countBelow number above = .ok below) :
    positions.size = above + 1 ∧ checkSegments positions coordinates.size = .ok () ∧
      firstNegative? coordinates = none ∧ below = coordinates.size := by
  simp only [Level.countBelow, error_bind, guard_eq_ok, bind_eq_ok] at h
  obtain ⟨hsize, ⟨⟩, hsegments, h⟩ := h
  have hwanted : (above + 1) % wordLimit = above + 1 := Nat.mod_eq_of_lt (by simp only [maxIndex, wordLimit] at *; omega)
  rw [hwanted, Decidable.not_not] at hsize
  cases hneg : firstNegative? coordinates with
  | some c =>
    rw [hneg] at h
    cases h
  | none =>
    rw [hneg] at h
    cases h
    exact ⟨hsize, hsegments, rfl, rfl⟩

theorem mem_pathsUnder {levels : List Level} {x : Coordinate} : x ∈ pathsUnder levels nodes ↔
    ∃ p ∈ nodes.zipIdx, ∃ leaf ∈ leavesBelow levels p.2, x = p.1 ++ leaf.1 := by
  simp only [pathsUnder, List.mem_flatMap, List.mem_map, eq_comm]

/-- Where every position has a leaf, the leaves begin with the nodes. -/
theorem mem_map_take_pathsUnder {levels : List Level} (hlen : ∀ x ∈ nodes, x.length = depth)
    (hinUse : ∀ q < nodes.length, leavesBelow levels q ≠ []) {x : Coordinate} :
    x ∈ (pathsUnder levels nodes).map (·.take depth) ↔ x ∈ nodes := by
  constructor
  · intro hx
    obtain ⟨k, hk, rfl⟩ := List.mem_map.1 hx
    obtain ⟨p, hp, leaf, -, rfl⟩ := mem_pathsUnder.1 hk
    have hmem := List.fst_mem_of_mem_zipIdx hp
    rwa [List.take_left' (hlen p.1 hmem)]
  · intro hx
    obtain ⟨q, hq⟩ := List.mem_iff_getElem?.1 hx
    obtain ⟨leaf, hleaf⟩ := List.exists_mem_of_ne_nil _ (hinUse q (List.getElem?_eq_some_iff.1 hq).1)
    refine List.mem_map.2 ⟨x ++ leaf.1, mem_pathsUnder.2 ⟨(x, q), List.mem_zipIdx_iff_getElem?.2 hq, leaf, hleaf, rfl⟩, ?_⟩
    exact List.take_left' (hlen x hx)

/-- **The nodes that packing makes of the leaves** are those below the level. -/
theorem nodesBelow_pathsUnder (hn : level.Nested nodes.length below) (hshape : level.OfShape shape)
    (hnodes : nodes.Pairwise Coordinate.Before) (hlen : ∀ x ∈ nodes, x.length = depth)
    (hincreasing : ∀ p, ((level.children p).map Prod.snd).Pairwise (· < ·))
    (hkeys : (pathsUnder (level :: rest) nodes).Pairwise Coordinate.Before)
    (hinUse : shape.1 = .compressed → ∀ q < below, leavesBelow rest q ≠ []) :
    nodesBelow (pathsUnder (level :: rest) nodes) depth shape nodes = level.nodesUnder nodes := by
  obtain ⟨type, extent⟩ := shape
  match level, type, hshape with
  | .dense _, .dense, rfl =>
    rw [nodesBelow_of_ne (by simp)]
    conv => lhs; rw [← List.zipIdx_map_fst 0 nodes, List.flatMap_map]
    simp only [Level.nodesUnder, Level.children, List.map_map, Function.comp_def]
  | .compressed positions coordinates, .compressed, _ =>
    refine Coordinate.eq_of_mem_iff (pairwise_stems hkeys (depth + 1)) (pairwise_nodesUnder hnodes hlen hincreasing)
      fun x => ?_
    rw [nodesBelow_compressed, mem_runHeads_none, pathsUnder_cons hn]
    refine mem_map_take_pathsUnder (fun x hx => length_of_mem_nodesUnder hlen hx) fun q hq => hinUse rfl q ?_
    rwa [hn.length_nodesUnder] at hq

/-- The families of nodes, taken apart again. -/
theorem map_filter_flatMap {g : Coordinate × Nat → List Coordinate} : ∀ {nodes : List Coordinate} (n : Nat),
    nodes.Nodup → (∀ p, p.1 ∈ nodes → ∀ x ∈ g p, x.take depth = p.1) →
      nodes.map (fun node => ((nodes.zipIdx n).flatMap g).filter (·.take depth = node)) = (nodes.zipIdx n).map g
  | [], _, _, _ => rfl
  | node :: nodes, n, hnodup, hg => by
    rw [List.nodup_cons] at hnodup
    have ih := map_filter_flatMap (n + 1) hnodup.2 fun p hp => hg p (List.mem_cons_of_mem _ hp)
    have hself : (g (node, n)).filter (·.take depth = node) = g (node, n) := List.filter_eq_self.2 fun x hx =>
      decide_eq_true (hg (node, n) List.mem_cons_self x hx)
    have hothers : ((nodes.zipIdx (n + 1)).flatMap g).filter (·.take depth = node) = [] := by
      refine List.filter_eq_nil_iff.2 fun x hx hxnode => hnodup.1 ?_
      obtain ⟨p, hp, hx⟩ := List.mem_flatMap.1 hx
      have hmem := List.fst_mem_of_mem_zipIdx hp
      rwa [← of_decide_eq_true hxnode, hg p (List.mem_cons_of_mem _ hmem) x hx]
    have hfirst : ∀ other ∈ nodes, (g (node, n)).filter (·.take depth = other) = [] := fun other hother => by
      refine List.filter_eq_nil_iff.2 fun x hx hxother => hnodup.1 ?_
      have hxnode : x.take depth = node := hg (node, n) List.mem_cons_self x hx
      rwa [← hxnode, of_decide_eq_true hxother]
    rw [List.zipIdx_cons, List.map_cons, List.map_cons, List.flatMap_cons, List.filter_append, hself, hothers,
      List.append_nil, ← ih]
    refine congrArg _ (List.map_congr_left fun other hother => ?_)
    rw [List.filter_append, hfirst other hother, List.nil_append]

theorem familiesOf_nodesUnder (hnodes : nodes.Nodup) (hlen : ∀ x ∈ nodes, x.length = depth) :
    (familiesOf nodes depth (level.nodesUnder nodes)).map List.length =
      (List.range nodes.length).map fun p => (level.children p).length := by
  rw [familiesOf, Level.nodesUnder, map_filter_flatMap 0 hnodes, List.map_map, List.range_eq_range',
    ← List.zipIdx_map_snd 0 nodes, List.map_map]
  · simp only [Function.comp_def, List.length_map]
  · intro p hp x hx
    obtain ⟨child, -, rfl⟩ := List.mem_map.1 hx
    exact List.take_left' (hlen p.1 hp)

theorem map_getD_nodesUnder (hlen : ∀ x ∈ nodes, x.length = depth) :
    (level.nodesUnder nodes).map (·.getD depth 0) = ((List.range nodes.length).flatMap level.children).map Prod.snd := by
  rw [← flatMap_zipIdx level.children, Level.nodesUnder, List.map_flatMap, List.map_flatMap]
  refine flatMap_congr_left fun p hp => ?_
  rw [List.map_map]
  refine List.map_congr_left fun child _ => ?_
  have hlen := hlen p.1 (List.fst_mem_of_mem_zipIdx hp)
  simp [List.getD, ← hlen]

theorem sum_length_children (hn : level.Nested above below) {k : Nat} (hk : k ≤ above) :
    ((List.range k).map fun p => (level.children p).length).sum = level.firstChild k := by
  have hlen := congrArg List.length (hn.flatMap_segments hk)
  rw [List.length_flatMap, List.length_range] at hlen
  rw [← hlen]
  refine congrArg List.sum (List.map_congr_left fun p _ => ?_)
  rw [Level.children_eq, List.length_map]

/-- The position array is that of the numbers of children. -/
theorem positionArray_children {positions coordinates : Array Int32}
    (hn : (Level.compressed positions coordinates).Nested above below) (hsize : positions.size = above + 1)
    (hnonneg : ∀ p (hp : p < positions.size), 0 ≤ positions[p].toInt) :
    Layout.positionArray ((List.range above).map
      fun p => ((Level.compressed positions coordinates).children p).length).toArray = positions := by
  rw [positionArray_eq, List.length_map, List.length_range]
  refine Array.ext (by simp [hsize]) fun k hk hk' => ?_
  have hle : k ≤ above := by omega
  rw [List.getElem_toArray, List.getElem_map, List.getElem_range, ← List.map_take, List.take_range, Nat.min_eq_left hle,
    sum_length_children hn hle]
  show Int32.ofNat (Level.entryAt positions k) = positions[k]
  rw [Level.entryAt_eq hk', ofNat_toNat_toInt (hnonneg k hk')]

/-- The coordinate array is that of the children. -/
theorem coordinates_children {positions coordinates : Array Int32}
    (hn : (Level.compressed positions coordinates).Nested above coordinates.size)
    (hnonneg : ∀ c ∈ coordinates, 0 ≤ c.toInt) :
    ((((List.range above).flatMap (Level.compressed positions coordinates).children).map Prod.snd).map
      Int32.ofNat).toArray = coordinates := by
  have hread : ((List.range above).flatMap (Level.compressed positions coordinates).children).map Prod.snd =
      (List.range coordinates.size).map (Level.entryAt coordinates) := by
    rw [← hn.flatMap_children, List.map_flatMap, List.map_flatMap, List.map_flatMap]
    refine flatMap_congr_left fun p _ => ?_
    simp only [Level.children, List.map_map, Function.comp_def]
  rw [hread, List.map_map]
  refine Array.ext (by simp) fun q hq hq' => ?_
  rw [List.getElem_toArray, List.getElem_map, List.getElem_range, Function.comp_apply, Level.entryAt_eq hq',
    ofNat_toNat_toInt (hnonneg _ (Array.getElem_mem hq'))]

/-- **A level is what packing makes of its nodes.** -/
theorem levelBetween_nodesUnder (habove : nodes.length ≤ maxIndex)
    (hbelow : level.countBelow number nodes.length = .ok below) (hshape : level.OfShape shape)
    (hnodes : nodes.Nodup) (hlen : ∀ x ∈ nodes, x.length = depth) :
    levelBetween depth nodes (level.nodesUnder nodes) shape = level := by
  obtain ⟨type, extent⟩ := shape
  match level, type, hshape with
  | .dense _, .dense, rfl => rfl
  | .compressed positions coordinates, .compressed, _ =>
    obtain ⟨hsize, hsegments, hneg, rfl⟩ := countBelow_compressed_eq_ok habove hbelow
    have hn := Level.nested_compressed hsize hsegments hneg
    obtain ⟨hpos, hfirst, -, hmono⟩ := Level.checkSegments_eq_ok hsegments
    have hpositions : ∀ p (hp : p < positions.size), 0 ≤ positions[p].toInt := fun p hp =>
      hfirst ▸ hmono 0 p (Nat.zero_le p) hp
    have hcoordinates : ∀ c ∈ coordinates, 0 ≤ c.toInt := fun c hc => by
      simpa using Array.find?_eq_none.1 hneg c hc
    have hnumbers := coordinates_children hn hcoordinates
    rw [← map_getD_nodesUnder hlen, List.map_map] at hnumbers
    rw [levelBetween, if_pos rfl, familiesOf_nodesUnder hnodes hlen, positionArray_children hn hsize hpositions]
    exact congrArg _ hnumbers

theorem modeBetween_eq (depth : Nat) (under : List Coordinate) (hfew : shape.1 ≠ .compressed → nodes.length * shape.2 ≤ maxIndex)
    (hsupported : shape.1.isSupported = true) :
    modeBetween depth nodes under shape = .ok (levelBetween depth nodes under shape).mode := by
  obtain ⟨type, extent⟩ := shape
  cases type with
  | dense =>
    rw [modeBetween, if_neg (Nat.not_lt.2 (hfew (by simp)))]
    rfl
  | compressed => rfl
  | singleton => cases hsupported

end Level

/-! ## All levels -/

theorem Level.OfShape.isSupported : ∀ {level : Level} {shape : ModeType × Nat}, level.OfShape shape →
    shape.1.isSupported = true
  | .dense _, (.dense, _), _ => rfl
  | .compressed _ _, (.compressed, _), _ => rfl

theorem Level.OfShape.length_below {number above below : Nat} : ∀ {level : Level} {shape : ModeType × Nat},
    level.OfShape shape → level.countBelow number above = .ok below → shape.1 ≠ .compressed → below = above * shape.2
  | .dense found, (.dense, extent), h, hbelow, _ => by
    have he : found = extent := h
    rw [countBelow] at hbelow
    by_cases hword : above * found < wordLimit
    · rw [if_pos hword] at hbelow
      rw [← Except.ok.inj hbelow, he]
    · rw [if_neg hword] at hbelow
      cases hbelow
  | .compressed _ _, (.compressed, _), _, _, htype => absurd rfl htype

theorem CanonicalLevels.inUse_head {number above below : Nat} {level : Level} {rest : List Level}
    {shape : ModeType × Nat} (h : CanonicalLevels number above (level :: rest))
    (hbelow : level.countBelow number above = .ok below) (hshape : level.OfShape shape)
    (htype : shape.1 = .compressed) : ∀ q < below, leavesBelow rest q ≠ [] := by
  obtain ⟨type, extent⟩ := shape
  match level, type, htype, hshape with
  | .compressed positions coordinates, .compressed, _, _ =>
    obtain ⟨-, -, -, rfl⟩ := countBelow_compressed_eq_ok h.above_le hbelow
    exact h.inUse 0 positions coordinates rfl

/-- **Canonical levels are what packing makes of their leaves.** -/
theorem modesFrom_pathsUnder {levels : List Level} {shapes : List (ModeType × Nat)} {number depth leaves : Nat}
    {nodes : List Coordinate} (hcount : countLeaves number nodes.length levels = .ok leaves)
    (h : CanonicalLevels number nodes.length levels) (hshapes : List.Forall₂ Level.OfShape levels shapes)
    (hnodes : nodes.Pairwise Coordinate.Before) (hlen : ∀ x ∈ nodes, x.length = depth)
    (hkeys : (pathsUnder levels nodes).Pairwise Coordinate.Before) :
    modesFrom (pathsUnder levels nodes) depth shapes nodes = .ok (levels.map Level.mode) ∧
      nodesAfter (pathsUnder levels nodes) depth shapes nodes = pathsUnder levels nodes := by
  -- the nodes below the outermost level take the place of the nodes
  induction hshapes generalizing number depth nodes with
  | nil => exact ⟨rfl, (pathsUnder_nil nodes).symm⟩
  | @cons level shape rest shapes hshape _ ih =>
    rw [countLeaves, bind_eq_ok] at hcount
    obtain ⟨below, hbelow, hcount⟩ := hcount
    have htail := h.tail hbelow
    have hword : nodes.length < wordLimit := Nat.lt_of_le_of_lt h.above_le (by decide)
    have hn := Level.nested_of_countBelow hword hbelow
    have hincreasing : ∀ p, ((level.children p).map Prod.snd).Pairwise (· < ·) :=
      h.pairwise_children List.mem_cons_self
    have hunder := nodesBelow_pathsUnder hn hshape hnodes hlen hincreasing hkeys (h.inUse_head hbelow hshape)
    have hlevel := levelBetween_nodesUnder h.above_le hbelow hshape (hnodes.imp fun hab => hab.2) hlen
    have hmode := modeBetween_eq depth (level.nodesUnder nodes)
      (fun htype => hshape.length_below hbelow htype ▸ htail.above_le) hshape.isSupported
    rw [hlevel] at hmode
    rw [modesFrom, nodesAfter, hunder, hmode, ok_bind, pathsUnder_cons hn]
    rw [pathsUnder_cons hn] at hkeys
    rw [← hn.length_nodesUnder] at hcount htail
    obtain ⟨hmodes, hafter⟩ := ih hcount htail (pairwise_nodesUnder hnodes hlen hincreasing)
      (fun x hx => length_of_mem_nodesUnder hlen hx) hkeys
    exact ⟨by rw [hmodes]; rfl, hafter⟩

/-! ## Storages -/

/-- The arrays that a level of this mode type reads: one entry, or two arrays. -/
def ModeIndex.read (m : ModeIndex) : ModeType → List (Array Int32)
  | .dense => (m.arrays.take 1).map (·.data.take 1)
  | .compressed | .singleton => (m.arrays.take 2).map (·.data)

def ModeIndex.listed (m : ModeIndex) : List (Array Int32) := m.arrays.map (·.data)

theorem ofShape_of_level {m : ModeIndex} {type : ModeType} {number number' extent : Nat} {level : Level}
    (h : m.level type number = .ok level) (hextent : level.checkExtent number' extent = .ok ()) :
    level.OfShape (type, extent) := by
  cases type with
  | dense =>
    simp only [ModeIndex.level, bind_eq_ok, guard_eq_ok] at h
    obtain ⟨extents, -, -, h⟩ := h
    cases h
    simp only [Level.checkExtent, guard_eq_ok, Decidable.not_not] at hextent
    exact hextent.1
  | compressed =>
    simp only [ModeIndex.level, bind_eq_ok] at h
    obtain ⟨positions, -, coordinates, -, h⟩ := h
    cases h
    trivial
  | singleton => cases h

theorem ModeIndex.array_eq_ok {m : ModeIndex} {i : Nat} {a : IndexArray} : m.array i = .ok a ↔ m.arrays[i]? = some a := by
  unfold array
  cases m.arrays[i]? with
  | none => simp
  | some b => simp

/-- A level has the arrays that it read. -/
theorem listed_of_level {m : ModeIndex} {type : ModeType} {number : Nat} {level : Level}
    (h : m.level type number = .ok level) : level.mode.listed = m.read type := by
  cases type with
  | dense =>
    simp only [ModeIndex.level, bind_eq_ok, guard_eq_ok, ModeIndex.array_eq_ok] at h
    obtain ⟨extents, harray, hnonneg, h⟩ := h
    cases h
    rw [ModeIndex.read, List.take_add_one, harray, Option.toList_some, List.take_zero, List.nil_append,
      List.map_singleton]
    cases hentry : extents.data[0]? with
    | none =>
      rw [hentry] at hnonneg
      exact absurd (by decide) hnonneg
    | some x =>
      rw [hentry] at hnonneg
      have hx : 0 ≤ x.toInt := Int.not_lt.1 hnonneg
      have htake : extents.data.take 1 = #[x] := by
        refine Array.toList_inj.1 ?_
        simp [List.take_add_one, hentry]
      rw [htake]
      exact congrArg (fun y => [#[y]]) (ofNat_toNat_toInt hx)
  | compressed =>
    simp only [ModeIndex.level, bind_eq_ok, ModeIndex.array_eq_ok] at h
    obtain ⟨positions, hpositions, coordinates, hcoordinates, h⟩ := h
    cases h
    rw [ModeIndex.read, List.take_add_one, List.take_add_one, hpositions, hcoordinates]
    rfl
  | singleton => cases h

theorem map_listed_levels : ∀ {modes : List ModeIndex} {types : List ModeType} {levels : List Level} {number : Nat},
    levelsFrom number (modes.zip types) = .ok levels →
      (levels.map Level.mode).map ModeIndex.listed = List.zipWith ModeIndex.read modes types
  | [], _, _, _, h => by
    cases h
    rfl
  | _ :: _, [], _, _, h => by
    cases h
    rfl
  | m :: modes, type :: types, _, number, h => by
    simp only [List.zip_cons_cons, levelsFrom, bind_eq_ok] at h
    obtain ⟨level, hlevel, levels, hlevels, h⟩ := h
    cases h
    rw [List.map_cons, List.map_cons, List.zipWith_cons_cons, listed_of_level hlevel, map_listed_levels hlevels]

theorem forall₂_ofShape : ∀ {modes : List ModeIndex} {types : List ModeType} {extents : List Nat} {levels : List Level}
    {number number' : Nat}, modes.length = types.length → types.length = extents.length →
      levelsFrom number (modes.zip types) = .ok levels → checkExtents number' (levels.zip extents) = .ok () →
      List.Forall₂ Level.OfShape levels (types.zip extents)
  | [], [], [], _, _, _, _, _, h, _ => by
    cases h
    exact .nil
  | m :: modes, type :: types, extent :: extents, _, number, number', hlen, hlen', h, hextents => by
    simp only [List.zip_cons_cons, levelsFrom, bind_eq_ok] at h
    obtain ⟨level, hlevel, levels, hlevels, h⟩ := h
    cases h
    rw [List.zip_cons_cons, checkExtents, bind_eq_ok] at hextents
    obtain ⟨⟨⟩, hextent, hextents⟩ := hextents
    exact .cons (ofShape_of_level hlevel hextent)
      (forall₂_ofShape (Nat.succ.inj hlen) (Nat.succ.inj hlen') hlevels hextents)

theorem ValueArray.toList_ofArray (d : DataType) (cells : List d.Scalar) :
    (ofArray d cells.toArray).toList = cells.map (⟨d, ·⟩) := rfl

namespace Storage

variable {s : Storage} {f : Format} {dimensions : List Nat} {levels : List Level}

theorem levels_eq_ok : s.levels f = .ok levels ↔ f.ensureSupported = .ok () ∧ s.index.order = f.order ∧
    levelsFrom 0 (s.index.modes.zip f.types) = .ok levels := by
  simp only [Storage.levels, bind_eq_ok, error_bind, guard_eq_ok, Decidable.not_not]
  constructor
  · rintro ⟨⟨⟩, hsupported, horder, h⟩
    exact ⟨hsupported, horder, h⟩
  · rintro ⟨hsupported, horder, h⟩
    exact ⟨(), hsupported, horder, h⟩

/-- The levels of a storage that fits are of the format's types and of the dimensions' extents. -/
theorem forall₂_ofShape_of_levels (h : s.levels f = .ok levels)
    (hextents : checkExtents 0 (levels.zip (f.keyOf dimensions)) = .ok ()) :
    List.Forall₂ Level.OfShape levels (f.types.zip (f.keyOf dimensions)) := by
  obtain ⟨-, horder, h⟩ := levels_eq_ok.1 h
  exact forall₂_ofShape horder (f.length_keyOf dimensions).symm h hextents

theorem nestedEntries_eq_map (f : Format) (hn : LevelsNested levels 1 s.index.size)
    (hv : s.values.size = s.index.size) : s.nestedEntries f levels =
      (leavesBelow levels 0).map fun leaf => ⟨f.fromLevels leaf.1, (s.valueAt? leaf.2).getD (.zero s.dtype)⟩ := by
  refine filterMap_eq_map_of_some fun leaf hleaf => ?_
  obtain ⟨v, hvalue⟩ := Option.isSome_iff_exists.1 (isSome_valueAt? (hv ▸ lt_of_mem_leavesBelow hn hleaf))
  rw [hvalue]
  rfl

theorem values_toList (s : Storage) :
    (List.range s.values.size).map (fun k => (s.valueAt? k).getD (.zero s.dtype)) = s.values.toList := by
  refine List.ext_getElem (by simp [ValueArray.toList, ValueArray.size, Buffer.size]) fun k hk hk' => ?_
  simp only [List.length_map, List.length_range, ValueArray.size, Buffer.size] at hk
  simp [ValueArray.toList, valueAt?, ValueArray.get?, hk]

/-- The values of the entries are those of the storage. -/
theorem map_value_nestedEntries (f : Format) (hn : LevelsNested levels 1 s.index.size)
    (hv : s.values.size = s.index.size) : (s.nestedEntries f levels).map (·.value) = s.values.toList := by
  rw [nestedEntries_eq_map f hn hv, ← values_toList, hv, ← map_snd_leavesBelow hn, List.map_map, List.map_map]
  rfl

/-- The keys of the entries are the paths to the leaves. -/
theorem map_keyOf_nestedEntries (h : s.checkedLevels f = .ok levels)
    (hextents : checkExtents 0 (levels.zip (f.keyOf dimensions)) = .ok ()) :
    (s.nestedEntries f levels).map (fun e => f.keyOf e.coordinate) = pathsUnder levels [[]] := by
  obtain ⟨hl, hn, hv⟩ := levelsNested_of_checkedLevels h
  have horder := length_levels hl
  rw [nestedEntries_eq_map f hn hv, pathsUnder_root, List.map_map]
  refine List.map_congr_left fun leaf hleaf => Format.keyOf_fromLevels ?_
  obtain ⟨hlen, -⟩ := inBounds_of_mem_leavesBelow hn (horder.trans (f.length_keyOf dimensions).symm) hextents Nat.one_pos
    leaf hleaf
  exact hlen.trans horder

end Storage

namespace Packer

variable {p : Packer} {s : Storage} {levels : List Level} {records : List Entry}

/-- Entries with increasing keys resolve to themselves, in every order and under every policy. -/
theorem resolve_of_pairwise_keyOf (horder : p.format.order = p.dimensions.length) {es : List Entry}
    (hadmits : ∀ e ∈ es, p.Admits e) (hsorted : (es.map fun e => p.format.keyOf e.coordinate).Pairwise Coordinate.Before)
    (hperm : records.Perm es) : p.resolve [] records = .ok (es.map p.keyed) := by
  have hinOrder : InOrder (es.map p.keyed) := List.pairwise_map.2 (List.pairwise_map.1 hsorted)
  have hnodup : (es.map (·.coordinate)).Nodup := by
    refine List.pairwise_map.2 ((List.pairwise_map.1 hsorted).imp fun hbefore he => hbefore.2 ?_)
    rw [he]
  have hnodup' : (records.map (·.coordinate)).Nodup := (hperm.map _).nodup_iff.2 hnodup
  have hadmits' : ∀ e ∈ records, p.Admits e := fun e he => hadmits e (hperm.mem_iff.1 he)
  have hrecords := sortRecords_perm (nodup_keys_keyed horder hadmits' hnodup') (hperm.map p.keyed)
  rw [resolve_of_nodup horder hadmits' hnodup', hrecords, sortRecords_of_inOrder hinOrder]

/-- Records for all the leaves there are leave no leaf at zero. -/
theorem LaysOut.lay_of_leaves {out : List Record} {modes : List ModeIndex} (h : p.LaysOut out) (hc : p.check = .ok ())
    (hmodes : modesFrom (out.map (·.key)) 0 p.levelShapes [[]] = .ok modes) (hleaves : p.leaves out = out.map (·.key)) :
    ∃ s, p.lay out = .ok s ∧ s.index = ⟨modes, out.length⟩ ∧ s.dtype = p.dtype ∧
      s.values.toList = out.map (·.value) := by
  have hlay := lay_eq hc h
  rw [hmodes, ok_bind, hleaves, List.length_map] at hlay
  refine ⟨_, hlay, rfl, rfl, ?_⟩
  rw [ValueArray.toList_ofArray, List.map_map, List.map_map]
  exact List.map_congr_left fun r hr => h.valueOf_key hr

/-- **The entries of a canonical storage are packed to a storage with its arrays**, in every order and under every
policy. -/
theorem pack_nestedEntries (horder : p.format.order = p.dimensions.length) (hdimensions : ∀ d ∈ p.dimensions, d ≤ maxIndex)
    (hfits : s.checkFits p.format p.dimensions = .ok ()) (hdtype : s.dtype = p.dtype)
    (hlevels : s.checkedLevels p.format = .ok levels) (h : CanonicalLevels 0 1 levels)
    (hperm : records.Perm (s.nestedEntries p.format levels)) :
    ∃ s', p.pack records = .ok s' ∧ s'.index = ⟨levels.map Level.mode, s.index.size⟩ ∧ s'.dtype = s.dtype ∧
      s'.values.toList = s.values.toList := by
  obtain ⟨hl, hn, hv⟩ := Storage.levelsNested_of_checkedLevels hlevels
  obtain ⟨-, hcount, -⟩ := Storage.checkedLevels_eq_ok hlevels
  have hc := check_isOk horder (Storage.levels_eq_ok.1 hl).1 hdimensions
  have hextents : checkExtents 0 (levels.zip (p.format.keyOf p.dimensions)) = .ok () := by
    obtain ⟨levels', hlevels', hextents⟩ := (Storage.checkFits_eq_ok horder).1 hfits
    rw [hlevels] at hlevels'
    cases hlevels'
    exact hextents
  have hadmits : ∀ e ∈ s.nestedEntries p.format levels, p.Admits e := by
    obtain ⟨levels', hlevels', -, hall⟩ := Storage.entries_of_checkFits horder hfits
    rw [hlevels] at hlevels'
    cases hlevels'
    exact fun e he => ⟨(hall e he).1, (hall e he).2.2.trans hdtype, (hall e he).2.1⟩
  have hroot : ([[]] : List Coordinate).Pairwise Coordinate.Before := List.pairwise_singleton _ _
  have hdepth : ∀ x ∈ ([[]] : List Coordinate), x.length = 0 := by simp
  have hsorted : (pathsUnder levels [[]]).Pairwise Coordinate.Before :=
    pairwise_pathsUnder hn hroot hdepth fun level hlevel => h.pairwise_children hlevel
  -- the records resolve to the entries, whose keys are the paths to the leaves
  have hkeys := Storage.map_keyOf_nestedEntries hlevels hextents
  have hresolve := resolve_of_pairwise_keyOf horder hadmits (hkeys ▸ hsorted) hperm
  have hout : ((s.nestedEntries p.format levels).map p.keyed).map (·.key) = pathsUnder levels [[]] := by
    rw [← hkeys, List.map_map]
    rfl
  -- and so the levels come out again, with an entry for each leaf
  obtain ⟨hmodes, hleaves⟩ := modesFrom_pathsUnder hcount h (Storage.forall₂_ofShape_of_levels hl hextents) hroot hdepth
    hsorted
  rw [← hout] at hmodes hleaves
  obtain ⟨s', hlay, hindex, hdtype', hvalues⟩ := (resolve_eq_ok horder hresolve).laysOut.lay_of_leaves hc hmodes hleaves
  refine ⟨s', (merge_eq_lay hc hresolve).trans hlay, ?_, hdtype'.trans hdtype.symm, ?_⟩
  · rw [hindex, List.length_map, s.length_nestedEntries p.format hn hv]
  · rw [hvalues, List.map_map, ← Storage.map_value_nestedEntries p.format hn hv]
    rfl

theorem canonicalLevels_dense {extent : Nat} (h : extent ≤ maxIndex) : CanonicalLevels 0 1 [.dense extent] := by
  refine ⟨fun n count hcount => ?_, by simp, fun l positions coordinates hl => ?_⟩
  · rcases n with _ | n
    · cases hcount
      decide
    · rw [List.take_of_length_le (by simp)] at hcount
      have hword : 1 * extent < wordLimit := by
        simp only [maxIndex, wordLimit] at *
        omega
      rw [countLeaves, Level.countBelow, if_pos hword, Nat.one_mul] at hcount
      cases hcount
      exact h
  · rcases l with _ | l
    · cases hl
    · cases hl

/-- The levels of two rows in use, with two columns each. -/
theorem canonicalLevels_rows : CanonicalLevels 0 1 [.compressed #[0, 2] #[0, 2], .dense 2] := by
  refine ⟨fun n count hcount => ?_, fun positions coordinates hmem p hp => ?_, fun l positions coordinates hl q hq => ?_⟩
  · rcases n with _ | _ | n
    · cases hcount
      decide
    · cases hcount
      decide
    · rw [List.take_of_length_le (by simp)] at hcount
      cases hcount
      decide
  · obtain ⟨rfl, rfl⟩ : positions = #[0, 2] ∧ coordinates = #[0, 2] := by simpa using hmem
    obtain rfl : p = 0 := by simpa using hp
    decide
  · obtain rfl : l = 0 := by
      rcases l with _ | _ | l
      · rfl
      · cases hl
      · cases hl
    cases hl
    have hrow : q = 0 ∨ q = 1 := by
      simp only [List.size_toArray, List.length_cons, List.length_nil] at hq
      omega
    rcases hrow with rfl | rfl
    · decide
    · decide

/-- **Packing what a walk lists makes the storage again.**  A storage that fits, with canonical levels, is walked; its
entries are packed, in every order and under every policy, to a storage with the arrays that the levels were read from,
of the same size and with the same values. -/
theorem pack_canonical {f : Format} {dimensions : List Nat} (horder : f.order = dimensions.length)
    (hdimensions : ∀ d ∈ dimensions, d ≤ maxIndex) (hfits : s.checkFits f dimensions = .ok ())
    (hlevels : s.checkedLevels f = .ok levels) (h : CanonicalLevels 0 1 levels) :
    ∃ es, s.entries f = .ok es ∧ ∀ records, records.Perm es → ∀ policy,
      ∃ s', (⟨dimensions, f, s.dtype, policy⟩ : Packer).pack records = .ok s' ∧
        s'.index.modes.map ModeIndex.listed = List.zipWith ModeIndex.read s.index.modes f.types ∧
        s'.index.size = s.index.size ∧ s'.dtype = s.dtype ∧ s'.values.toList = s.values.toList := by
  refine ⟨_, Storage.entries_of_checkedLevels hlevels, fun records hperm policy => ?_⟩
  obtain ⟨hl, -, -⟩ := Storage.levelsNested_of_checkedLevels hlevels
  obtain ⟨s', hpack, hindex, hdtype, hvalues⟩ := pack_nestedEntries (p := ⟨dimensions, f, s.dtype, policy⟩) horder
    hdimensions hfits rfl hlevels h hperm
  refine ⟨s', hpack, ?_, by rw [hindex], hdtype, hvalues⟩
  rw [hindex]
  exact map_listed_levels (Storage.levels_eq_ok.1 hl).2.2

/-- Rows in use with all columns, in lent arrays and with entries that no level reads. -/
theorem pack_canonical_rows :
    let f : Format := ⟨[.compressed, .dense], [0, 1], rfl, by decide⟩
    let rows : ModeIndex := ⟨[⟨#[0, 2], .caller 0⟩, ⟨#[0, 2], .caller 1⟩, ⟨#[9], .engine⟩]⟩
    let s : Storage := ⟨⟨[rows, ⟨[⟨#[2, 7], .engine⟩]⟩], 4⟩, .ofArray .int32 #[0, 7, 6, 0]⟩
    let records : List Entry := [⟨[2, 1], ⟨.int32, (0 : Int32)⟩⟩, ⟨[0, 1], ⟨.int32, (7 : Int32)⟩⟩,
      ⟨[0, 0], ⟨.int32, (0 : Int32)⟩⟩, ⟨[2, 0], ⟨.int32, (6 : Int32)⟩⟩]
    let levels : List Level := [.compressed #[0, 2] #[0, 2], .dense 2]
    s.checkFits f [3, 2] = .ok () ∧ s.checkedLevels f = .ok levels ∧ CanonicalLevels 0 1 levels ∧
      ∃ s', (⟨[3, 2], f, .int32, .reject⟩ : Packer).pack records = .ok s' ∧
        s'.index.modes.map ModeIndex.listed = [[#[0, 2], #[0, 2]], [#[2]]] ∧ s'.values.toList = s.values.toList := by
  intro f rows s records levels
  have hlevels : s.checkedLevels f = .ok levels := by cbv
  have hfits : s.checkFits f [3, 2] = .ok () := by cbv
  obtain ⟨es, hes, hpack⟩ := pack_canonical (by decide) (by decide) hfits hlevels canonicalLevels_rows
  have hentries : s.entries f = .ok [⟨[0, 0], ⟨.int32, (0 : Int32)⟩⟩, ⟨[0, 1], ⟨.int32, (7 : Int32)⟩⟩,
      ⟨[2, 0], ⟨.int32, (6 : Int32)⟩⟩, ⟨[2, 1], ⟨.int32, (0 : Int32)⟩⟩] := by cbv
  rw [hentries] at hes
  cases hes
  obtain ⟨s', hs', hmodes, -, -, hvalues⟩ := hpack records (by decide) .reject
  exact ⟨hfits, hlevels, canonicalLevels_rows, s', hs', hmodes, hvalues⟩

/-- A dense level with an entry that it does not read, which packing leaves out; and a format of fewer levels than
there are dimensions, which packing refuses. -/
theorem pack_unread :
    let s : Storage := ⟨⟨[⟨[⟨#[2, 7], .engine⟩]⟩], 2⟩, .ofArray .int32 #[5, 6]⟩
    let es : List Entry := [⟨[0], ⟨.int32, (5 : Int32)⟩⟩, ⟨[1], ⟨.int32, (6 : Int32)⟩⟩]
    s.checkedLevels (.dense 1) = .ok [.dense 2] ∧ CanonicalLevels 0 1 [.dense 2] ∧ s.entries (.dense 1) = .ok es ∧
    (s.checkFits (.dense 1) [2] = .ok () ∧ ∃ s', (⟨[2], .dense 1, .int32, .reject⟩ : Packer).pack es = .ok s' ∧
      s'.index.modes.map ModeIndex.listed = [[#[2]]] ∧ s.index.modes.map ModeIndex.listed = [[#[2, 7]]]) ∧
    (s.checkFits (.dense 1) [2, 2] = .ok () ∧ (⟨[2, 2], .dense 1, .int32, .reject⟩ : Packer).pack es =
      .error (.refused (.invalidFormat (.tensorOrder 1 2)))) := by
  intro s es
  refine ⟨by cbv, canonicalLevels_dense (by decide), by cbv, ⟨by cbv, ?_⟩, by cbv, rfl⟩
  exact ⟨⟨⟨[.dense 2], 2⟩, .ofArray .int32 #[5, 6]⟩, by cbv, by decide, by decide⟩

end Packer

end TensorStorage
