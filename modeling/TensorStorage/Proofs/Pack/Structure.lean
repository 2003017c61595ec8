import TensorStorage.Proofs.Pack.RoundTrip
import TensorStorage.Proofs.Walk.Bounds
/-!
# Structure — the index arrays of a packed storage

What goes in determines the nodes of every level (`Packer.IsNode`), and these the arrays: a dense level lists its extent,
a compressed level the numbers of the nodes below and how many of them are below each node (`Segments`).  So a packed
storage has the arrays of its nodes (`Packer.nodes_of_merge`), and fits the dimensions it was packed for
(`Packer.checkFits_of_merge`).
-/
namespace TensorStorage

/-! ## One level among others -/

section Levels

variable {keys : List Coordinate}

theorem nodesAfter_append : ∀ (shapes rest : List (ModeType × Nat)) (depth : Nat) (nodes : List Coordinate),
    nodesAfter keys depth (shapes ++ rest) nodes =
      nodesAfter keys (depth + shapes.length) rest (nodesAfter keys depth shapes nodes)
  | [], _, _, _ => rfl
  | shape :: shapes, rest, depth, nodes => by
    rw [List.cons_append, nodesAfter, nodesAfter_append shapes rest, nodesAfter, List.length_cons, Nat.add_assoc,
      Nat.add_comm 1]

theorem KeysWithin.drop : ∀ {shapes : List (ModeType × Nat)} {depth n : Nat}, KeysWithin keys depth shapes →
    n ≤ shapes.length → KeysWithin keys (depth + n) (shapes.drop n)
  | _, _, 0, h, _ => h
  | shape :: shapes, depth, n + 1, h, hn => by
    have ih := h.tail.drop (Nat.le_of_succ_le_succ hn)
    rwa [Nat.add_assoc, Nat.add_comm 1] at ih

theorem fits_iff : ∀ {shapes : List (ModeType × Nat)} {depth : Nat} {nodes : List Coordinate},
    Fits keys depth shapes nodes ↔
      ∀ n ≤ shapes.length, (nodesAfter keys depth (shapes.take n) nodes).length ≤ maxIndex
  | [], _, _ => by simp [Fits, nodesAfter]
  | shape :: rest, depth, nodes => by
    rw [Fits, fits_iff]
    constructor
    · rintro ⟨hhead, htail⟩ n hn
      cases n with
      | zero => exact hhead
      | succ n => exact htail n (Nat.le_of_succ_le_succ hn)
    · intro h
      exact ⟨h 0 (Nat.zero_le _), fun n hn => h (n + 1) (Nat.succ_le_succ hn)⟩

theorem getElem?_modesFrom : ∀ {shapes : List (ModeType × Nat)} {depth : Nat} {nodes : List Coordinate}
    {modes : List ModeIndex}, modesFrom keys depth shapes nodes = .ok modes → ∀ {n : Nat} {shape : ModeType × Nat},
      shapes[n]? = some shape → ∃ mode, modes[n]? = some mode ∧
        modeBetween (depth + n) (nodesAfter keys depth (shapes.take n) nodes)
          (nodesAfter keys depth (shapes.take (n + 1)) nodes) shape = .ok mode
  | [], _, _, _, _, _, _, hn => by cases hn
  | shape :: rest, depth, nodes, modes, h, n, shape', hn => by
    simp only [modesFrom, bind_eq_ok] at h
    obtain ⟨mode, hmode, modes', hmodes, h⟩ := h
    cases h
    cases n with
    | zero =>
      cases hn
      exact ⟨mode, rfl, hmode⟩
    | succ n =>
      obtain ⟨mode', hmode', hat⟩ := getElem?_modesFrom hmodes hn
      rw [Nat.add_assoc, Nat.add_comm 1] at hat
      exact ⟨mode', hmode', hat⟩

/-! ## The arrays of a level -/

variable {nodes below : List Coordinate} {depth : Nat} {shape : ModeType × Nat} {rest : List (ModeType × Nat)}

/-- **The arrays of a compressed level between its nodes and the nodes below**, read as signed integers: the last number
of each node below, and how many nodes below there are before each node's own and in all.  In each segment the
coordinates increase. -/
structure Segments (positions coordinates : Array Int32) (nodes below : List Coordinate) : Prop where
  numbers : coordinates.toList.map (·.toInt) = below.map fun x => ((x.getLastD 0 : Nat) : Int)
  size : positions.size = nodes.length + 1
  first : positions[0]?.map (·.toInt) = some 0
  step : ∀ k node, nodes[k]? = some node → ∃ here next : Int32, positions[k]? = some here ∧
    positions[k + 1]? = some next ∧ next.toInt = here.toInt + below.countP (node.isPrefixOf ·)
  last : positions.back?.map (·.toInt) = some (coordinates.size : Int)
  increasing : ∀ k < nodes.length,
    (((Level.compressed positions coordinates).children k).map Prod.snd).Pairwise (· < ·)

/-- The arrays of a level between its nodes and the nodes below, for a level of this type and this extent. -/
def ModeIndex.ListsNodes (mode : ModeIndex) (shape : ModeType × Nat) (nodes below : List Coordinate) : Prop :=
  match shape with
  | (.dense, extent) => ∃ entry : Int32, mode = .dense entry ∧ entry.toInt = extent
  | (.compressed, _) => ∃ positions coordinates : Array Int32,
      mode = .compressed { data := positions } { data := coordinates } ∧ Segments positions coordinates nodes below
  | (.singleton, _) => False

theorem getLastD_eq_getD {x : Coordinate} (hx : x.length = depth + 1) : x.getLastD 0 = x.getD depth 0 := by
  conv => lhs; rw [← take_append_getD hx]
  rw [List.getLastD_eq_getLast?, List.getLast?_concat, Option.getD_some]

/-- The children of a node below a compressed level are those that it begins. -/
theorem countP_isPrefixOf {node : Coordinate} (hnode : node.length = depth) (below : List Coordinate) :
    below.countP (node.isPrefixOf ·) = (below.filter (·.take depth = node)).length := by
  rw [← List.countP_eq_length_filter]
  refine List.countP_congr fun x _ => ?_
  rw [List.isPrefixOf_iff_prefix, List.prefix_iff_eq_take, hnode, decide_eq_true_iff, eq_comm]

theorem lt_of_before_concat {a b : Nat} : ∀ {node : Coordinate},
    Coordinate.Before (node ++ [a]) (node ++ [b]) → a < b
  | [], h => (Coordinate.Before.cons_iff.1 h).resolve_right fun he => Coordinate.Before.irrefl _ he.2
  | _ :: _, h => lt_of_before_concat ((Coordinate.Before.cons_iff.1 h).resolve_left (Nat.lt_irrefl _)).2

theorem back?_positionArray (counts : List Nat) :
    (Layout.positionArray counts.toArray).back? = some (Int32.ofNat counts.sum) := by
  simp [positionArray_eq, List.range_succ]

theorem getElem?_positionArray (counts : List Nat) {k : Nat} (hk : k ≤ counts.length) :
    (Layout.positionArray counts.toArray)[k]? = some (Int32.ofNat (counts.take k).sum) := by
  rw [positionArray_eq, List.getElem?_toArray, List.getElem?_map, List.getElem?_range (Nat.lt_succ_of_le hk)]
  rfl

/-- **The arrays of a compressed level**, if there are no more nodes below than the entries can count. -/
theorem segments_of_fits (hsorted : keys.Pairwise Coordinate.Before)
    (hkeys : KeysWithin keys depth (shape :: rest)) (h : NodesAt keys depth nodes) (hextent : shape.2 ≤ maxIndex)
    (htype : shape.1 = .compressed) (hfit : (nodesBelow keys depth shape nodes).length ≤ maxIndex) :
    Segments
      (Layout.positionArray ((familiesOf nodes depth (nodesBelow keys depth shape nodes)).map List.length).toArray)
      ((nodesBelow keys depth shape nodes).map fun x => Int32.ofNat (x.getD depth 0)).toArray nodes
      (nodesBelow keys depth shape nodes) := by
  have hbelow := nodesAt_nodesBelow hsorted hkeys h
  have hsum := sum_length_familiesOf hsorted hkeys h
  have hchildren := fun k (hk : k < nodes.length) =>
    children_compressed hsorted hkeys h hextent htype hfit (List.getElem?_eq_getElem hk)
  have hcount : ∀ k (hk : k < nodes.length),
      ((familiesOf nodes depth (nodesBelow keys depth shape nodes)).map List.length)[k]? =
        some ((nodesBelow keys depth shape nodes).countP (nodes[k].isPrefixOf ·)) := fun k hk => by
    rw [countP_isPrefixOf (h.length _ (List.getElem_mem hk))]
    simp [familiesOf, hk]
  have hlen : ((familiesOf nodes depth (nodesBelow keys depth shape nodes)).map List.length).length = nodes.length := by
    simp [familiesOf]
  rw [levelBetween, if_pos htype] at hchildren
  generalize (familiesOf nodes depth (nodesBelow keys depth shape nodes)).map List.length = counts at *
  have hentry : ∀ k, (Int32.ofNat (counts.take k).sum).toInt = (counts.take k).sum := fun k =>
    toInt_ofNat (Nat.le_trans (sum_take_le_sum counts k) (hsum ▸ hfit))
  refine ⟨?_, by rw [size_positionArray, hlen], ?_, fun k node hnode => ?_, ?_, fun k hk => ?_⟩
  · rw [List.map_map]
    refine List.map_congr_left fun x hx => ?_
    rw [Function.comp_apply, toInt_numbers hkeys h hextent hx, getLastD_eq_getD (hbelow.length x hx)]
  · rw [getElem?_positionArray _ (Nat.zero_le _)]
    rfl
  · obtain ⟨hk, rfl⟩ := List.getElem?_eq_some_iff.1 hnode
    obtain ⟨hk', hat⟩ := List.getElem?_eq_some_iff.1 (hcount k hk)
    refine ⟨_, _, getElem?_positionArray counts (Nat.le_of_lt hk'), getElem?_positionArray counts hk', ?_⟩
    rw [hentry, hentry, List.take_succ_eq_append_getElem hk', List.sum_append, List.sum_singleton, hat]
    rfl
  · rw [back?_positionArray, Option.map_some, hsum, toInt_ofNat hfit]
    simp
  · -- the children of a node are its family, which is in order
    have hfamily := congrArg (List.map Prod.fst) (hchildren k hk)
    rw [List.zipIdx_map_fst, List.map_map] at hfamily
    have hin := hbelow.inOrder.filter (·.take depth = nodes[k])
    rw [← hfamily, List.pairwise_map] at hin
    exact List.pairwise_map.2 (hin.imp lt_of_before_concat)

theorem listsNodes_of_fits {mode : ModeIndex} (hsorted : keys.Pairwise Coordinate.Before)
    (hkeys : KeysWithin keys depth (shape :: rest)) (h : NodesAt keys depth nodes) (hextent : shape.2 ≤ maxIndex)
    (hfit : (nodesBelow keys depth shape nodes).length ≤ maxIndex)
    (hmode : modeBetween depth nodes (nodesBelow keys depth shape nodes) shape = .ok mode) :
    mode.ListsNodes shape nodes (nodesBelow keys depth shape nodes) := by
  obtain ⟨type, extent⟩ := shape
  cases type with
  | dense =>
    rw [modeBetween, guard_eq_ok] at hmode
    cases hmode.2
    exact ⟨_, rfl, toInt_ofNat hextent⟩
  | compressed =>
    cases hmode
    exact ⟨_, _, rfl, segments_of_fits hsorted hkeys h hextent rfl hfit⟩
  | singleton => cases hmode

/-! ## Extents -/

theorem checkExtent_levelBetween (hkeys : KeysWithin keys depth (shape :: rest)) (h : NodesAt keys depth nodes)
    (hextent : shape.2 ≤ maxIndex) (number : Nat) :
    (levelBetween depth nodes (nodesBelow keys depth shape nodes) shape).checkExtent number shape.2 = .ok () := by
  by_cases htype : shape.1 = .compressed
  · have hnone : ((nodesBelow keys depth shape nodes).map fun x => Int32.ofNat (x.getD depth 0)).toArray.find?
        (fun c => (shape.2 : Int) ≤ c.toInt) = none := Array.find?_eq_none.2 fun c hc => by
      obtain ⟨x, hx, rfl⟩ := List.mem_map.1 (List.mem_toArray.1 hc)
      obtain ⟨-, hlt, hbound⟩ := parent_of_mem_nodesBelow hkeys h hx
      rw [toInt_numbers hkeys h hextent hx, List.getD_eq_getElem?_getD, List.getElem?_eq_getElem hlt,
        Option.getD_some, decide_eq_true_iff]
      omega
    rw [levelBetween, if_pos htype, Level.checkExtent, hnone]
  · rw [levelBetween, if_neg htype, Level.checkExtent]
    exact if_neg fun hne => hne rfl

/-- **Levels that were laid out stay within their extents.** -/
theorem checkExtents_levelsBetween (hsorted : keys.Pairwise Coordinate.Before) : ∀ {shapes : List (ModeType × Nat)}
    {depth : Nat} {nodes : List Coordinate}, KeysWithin keys depth shapes → NodesAt keys depth nodes →
      (∀ shape ∈ shapes, shape.2 ≤ maxIndex) →
      checkExtents depth ((levelsBetween keys depth shapes nodes).zip (shapes.map Prod.snd)) = .ok ()
  | [], _, _, _, _, _ => rfl
  | shape :: rest, depth, nodes, hkeys, h, hextent => by
    rw [levelsBetween, List.map_cons, List.zip_cons_cons, checkExtents,
      checkExtent_levelBetween hkeys h (hextent shape List.mem_cons_self) depth, ok_bind]
    exact checkExtents_levelsBetween hsorted hkeys.tail (nodesAt_nodesBelow hsorted hkeys h)
      fun s hs => hextent s (List.mem_cons_of_mem _ hs)

end Levels

/-! ## Storages -/

theorem Format.ensureSupported_eq_ok {f : Format} :
    f.ensureSupported = .ok () ↔ ∀ type ∈ f.types, type.isSupported = true := by
  have hnone : f.unsupported? = none ↔ ∀ type ∈ f.types, type.isSupported = true := by
    rw [unsupported?, List.find?_eq_none]
    constructor
    · intro h type htype
      obtain ⟨i, hi⟩ := List.mem_iff_getElem?.1 htype
      simpa using h (type, i) (List.mem_zipIdx_iff_getElem?.2 hi)
    · intro h q hq
      simpa using h q.1 (List.fst_mem_of_mem_zipIdx hq)
  rw [← hnone, ensureSupported]
  cases f.unsupported? with
  | none => simp
  | some q => simp

namespace Packer

variable {p : Packer} {stored records entries : List Entry} {out : List Record} {s : Storage}

/-- **The nodes of a level, by what went in**: the root is the only one above the outermost level.  Below a dense level
are all numbers below its extent, under each node; below a compressed level what the keys of the entries begin with. -/
def IsNode (p : Packer) (entries : List Entry) : Nat → Coordinate → Prop
  | 0, x => x = []
  | l + 1, x =>
    match p.levelShapes[l]? with
    | some (.dense, extent) => ∃ node, p.IsNode entries l node ∧ ∃ i < extent, x = node ++ [i]
    | some (.compressed, _) => ∃ e ∈ entries, x = (p.format.keyOf e.coordinate).take (l + 1)
    | _ => False

/-- The nodes above a level of the storage of some records. -/
def nodes (p : Packer) (records : List Record) (l : Nat) : List Coordinate :=
  nodesAfter (records.map (·.key)) 0 (p.levelShapes.take l) [[]]

theorem nodes_order (p : Packer) (records : List Record) : p.nodes records p.format.order = p.leaves records := by
  rw [nodes, leaves, List.take_of_length_le (Nat.le_of_eq p.length_levelShapes)]

theorem nodes_succ (p : Packer) (records : List Record) {l : Nat} {shape : ModeType × Nat}
    (hl : p.levelShapes[l]? = some shape) :
    p.nodes records (l + 1) = nodesBelow (records.map (·.key)) l shape (p.nodes records l) := by
  have hle : l ≤ p.levelShapes.length := Nat.le_of_lt (List.getElem?_eq_some_iff.1 hl).1
  rw [nodes, List.take_add_one, hl, Option.toList_some, nodesAfter_append, List.length_take_of_le hle, Nat.zero_add]
  rfl

theorem LaysOut.keysWithin_drop (h : p.LaysOut out) {l : Nat} {shape : ModeType × Nat}
    (hl : p.levelShapes[l]? = some shape) :
    KeysWithin (out.map (·.key)) l (shape :: p.levelShapes.drop (l + 1)) := by
  obtain ⟨hlt, rfl⟩ := List.getElem?_eq_some_iff.1 hl
  have := h.keysWithin.drop (Nat.le_of_lt hlt)
  rwa [Nat.zero_add, List.drop_eq_getElem_cons hlt] at this

theorem exists_levelShape {l : Nat} (hl : l < p.format.order) :
    ∃ shape, p.levelShapes[l]? = some shape ∧ shape.1 ∈ p.format.types := by
  have hlt : l < p.levelShapes.length := by rwa [length_levelShapes]
  refine ⟨_, List.getElem?_eq_getElem hlt, ?_⟩
  rw [← map_fst_levelShapes]
  exact List.mem_map_of_mem (List.getElem_mem hlt)

theorem LaysOut.nodesAt (h : p.LaysOut out) : ∀ {l : Nat}, l ≤ p.format.order →
    NodesAt (out.map (·.key)) l (p.nodes out l)
  | 0, _ => nodesAt_root _
  | l + 1, hl => by
    obtain ⟨shape, hshape, -⟩ := exists_levelShape hl
    rw [nodes_succ p out hshape]
    exact nodesAt_nodesBelow h.sorted (h.keysWithin_drop hshape) (h.nodesAt (Nat.le_of_succ_le hl))

/-- **The nodes that records lead to are those of the entries they come from.** -/
theorem Resolved.mem_nodes_iff (h : p.Resolved stored records out)
    (hsupported : p.format.ensureSupported = .ok ()) : ∀ {l : Nat}, l ≤ p.format.order → ∀ {x : Coordinate},
      x ∈ p.nodes out l ↔ p.IsNode (stored ++ records) l x
  | 0, _, x => List.mem_singleton
  | l + 1, hl, x => by
    obtain ⟨⟨type, extent⟩, hshape, htype⟩ := exists_levelShape hl
    have hmem := fun node => h.mem_nodes_iff hsupported (Nat.le_of_succ_le hl) (x := node)
    rw [nodes_succ p out hshape, IsNode, hshape]
    cases type with
    | dense =>
      rw [nodesBelow_of_ne (by simp), mem_children]
      constructor
      · rintro ⟨node, hnode, hx⟩
        exact ⟨node, (hmem node).1 hnode, hx⟩
      · rintro ⟨node, hnode, hx⟩
        exact ⟨node, (hmem node).2 hnode, hx⟩
    | compressed =>
      rw [nodesBelow_compressed, mem_runHeads_none, List.map_map, List.mem_map]
      constructor
      · rintro ⟨r, hr, rfl⟩
        obtain ⟨e, he, hk⟩ := h.exists_entry hr
        exact ⟨e, he, by rw [← hk]; rfl⟩
      · rintro ⟨e, he, rfl⟩
        obtain ⟨r, hr, hk⟩ := h.occurs e he
        exact ⟨r, hr, by rw [← hk]; rfl⟩
    | singleton => exact absurd (Format.ensureSupported_eq_ok.1 hsupported _ htype) Bool.false_ne_true

theorem FitsEntries.length_nodes_le (h : p.FitsEntries out) {l : Nat} (hl : l ≤ p.format.order) :
    (p.nodes out l).length ≤ maxIndex :=
  fits_iff.1 h l (by rwa [length_levelShapes])

/-- **The arrays of a storage whose counts fit** are those of its nodes. -/
theorem listsNodes_of_lay (hc : p.check = .ok ()) (h : p.LaysOut out) (hlay : p.lay out = .ok s)
    (hfits : p.FitsEntries out) {l : Nat} {shape : ModeType × Nat} (hl : p.levelShapes[l]? = some shape) :
    ∃ mode, s.index.modes[l]? = some mode ∧ mode.ListsNodes shape (p.nodes out l) (p.nodes out (l + 1)) := by
  obtain ⟨modes, hmodes, rfl⟩ := lay_eq_ok hc h hlay
  obtain ⟨mode, hmode, hbetween⟩ := getElem?_modesFrom hmodes hl
  have hlt : l < p.format.order := by
    rw [← length_levelShapes]
    exact (List.getElem?_eq_some_iff.1 hl).1
  have hfit := FitsEntries.length_nodes_le hfits hlt
  have hbelow := nodes_succ p out hl
  rw [Nat.zero_add, ← nodes, ← nodes, hbelow] at hbetween
  rw [hbelow] at hfit ⊢
  exact ⟨mode, hmode, listsNodes_of_fits h.sorted (h.keysWithin_drop hl) (h.nodesAt (Nat.le_of_lt hlt))
    (extent_le hc shape (List.mem_of_getElem? hl)) hfit hbetween⟩

theorem length_modes_of_lay (hc : p.check = .ok ()) (h : p.LaysOut out) (hlay : p.lay out = .ok s) :
    s.index.modes.length = p.format.order := by
  obtain ⟨modes, hmodes, rfl⟩ := lay_eq_ok hc h hlay
  rw [← length_levelShapes]
  exact (levelsFrom_modesFrom (extent_le hc) hmodes).2

/-- The slot of a leaf holds the leaf's value. -/
theorem valueAt?_of_lay (hc : p.check = .ok ()) (h : p.LaysOut out) (hlay : p.lay out = .ok s) {k : Nat}
    {x : Coordinate} (hx : (p.leaves out)[k]? = some x) : s.valueAt? k = some (p.valueOf out x) := by
  obtain ⟨modes, -, rfl⟩ := lay_eq_ok hc h hlay
  have hslot : ((p.leaves out).map (scalarAt p.dtype out)).toArray[k]? = some (scalarAt p.dtype out x) := by
    rw [List.getElem?_toArray, List.getElem?_map, hx]
    rfl
  show ((((p.leaves out).map (scalarAt p.dtype out)).toArray[k]?).map _) = _
  rw [hslot]
  rfl

theorem checkFits_of_lay (hc : p.check = .ok ()) (h : p.LaysOut out) (hlay : p.lay out = .ok s)
    (hfits : p.FitsEntries out) : s.checkFits p.format p.dimensions = .ok () := by
  have hextents := checkExtents_levelsBetween h.sorted h.keysWithin (nodesAt_root _) (extent_le hc)
  rw [map_snd_levelShapes] at hextents
  exact (Storage.checkFits_eq_ok (check_eq_ok hc).1).2 ⟨_, checkedLevels_of_lay hc h hlay hfits, hextents⟩

/-- **A packed storage fits the dimensions it was packed for.** -/
theorem checkFits_of_merge (h : p.merge stored records = .ok s)
    (hcount : ((stored ++ records).map (·.coordinate)).eraseDups.length ≤ maxIndex) :
    s.checkFits p.format p.dimensions = .ok () := by
  obtain ⟨hc, out, hresolve, hlay⟩ := merge_eq_ok h
  have hout := resolve_eq_ok (check_eq_ok hc).1 hresolve
  exact checkFits_of_lay hc hout.laysOut hlay (hout.fitsEntries hc hlay hcount)

/-- **The arrays of a packed storage.**  If at most as many different coordinates as the largest index occur, then each
level of the storage lists the nodes that the entries determine, in storage order; there are as many positions and
values as innermost nodes; the slot of such a node holds what the stored value and the new values at its coordinate come
to; and the storage fits the dimensions. -/
theorem nodes_of_merge (hstored : (stored.map (·.coordinate)).Nodup) (h : p.merge stored records = .ok s)
    (hcount : ((stored ++ records).map (·.coordinate)).eraseDups.length ≤ maxIndex) :
    ∃ nodes : Nat → List Coordinate,
      (∀ l ≤ p.format.order, (nodes l).Pairwise Coordinate.Before ∧
        ∀ x, x ∈ nodes l ↔ p.IsNode (stored ++ records) l x) ∧
      s.index.modes.length = p.format.order ∧
      (∀ l shape, p.levelShapes[l]? = some shape →
        ∃ mode : ModeIndex, s.index.modes[l]? = some mode ∧ mode.ListsNodes shape (nodes l) (nodes (l + 1))) ∧
      s.index.size = (nodes p.format.order).length ∧ s.values.size = (nodes p.format.order).length ∧
      (∀ k x, (nodes p.format.order)[k]? = some x → ∃ v, s.valueAt? k = some v ∧
        p.policy.packed? p.dtype (valuesAt stored (p.format.fromLevels x)).head?
          (valuesAt records (p.format.fromLevels x)) = some v) ∧
      s.checkFits p.format p.dimensions = .ok () := by
  obtain ⟨hc, out, hresolve, hlay⟩ := merge_eq_ok h
  obtain ⟨horder, hsupported, -⟩ := check_eq_ok hc
  have hout := resolve_eq_ok horder hresolve
  have hfits := hout.fitsEntries hc hlay hcount
  refine ⟨p.nodes out, fun l hl => ⟨(hout.laysOut.nodesAt hl).inOrder, fun x => hout.mem_nodes_iff hsupported hl⟩,
    length_modes_of_lay hc hout.laysOut hlay, fun l shape hl => listsNodes_of_lay hc hout.laysOut hlay hfits hl,
    ?_, ?_, fun k x hx => ?_, checkFits_of_lay hc hout.laysOut hlay hfits⟩
  · obtain ⟨modes, -, rfl⟩ := lay_eq_ok hc hout.laysOut hlay
    rw [nodes_order]
  · obtain ⟨modes, -, rfl⟩ := lay_eq_ok hc hout.laysOut hlay
    rw [nodes_order]
    simp [ValueArray.ofArray, ValueArray.size, Buffer.size]
  · rw [nodes_order] at hx
    exact ⟨_, valueAt?_of_lay hc hout.laysOut hlay hx,
      hout.valueOf_eq hstored (hout.laysOut.nodesAt_leaves.length x (List.mem_of_getElem? hx))⟩

/-- A dense level below a compressed one: the rows in use, each of them with all columns. -/
theorem nodes_of_merge_rows :
    let p : Packer := ⟨[3, 2], ⟨[.compressed, .dense], [0, 1], rfl, by decide⟩, .int32, .sum⟩
    let stored : List Entry := [⟨[2, 0], ⟨.int32, (5 : Int32)⟩⟩]
    let records : List Entry := [⟨[0, 1], ⟨.int32, (7 : Int32)⟩⟩, ⟨[2, 0], ⟨.int32, (1 : Int32)⟩⟩]
    let s : Storage := ⟨⟨[.compressed { data := #[0, 2] } { data := #[0, 2] }, .dense 2], 4⟩,
      .ofArray .int32 #[0, 7, 6, 0]⟩
    (stored.map (·.coordinate)).Nodup ∧ p.merge stored records = .ok s ∧
      ((stored ++ records).map (·.coordinate)).eraseDups.length ≤ maxIndex ∧
      ∃ nodes : Nat → List Coordinate, (nodes 2).length = 4 ∧ [2, 1] ∈ nodes 2 ∧
        s.checkFits p.format p.dimensions = .ok () := by
  intro p stored records s
  have hmerge : p.merge stored records = .ok s := by cbv
  obtain ⟨nodes, hnodes, -, -, hsize, -, -, hfits⟩ := nodes_of_merge (by decide) hmerge (by decide)
  have hnode : p.IsNode (stored ++ records) 2 [2, 1] := ⟨[2], ⟨_, List.mem_cons_self, rfl⟩, 1, by decide, rfl⟩
  exact ⟨by decide, hmerge, by decide, nodes, hsize.symm, ((hnodes 2 (by decide)).2 _).2 hnode, hfits⟩

end Packer

end TensorStorage
