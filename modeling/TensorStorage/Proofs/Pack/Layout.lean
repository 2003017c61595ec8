import TensorStorage.Proofs.Outcome
import TensorStorage.Proofs.Pack.Nodes
import TensorStorage.Pack.Merge
/-!
# Layout — records at their nodes

On their way through the levels the records stand at their nodes: the position of a record is the number of its node
among those of the level (`Layout.at`).  So laying out makes arrays that the nodes determine (`modesFrom`), and
records that lead to the same nodes make the same arrays.
-/
namespace TensorStorage

variable {keys nodes : List Coordinate} {depth extent : Nat} {records : List Record}

/-! ## Places in lists -/

/-- A child's place: the children of the nodes before its parent, and the children before it. -/
theorem idxOf_children {node : Coordinate} {c : Nat} (hc : c < extent) : ∀ {nodes : List Coordinate}, node ∈ nodes →
    (nodes.flatMap fun node => (List.range extent).map fun c => node ++ [c]).idxOf (node ++ [c]) =
      nodes.idxOf node * extent + c
  | [], h => by cases h
  | a :: nodes, h => by
    rw [List.flatMap_cons, List.idxOf_append]
    by_cases ha : a = node
    · subst ha
      have hmem : a ++ [c] ∈ (List.range extent).map fun c => a ++ [c] :=
        List.mem_map_of_mem (List.mem_range.2 hc)
      rw [if_pos hmem, List.idxOf_cons_self, Nat.zero_mul, Nat.zero_add]
      have := List.getElem_idxOf (List.idxOf_lt_length_of_mem hmem)
      rw [List.getElem_map, List.getElem_range] at this
      exact List.singleton_inj.1 (List.append_cancel_left this)
    · have hnot : ¬ node ++ [c] ∈ (List.range extent).map fun c => a ++ [c] := fun hmem => by
        obtain ⟨d, -, hd⟩ := List.mem_map.1 hmem
        exact ha (List.append_inj' hd rfl).1
      have hmem : node ∈ nodes := (List.mem_cons.1 h).resolve_left (Ne.symm ha)
      rw [if_neg hnot, idxOf_children hc hmem, List.idxOf_cons, List.length_map, List.length_range]
      simp only [cond_false, beq_eq_false_iff_ne.2 ha]
      rw [Nat.succ_mul]
      omega

theorem idxOf_concat {l m : List Coordinate} {x : Coordinate} (h : (l ++ x :: m).Nodup) :
    (l ++ x :: m).idxOf x = l.length := by
  have hx : x ∉ l := fun hmem => (List.nodup_append.1 h).2.2 x hmem x List.mem_cons_self rfl
  rw [List.idxOf_append, if_neg hx, List.idxOf_cons_self, Nat.zero_add]

theorem idxOf_getLast {l m : List Coordinate} {x : Coordinate} (hx : l.getLast? = some x) (h : (l ++ m).Nodup) :
    (l ++ m).idxOf x = l.length - 1 := by
  obtain ⟨init, rfl⟩ := List.getLast?_eq_some_iff.1 hx
  rw [List.append_assoc, List.singleton_append] at h ⊢
  rw [idxOf_concat h, List.length_append]
  rfl

theorem idxOf_inj {l : List Coordinate} {x y : Coordinate} (hx : x ∈ l) (hy : y ∈ l) :
    l.idxOf x = l.idxOf y ↔ x = y := by
  constructor
  · intro h
    have h1 := List.getElem_idxOf (List.idxOf_lt_length_of_mem hx)
    have h2 := List.getElem_idxOf (List.idxOf_lt_length_of_mem hy)
    simp only [h] at h1
    rw [← h1, h2]
  · rintro rfl
    rfl

/-! ## Records at their nodes -/

def Record.at (r : Record) (nodes : List Coordinate) (depth : Nat) : PlacedRecord :=
  ⟨nodes.idxOf (r.key.take depth), r.key.drop depth, r.value⟩

def Layout.at (nodes : List Coordinate) (depth : Nat) (records : List Record) : Layout :=
  ⟨nodes.length, records.map (·.at nodes depth)⟩

theorem Layout.root_eq (records : List Record) : Layout.root records = Layout.at [[]] 0 records := by
  simp [Layout.root, Layout.at, Record.at]

/-- A node as a child: the place of its parent, and its number. -/
def childOf (nodes : List Coordinate) (depth : Nat) (x : Coordinate) : Nat × Nat :=
  (nodes.idxOf (x.take depth), x.getD depth 0)

theorem childOf_take {x : Coordinate} (hx : depth < x.length) :
    childOf nodes depth (x.take (depth + 1)) = (nodes.idxOf (x.take depth), x[depth]) := by
  unfold childOf
  rw [List.take_take, Nat.min_eq_left (Nat.le_succ depth)]
  simp [List.getD, hx]

/-- A node is that of its parent and its number. -/
theorem take_append_getD {x : Coordinate} (hx : x.length = depth + 1) : x.take depth ++ [x.getD depth 0] = x := by
  have hlt : depth < x.length := by omega
  rw [List.getD_eq_getElem?_getD, List.getElem?_eq_getElem hlt, Option.getD_some,
    ← List.take_succ_eq_append_getElem hlt, List.take_of_length_le (Nat.le_of_eq hx)]

theorem childOf_inj {x y : Coordinate} (hx : x.length = depth + 1) (hy : y.length = depth + 1)
    (hxm : x.take depth ∈ nodes) (hym : y.take depth ∈ nodes) :
    childOf nodes depth x = childOf nodes depth y ↔ x = y := by
  constructor
  · intro h
    unfold childOf at h
    rw [Prod.mk.injEq, idxOf_inj hxm hym] at h
    rw [← take_append_getD hx, ← take_append_getD hy, h.1, h.2]
  · rintro rfl
    rfl

/-! ## Dense levels -/

theorem placeDense?_at {rest : List (ModeType × Nat)} (hkeys : KeysWithin keys depth ((.dense, extent) :: rest))
    (h : NodesAt keys depth nodes) (hcount : nodes.length * extent ≤ maxIndex) {r : Record} (hr : r.key ∈ keys) :
    Layout.placeDense? extent (r.at nodes depth) =
      some (r.at (nodesBelow keys depth (.dense, extent) nodes) (depth + 1)) := by
  obtain ⟨hlt, hc⟩ := hkeys.number hr
  have hmem := h.covers r.key hr
  have hle : (nodes.idxOf (r.key.take depth) + 1) * extent ≤ nodes.length * extent :=
    Nat.mul_le_mul_right _ (List.idxOf_lt_length_of_mem hmem)
  rw [Nat.succ_mul] at hle
  have hword : nodes.idxOf (r.key.take depth) * extent + r.key[depth] < wordLimit := by
    simp only [wordLimit]
    simp only [maxIndex] at hcount
    omega
  simp only [Layout.placeDense?, Record.at, List.drop_eq_getElem_cons hlt, nodesBelow,
    List.take_succ_eq_append_getElem hlt, idxOf_children hc hmem, Nat.mod_eq_of_lt hword]

theorem Layout.descendDense_eq {s : Layout} {placed : List PlacedRecord}
    (h : s.placed.mapM (placeDense? extent) = some placed) :
    s.descendDense extent =
      if maxIndex < s.count * extent then .error (.refused (.indexOverflow (saturated (s.count * extent))))
      else .ok (.dense (Int32.ofNat extent), ⟨s.count * extent, placed⟩) := by
  simp only [descendDense, h, Outcome.liftM_option, Outcome.ofOption_some, ok_bind]
  split <;> rfl

theorem descendDense_at {rest : List (ModeType × Nat)}
    (hkeys : KeysWithin (records.map (·.key)) depth ((.dense, extent) :: rest))
    (h : NodesAt (records.map (·.key)) depth nodes) :
    (Layout.at nodes depth records).descendDense extent =
      if maxIndex < nodes.length * extent then .error (.refused (.indexOverflow (saturated (nodes.length * extent))))
      else .ok (.dense (Int32.ofNat extent),
        Layout.at (nodesBelow (records.map (·.key)) depth (.dense, extent) nodes) (depth + 1) records) := by
  by_cases hcount : maxIndex < nodes.length * extent
  · have hsome : (Layout.at nodes depth records).placed.mapM (Layout.placeDense? extent) =
        some ((Layout.at nodes depth records).placed.map fun p =>
          ⟨(p.position * extent + p.ahead.headD 0) % wordLimit, p.ahead.tail, p.value⟩) := by
      refine mapM_eq_pure fun p hp => ?_
      obtain ⟨r, hr, rfl⟩ := List.mem_map.1 hp
      obtain ⟨hlt, -⟩ := hkeys.number (List.mem_map_of_mem hr)
      simp only [Layout.placeDense?, Record.at, List.drop_eq_getElem_cons hlt]
      rfl
    rw [Layout.descendDense_eq hsome, if_pos hcount]
    exact if_pos hcount
  · have hsome : (Layout.at nodes depth records).placed.mapM (Layout.placeDense? extent) =
        some (records.map (·.at (nodesBelow (records.map (·.key)) depth (.dense, extent) nodes) (depth + 1))) := by
      rw [Layout.at, List.mapM_map]
      exact mapM_eq_pure fun r hr => placeDense?_at hkeys h (Nat.le_of_not_lt hcount) (List.mem_map_of_mem hr)
    rw [Layout.descendDense_eq hsome, if_neg hcount, Layout.at, Layout.at, length_nodesBelow_of_ne (by simp)]
    exact if_neg hcount

/-! ## Compressed levels -/

/-- A node that is not the last of some nodes is not its child either. -/
theorem getLast?_childOf_ne {before : List Coordinate} {x : Coordinate} (hlen : ∀ y ∈ before, y.length = depth + 1)
    (hparent : ∀ y ∈ before, y.take depth ∈ nodes) (hx : x.length = depth + 1) (hxm : x.take depth ∈ nodes)
    (hne : before.getLast? ≠ some x) :
    before.getLast?.map (childOf nodes depth) ≠ some (childOf nodes depth x) := by
  intro he
  obtain ⟨y, hy, he⟩ := Option.map_eq_some_iff.1 he
  have hmem : y ∈ before := List.mem_of_getLast? hy
  obtain rfl := (childOf_inj (hlen y hmem) hx (hparent y hmem) hxm).1 he
  exact hne hy

/-- Placing sorted records: `before` are the nodes made so far, the last of which is the node of the record before. -/
theorem placeCompressed?_at {below : List Coordinate} : ∀ (records : List Record) (before : List Coordinate),
    below = before ++ runHeads before.getLast? (records.map fun r => r.key.take (depth + 1)) → below.Nodup →
    (∀ x ∈ below, x.length = depth + 1) → (∀ x ∈ below, x.take depth ∈ nodes) →
    (∀ r ∈ records, depth < r.key.length) →
      Layout.placeCompressed? (before.getLast?.map (childOf nodes depth)) before.length
          (records.map (·.at nodes depth)) =
        some ((below.drop before.length).map (childOf nodes depth), records.map (·.at below (depth + 1)))
  | [], before, hbelow, _, _, _, _ => by
    simp only [List.map_nil, runHeads, List.append_nil] at hbelow
    rw [hbelow, List.drop_length]
    rfl
  | r :: records, before, hbelow, hnodup, hlen, hparent, hlong => by
    have hlt : depth < r.key.length := hlong r List.mem_cons_self
    have hlong' : ∀ r ∈ records, depth < r.key.length := fun r hr => hlong r (List.mem_cons_of_mem _ hr)
    rw [List.map_cons, runHeads] at hbelow
    simp only [List.map_cons, Layout.placeCompressed?, Record.at, List.drop_eq_getElem_cons hlt, ← childOf_take hlt]
    by_cases hx : before.getLast? = some (r.key.take (depth + 1))
    -- the record stands at the last node made so far
    · rw [if_pos hx] at hbelow
      have hlast : before.getLast?.map (childOf nodes depth) = some (childOf nodes depth (r.key.take (depth + 1))) := by
        rw [hx]
        rfl
      have ih := placeCompressed?_at records before hbelow hnodup hlen hparent hlong'
      have hplace : below.idxOf (r.key.take (depth + 1)) = before.length - 1 := by
        rw [hbelow, idxOf_getLast hx (hbelow ▸ hnodup)]
      simp only [Record.at] at ih
      rw [if_pos hlast]
      simp only [ih, Option.bind_eq_bind, Option.bind_some, hplace]
    -- the record opens a node
    · rw [if_neg hx] at hbelow
      have hmem : r.key.take (depth + 1) ∈ below := by rw [hbelow]; simp
      have hlast := getLast?_childOf_ne (fun x hxm => hlen x (hbelow ▸ List.mem_append_left _ hxm))
        (fun x hxm => hparent x (hbelow ▸ List.mem_append_left _ hxm)) (hlen _ hmem) (hparent _ hmem) hx
      have ih := placeCompressed?_at records (before ++ [r.key.take (depth + 1)])
        (by rw [hbelow]; simp) hnodup hlen hparent hlong'
      have hplace : below.idxOf (r.key.take (depth + 1)) = before.length := by
        rw [hbelow, idxOf_concat (hbelow ▸ hnodup)]
      have hdrop : below.drop before.length = r.key.take (depth + 1) :: below.drop (before.length + 1) := by
        rw [hbelow]; simp
      simp only [List.getLast?_append, List.getLast?_singleton, Option.some_or, Option.map_some, List.length_append,
        List.length_singleton, Record.at] at ih
      rw [if_neg hlast]
      simp only [ih, Option.bind_eq_bind, Option.bind_some, hplace, hdrop, List.map_cons]

theorem foldlM_childCounts : ∀ (children : List (Nat × Nat)) (counts : Array Nat),
    (∀ child ∈ children, child.1 < counts.size) →
    children.foldlM (fun counts child =>
      if child.1 < counts.size then some (counts.modify child.1 (· + 1)) else none) counts =
        some (counts.mapIdx fun i n => n + children.countP (·.1 = i))
  | [], counts, _ => by
    rw [List.foldlM_nil]
    exact congrArg some (Array.ext (by simp) fun i _ _ => by simp)
  | child :: children, counts, h => by
    have hchild : child.1 < counts.size := h child List.mem_cons_self
    rw [List.foldlM_cons, if_pos hchild, Option.bind_eq_bind, Option.bind_some,
      foldlM_childCounts children _ fun c hc => by
        rw [Array.size_modify]
        exact h c (List.mem_cons_of_mem _ hc)]
    refine congrArg some (Array.ext (by simp) fun i hi hi' => ?_)
    simp only [Array.getElem_mapIdx, Array.getElem_modify, List.countP_cons, decide_eq_true_eq]
    split <;> omega

/-- The children of each node, in order. -/
def familiesOf (nodes : List Coordinate) (depth : Nat) (below : List Coordinate) : List (List Coordinate) :=
  nodes.map fun node => below.filter (·.take depth = node)

theorem childCounts?_at {below : List Coordinate} (hnodup : nodes.Nodup) (hparent : ∀ x ∈ below, x.take depth ∈ nodes) :
    Layout.childCounts? nodes.length (below.map (childOf nodes depth)) =
      some ((familiesOf nodes depth below).map List.length).toArray := by
  rw [Layout.childCounts?, foldlM_childCounts _ _ fun child hchild => by
    obtain ⟨x, hx, rfl⟩ := List.mem_map.1 hchild
    rw [Array.size_replicate]
    exact List.idxOf_lt_length_of_mem (hparent x hx)]
  refine congrArg some (Array.ext (by simp [familiesOf]) fun i hi _ => ?_)
  simp only [Array.size_mapIdx, Array.size_replicate] at hi
  simp only [Array.getElem_mapIdx, Array.getElem_replicate, Nat.zero_add, List.countP_map, familiesOf, List.map_map,
    List.getElem_toArray, List.getElem_map, Function.comp_apply, ← List.countP_eq_length_filter]
  refine List.countP_congr fun x hx => ?_
  have hi' : nodes.idxOf nodes[i] = i := hnodup.idxOf_getElem i hi
  rw [Function.comp_apply, decide_eq_true_iff, decide_eq_true_iff, ← idxOf_inj (hparent x hx) (List.getElem_mem hi),
    hi']
  rfl

theorem descendCompressed_at {rest : List (ModeType × Nat)} (hsorted : (records.map (·.key)).Pairwise Coordinate.Before)
    (hkeys : KeysWithin (records.map (·.key)) depth ((.compressed, extent) :: rest))
    (h : NodesAt (records.map (·.key)) depth nodes) :
    (Layout.at nodes depth records).descendCompressed =
      .ok (.compressed
          { data := Layout.positionArray ((familiesOf nodes depth
              (nodesBelow (records.map (·.key)) depth (.compressed, extent) nodes)).map List.length).toArray }
          { data := ((nodesBelow (records.map (·.key)) depth (.compressed, extent) nodes).map
              fun x => Int32.ofNat (x.getD depth 0)).toArray },
        Layout.at (nodesBelow (records.map (·.key)) depth (.compressed, extent) nodes) (depth + 1) records) := by
  have hbelow := nodesAt_nodesBelow hsorted hkeys h
  have hlong : ∀ r ∈ records, depth < r.key.length := fun r hr => (hkeys.number (List.mem_map_of_mem hr)).1
  have hparent := fun x hx => (parent_of_mem_nodesBelow (x := x) hkeys h hx).1
  have heq : nodesBelow (records.map (·.key)) depth (.compressed, extent) nodes =
      [] ++ runHeads ([] : List Coordinate).getLast? (records.map fun r => r.key.take (depth + 1)) := by
    simp [nodesBelow, Function.comp_def]
  generalize nodesBelow (records.map (·.key)) depth (.compressed, extent) nodes = below at hbelow hparent heq ⊢
  have hplaced := placeCompressed?_at records [] heq hbelow.nodup hbelow.length hparent hlong
  simp only [List.getLast?_nil, Option.map_none, List.length_nil, List.drop_zero] at hplaced
  simp only [Layout.descendCompressed, Layout.at, hplaced, childCounts?_at h.nodup hparent, Outcome.liftM_option,
    Outcome.ofOption_some, ok_bind, List.length_map, List.map_toArray, List.map_map]
  rfl

/-! ## All levels -/

/-- The arrays of a level between its nodes and the nodes below. -/
def modeBetween (depth : Nat) (nodes below : List Coordinate) : ModeType × Nat → Outcome ModeIndex
  | (.dense, extent) =>
    if maxIndex < nodes.length * extent then .error (.refused (.indexOverflow (saturated (nodes.length * extent))))
    else .ok (.dense (Int32.ofNat extent))
  | (.compressed, _) =>
    .ok (.compressed { data := Layout.positionArray ((familiesOf nodes depth below).map List.length).toArray }
      { data := (below.map fun x => Int32.ofNat (x.getD depth 0)).toArray })
  | (.singleton, _) => .error (.refused (.unsupportedModeType .singleton depth))

/-- The arrays of some levels, from the nodes above them. -/
def modesFrom (keys : List Coordinate) (depth : Nat) :
    List (ModeType × Nat) → List Coordinate → Outcome (List ModeIndex)
  | [], _ => .ok []
  | shape :: rest, nodes => do
    let mode ← modeBetween depth nodes (nodesBelow keys depth shape nodes) shape
    let modes ← modesFrom keys (depth + 1) rest (nodesBelow keys depth shape nodes)
    return mode :: modes

theorem descend_at {shape : ModeType × Nat} {rest : List (ModeType × Nat)}
    (hsorted : (records.map (·.key)).Pairwise Coordinate.Before)
    (hkeys : KeysWithin (records.map (·.key)) depth (shape :: rest)) (h : NodesAt (records.map (·.key)) depth nodes) :
    (Layout.at nodes depth records).descend shape.1 depth shape.2 = (do
      return (← modeBetween depth nodes (nodesBelow (records.map (·.key)) depth shape nodes) shape,
        Layout.at (nodesBelow (records.map (·.key)) depth shape nodes) (depth + 1) records)) := by
  obtain ⟨type, extent⟩ := shape
  cases type with
  | dense =>
    simp only [Layout.descend, descendDense_at hkeys h, modeBetween]
    split <;> rfl
  | compressed =>
    simp only [Layout.descend, descendCompressed_at hsorted hkeys h, modeBetween]
    rfl
  | singleton => rfl

/-- **The arrays that laying out makes are those of the nodes**, and the records end at their nodes. -/
theorem descendAll_at (hsorted : (records.map (·.key)).Pairwise Coordinate.Before) :
    ∀ {shapes : List (ModeType × Nat)} {depth : Nat} {nodes : List Coordinate},
      KeysWithin (records.map (·.key)) depth shapes → NodesAt (records.map (·.key)) depth nodes →
      Layout.descendAll depth shapes (Layout.at nodes depth records) = (do
        return (← modesFrom (records.map (·.key)) depth shapes nodes,
          Layout.at (nodesAfter (records.map (·.key)) depth shapes nodes) (depth + shapes.length) records))
  | [], _, _, _, _ => rfl
  | shape :: rest, depth, nodes, hkeys, h => by
    rw [Layout.descendAll, descend_at hsorted hkeys h, modesFrom, nodesAfter, List.length_cons]
    have ih := descendAll_at hsorted hkeys.tail (nodesAt_nodesBelow hsorted hkeys h)
    cases modeBetween depth nodes (nodesBelow (records.map (·.key)) depth shape nodes) shape with
    | error e => rfl
    | ok mode =>
      simp only [ok_bind, pure_eq_ok, ih]
      cases modesFrom (records.map (·.key)) (depth + 1) rest (nodesBelow (records.map (·.key)) depth shape nodes) with
      | error e => rfl
      | ok modes =>
        rw [Nat.add_right_comm]
        rfl

theorem modesFrom_congr {keys keys' : List Coordinate} (hs : keys.Pairwise Coordinate.Before)
    (hs' : keys'.Pairwise Coordinate.Before) : ∀ {shapes : List (ModeType × Nat)} {depth : Nat}
    {nodes : List Coordinate}, SamePinned depth (shapes.map Prod.fst) keys keys' →
      modesFrom keys depth shapes nodes = modesFrom keys' depth shapes nodes
  | [], _, _, _ => rfl
  | shape :: rest, depth, nodes, h => by
    rw [modesFrom, modesFrom, nodesBelow_congr hs hs' h, modesFrom_congr hs hs' h.tail]

end TensorStorage
