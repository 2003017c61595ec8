import TensorStorage.Proofs.Pack.Keys
import TensorStorage.Proofs.Pack.Order
/-!
# Nodes — the positions of each level, named by the numbers that lead to them

A node of a level is the list of the numbers that lead to a position, from the outermost level in; the root is the empty
list.  Laying out sorted keys makes nodes in storage order (`NodesAt`): below a dense level every number below the
extent, under every node; below a compressed level what the keys begin with.  `mem_nodesAfter` says which nodes there
are below some levels: those in bounds that agree with a key up to the last compressed level.
-/
namespace TensorStorage

/-- A list without the elements that repeat the one before them; `last` stands before the first. -/
def runHeads (last : Option Coordinate) : List Coordinate → List Coordinate
  | [] => []
  | x :: rest => if last = some x then runHeads last rest else x :: runHeads (some x) rest

theorem mem_runHeads : ∀ {last : Option Coordinate} {l : List Coordinate} {x : Coordinate}, x ∈ runHeads last l →
    x ∈ l
  | _, [], _, h => by cases h
  | last, y :: rest, x, h => by
    rw [runHeads] at h
    split at h
    · exact List.mem_cons_of_mem _ (mem_runHeads h)
    · rcases List.mem_cons.1 h with rfl | h
      · exact List.mem_cons_self
      · exact List.mem_cons_of_mem _ (mem_runHeads h)

theorem mem_runHeads_of_mem : ∀ {last : Option Coordinate} {l : List Coordinate} {x : Coordinate}, x ∈ l →
    last = some x ∨ x ∈ runHeads last l
  | last, y :: rest, x, h => by
    rw [runHeads]
    split
    · rename_i hy
      rcases List.mem_cons.1 h with rfl | h
      · exact .inl hy
      · exact mem_runHeads_of_mem h
    · rcases List.mem_cons.1 h with rfl | h
      · exact .inr List.mem_cons_self
      · rcases (mem_runHeads_of_mem h : some y = some x ∨ x ∈ runHeads (some y) rest) with he | h
        · cases he
          exact .inr List.mem_cons_self
        · exact .inr (List.mem_cons_of_mem _ h)

theorem mem_runHeads_none {l : List Coordinate} {x : Coordinate} : x ∈ runHeads none l ↔ x ∈ l :=
  ⟨mem_runHeads, fun h => (mem_runHeads_of_mem h).resolve_left (fun he => by cases he)⟩

theorem length_runHeads_le : ∀ (last : Option Coordinate) (l : List Coordinate), (runHeads last l).length ≤ l.length
  | _, [] => Nat.le_refl _
  | last, x :: rest => by
    rw [runHeads]
    split
    · exact Nat.le_succ_of_le (length_runHeads_le last rest)
    · exact Nat.succ_le_succ (length_runHeads_le (some x) rest)

/-- In a sorted list nothing comes twice but in a row, so the heads of the runs are in order. -/
theorem pairwise_runHeads : ∀ (last : Option Coordinate) {l : List Coordinate},
    l.Pairwise (fun a b => Coordinate.le a b = true) →
    (∀ y ∈ last, ∀ x ∈ l, y.le x = true) →
    (runHeads last l).Pairwise Coordinate.Before ∧ ∀ y ∈ last, ∀ x ∈ runHeads last l, y.Before x
  | _, [], _, _ => ⟨List.Pairwise.nil, fun _ _ _ hx => by cases hx⟩
  | last, x :: rest, hs, hlast => by
    rw [runHeads]
    split
    · exact pairwise_runHeads last hs.of_cons fun y hy z hz => hlast y hy z (List.mem_cons_of_mem _ hz)
    · rename_i hne
      obtain ⟨hp, hx⟩ := pairwise_runHeads (some x) hs.of_cons fun y hy z hz => by
        cases hy
        exact List.rel_of_pairwise_cons hs hz
      refine ⟨List.pairwise_cons.2 ⟨hx x rfl, hp⟩, fun y hy z hz => ?_⟩
      have hyx : y.Before x := ⟨hlast y hy x List.mem_cons_self, fun he => hne (he ▸ hy)⟩
      rcases List.mem_cons.1 hz with rfl | hz
      · exact hyx
      · exact hyx.trans (hx x rfl z hz)

theorem pairwise_stems {keys : List Coordinate} (hsorted : keys.Pairwise Coordinate.Before) (n : Nat) :
    (runHeads none (keys.map (·.take n))).Pairwise Coordinate.Before := by
  have hle : (keys.map (·.take n)).Pairwise fun a b => Coordinate.le a b = true :=
    List.pairwise_map.2 (hsorted.imp fun hab => Coordinate.take_le_take n hab.1)
  exact (pairwise_runHeads none hle fun _ hy => absurd hy (Option.not_mem_none _)).1

/-! ## Levels -/

/-- The nodes below a level, from the nodes above it; `depth` is the number of levels above. -/
def nodesBelow (keys : List Coordinate) (depth : Nat) (shape : ModeType × Nat) (nodes : List Coordinate) :
    List Coordinate :=
  match shape.1 with
  | .compressed => runHeads none (keys.map (·.take (depth + 1)))
  | .dense | .singleton => nodes.flatMap fun node => (List.range shape.2).map fun c => node ++ [c]

theorem nodesBelow_of_ne {keys nodes : List Coordinate} {depth : Nat} {shape : ModeType × Nat}
    (h : shape.1 ≠ .compressed) : nodesBelow keys depth shape nodes =
      nodes.flatMap fun node => (List.range shape.2).map fun c => node ++ [c] := by
  obtain ⟨type, extent⟩ := shape
  cases type with
  | compressed => exact absurd rfl h
  | dense => rfl
  | singleton => rfl

theorem nodesBelow_compressed (keys nodes : List Coordinate) (depth extent : Nat) :
    nodesBelow keys depth (.compressed, extent) nodes = runHeads none (keys.map (·.take (depth + 1))) := rfl

theorem length_nodesBelow_of_ne {keys nodes : List Coordinate} {depth : Nat} {shape : ModeType × Nat}
    (h : shape.1 ≠ .compressed) : (nodesBelow keys depth shape nodes).length = nodes.length * shape.2 := by
  simp only [nodesBelow_of_ne h, List.length_flatMap, List.length_map, List.length_range, List.map_const',
    List.sum_replicate_nat]

/-- The nodes below some levels, from the nodes above them. -/
def nodesAfter (keys : List Coordinate) (depth : Nat) : List (ModeType × Nat) → List Coordinate → List Coordinate
  | [], nodes => nodes
  | shape :: rest, nodes => nodesAfter keys (depth + 1) rest (nodesBelow keys depth shape nodes)

/-- The number of levels up to the last compressed one; 0 if there is none. -/
def pinnedLevels : List ModeType → Nat
  | [] => 0
  | type :: rest => if pinnedLevels rest ≠ 0 ∨ type = .compressed then pinnedLevels rest + 1 else 0

/-- **Nodes of a level**: in storage order, one number for each level above, and one node for each key. -/
structure NodesAt (keys : List Coordinate) (depth : Nat) (nodes : List Coordinate) : Prop where
  inOrder : nodes.Pairwise Coordinate.Before
  length : ∀ x ∈ nodes, x.length = depth
  covers : ∀ k ∈ keys, k.take depth ∈ nodes

/-- Keys with a number for each level, and these in the bounds of the levels to come. -/
def KeysWithin (keys : List Coordinate) (depth : Nat) (shapes : List (ModeType × Nat)) : Prop :=
  ∀ k ∈ keys, k.length = depth + shapes.length ∧ Coordinate.inBounds (k.drop depth) (shapes.map Prod.snd) = true

theorem nodesAt_root (keys : List Coordinate) : NodesAt keys 0 [[]] where
  inOrder := List.pairwise_singleton _ _
  length x hx := by rw [List.mem_singleton.1 hx]; rfl
  covers k _ := by simp

theorem NodesAt.nodup {keys nodes : List Coordinate} {depth : Nat} (h : NodesAt keys depth nodes) : nodes.Nodup :=
  h.inOrder.imp fun hab => hab.2

/-- Bounds from a level on: the number at the level, and the numbers after it. -/
theorem inBounds_drop {x : Coordinate} {depth extent : Nat} {extents : List Nat} (hx : depth < x.length) :
    Coordinate.inBounds (x.drop depth) (extent :: extents) = true ↔
      x[depth] < extent ∧ Coordinate.inBounds (x.drop (depth + 1)) extents = true := by
  rw [List.drop_eq_getElem_cons hx, Coordinate.inBounds_cons]

theorem KeysWithin.number {keys : List Coordinate} {depth : Nat} {shape : ModeType × Nat}
    {rest : List (ModeType × Nat)} (h : KeysWithin keys depth (shape :: rest)) {k : Coordinate} (hk : k ∈ keys) :
    ∃ hlt : depth < k.length, k[depth] < shape.2 := by
  obtain ⟨hlen, hin⟩ := h k hk
  rw [List.length_cons] at hlen
  have hlt : depth < k.length := by omega
  rw [List.map_cons, inBounds_drop hlt] at hin
  exact ⟨hlt, hin.1⟩

theorem KeysWithin.tail {keys : List Coordinate} {depth : Nat} {shape : ModeType × Nat}
    {rest : List (ModeType × Nat)} (h : KeysWithin keys depth (shape :: rest)) : KeysWithin keys (depth + 1) rest := by
  intro k hk
  obtain ⟨hlt, -⟩ := h.number hk
  obtain ⟨hlen, hin⟩ := h k hk
  rw [List.map_cons, inBounds_drop hlt] at hin
  rw [List.length_cons] at hlen
  exact ⟨by omega, hin.2⟩

theorem mem_children {nodes : List Coordinate} {extent : Nat} {x : Coordinate} :
    x ∈ (nodes.flatMap fun node => (List.range extent).map fun c => node ++ [c]) ↔
      ∃ node ∈ nodes, ∃ c < extent, x = node ++ [c] := by
  simp only [List.mem_flatMap, List.mem_map, List.mem_range, eq_comm]

theorem pairwise_children {nodes : List Coordinate} {depth : Nat} (hs : nodes.Pairwise Coordinate.Before)
    (hlen : ∀ x ∈ nodes, x.length = depth) (extent : Nat) :
    (nodes.flatMap fun node => (List.range extent).map fun c => node ++ [c]).Pairwise Coordinate.Before := by
  rw [List.pairwise_flatMap]
  constructor
  · intro node _
    rw [List.pairwise_map]
    refine List.pairwise_lt_range.imp fun hlt => ?_
    exact Coordinate.Before.append_left (Coordinate.Before.cons_iff.2 (.inl hlt)) node
  · refine (List.pairwise_iff_forall_sublist.2 fun {a b} hab => ?_)
    have ha : a ∈ nodes := hab.subset List.mem_cons_self
    have hb : b ∈ nodes := hab.subset (by simp)
    have hbefore : Coordinate.Before a b := List.pairwise_iff_forall_sublist.1 hs hab
    intro x hx y hy
    obtain ⟨c, -, rfl⟩ := List.mem_map.1 hx
    obtain ⟨d, -, rfl⟩ := List.mem_map.1 hy
    exact Coordinate.Before.append (by rw [hlen a ha, hlen b hb]) hbefore [c] [d]

/-- **A level takes nodes to nodes.** -/
theorem nodesAt_nodesBelow {keys nodes : List Coordinate} {depth : Nat} {shape : ModeType × Nat}
    {rest : List (ModeType × Nat)} (hsorted : keys.Pairwise Coordinate.Before)
    (hkeys : KeysWithin keys depth (shape :: rest)) (h : NodesAt keys depth nodes) :
    NodesAt keys (depth + 1) (nodesBelow keys depth shape nodes) := by
  by_cases htype : shape.1 = .compressed
  · obtain ⟨type, extent⟩ := shape
    obtain rfl : type = .compressed := htype
    rw [nodesBelow_compressed]
    refine ⟨pairwise_stems hsorted (depth + 1), fun x hx => ?_, fun k hk => ?_⟩
    · obtain ⟨k, hk, rfl⟩ := List.mem_map.1 (mem_runHeads hx)
      obtain ⟨hlt, -⟩ := hkeys.number hk
      rw [List.length_take]
      omega
    · exact mem_runHeads_none.2 (List.mem_map_of_mem hk)
  · rw [nodesBelow_of_ne htype]
    refine ⟨pairwise_children h.inOrder h.length shape.2, fun x hx => ?_, fun k hk => ?_⟩
    · obtain ⟨node, hnode, c, -, rfl⟩ := mem_children.1 hx
      rw [List.length_append, h.length node hnode]
      rfl
    · obtain ⟨hlt, hc⟩ := hkeys.number hk
      exact mem_children.2 ⟨_, h.covers k hk, _, hc, List.take_succ_eq_append_getElem hlt⟩

/-- Each node below a level has a node above for its parent, and a number below the extent. -/
theorem parent_of_mem_nodesBelow {keys nodes : List Coordinate} {depth : Nat} {shape : ModeType × Nat}
    {rest : List (ModeType × Nat)} (hkeys : KeysWithin keys depth (shape :: rest)) (h : NodesAt keys depth nodes)
    {x : Coordinate} (hx : x ∈ nodesBelow keys depth shape nodes) :
    x.take depth ∈ nodes ∧ ∃ hlt : depth < x.length, x[depth] < shape.2 := by
  by_cases htype : shape.1 = .compressed
  · obtain ⟨type, extent⟩ := shape
    obtain rfl : type = .compressed := htype
    rw [nodesBelow_compressed] at hx
    obtain ⟨k, hk, rfl⟩ := List.mem_map.1 (mem_runHeads hx)
    obtain ⟨hlt, hc⟩ := hkeys.number hk
    refine ⟨?_, by rw [List.length_take]; omega, by simpa using hc⟩
    rw [List.take_take, Nat.min_eq_left (Nat.le_succ depth)]
    exact h.covers k hk
  · rw [nodesBelow_of_ne htype] at hx
    obtain ⟨node, hnode, c, hc, rfl⟩ := mem_children.1 hx
    have hlen := h.length node hnode
    refine ⟨?_, by rw [List.length_append, List.length_singleton]; omega, ?_⟩
    · rwa [List.take_left' hlen]
    · simpa [List.getElem_append, hlen] using hc

theorem nodesAt_nodesAfter {keys : List Coordinate} (hsorted : keys.Pairwise Coordinate.Before) :
    ∀ {shapes : List (ModeType × Nat)} {depth : Nat} {nodes : List Coordinate}, KeysWithin keys depth shapes →
      NodesAt keys depth nodes → NodesAt keys (depth + shapes.length) (nodesAfter keys depth shapes nodes)
  | [], _, _, _, h => h
  | shape :: rest, depth, nodes, hkeys, h => by
    have := nodesAt_nodesAfter hsorted hkeys.tail (nodesAt_nodesBelow hsorted hkeys h)
    rwa [Nat.add_right_comm] at this

/-- The condition on the nodes below some levels: agreement with a key up to the last compressed level, or, when there
is none, with a node above. -/
def Pinned (keys : List Coordinate) (depth pinned : Nat) (nodes : List Coordinate) (x : Coordinate) : Prop :=
  if pinned = 0 then x.take depth ∈ nodes else ∃ k ∈ keys, k.take (depth + pinned) = x.take (depth + pinned)

theorem take_eq_of_le {k x : Coordinate} {m n : Nat} (hmn : m ≤ n) (h : k.take n = x.take n) : k.take m = x.take m := by
  have := congrArg (List.take m) h
  rwa [List.take_take, List.take_take, Nat.min_eq_left hmn] at this

theorem KeysWithin.number_lt {keys : List Coordinate} {depth n : Nat} {shape : ModeType × Nat}
    {rest : List (ModeType × Nat)} (h : KeysWithin keys depth (shape :: rest)) {k x : Coordinate} (hk : k ∈ keys)
    (hn : depth < n) (he : k.take n = x.take n) (hx : depth < x.length) : x[depth] < shape.2 := by
  obtain ⟨hlt, hc⟩ := h.number hk
  have he := congrArg (fun l => l[depth]?) he
  simp only [List.getElem?_take_of_lt hn, List.getElem?_eq_getElem hlt, List.getElem?_eq_getElem hx,
    Option.some.injEq] at he
  rwa [← he]

theorem pinned_nodesBelow {keys nodes : List Coordinate} {depth : Nat} {shape : ModeType × Nat}
    {rest : List (ModeType × Nat)} (hkeys : KeysWithin keys depth (shape :: rest)) {x : Coordinate}
    (hx : depth < x.length) :
    Pinned keys (depth + 1) (pinnedLevels (rest.map Prod.fst)) (nodesBelow keys depth shape nodes) x ↔
      x[depth] < shape.2 ∧ Pinned keys depth (pinnedLevels ((shape :: rest).map Prod.fst)) nodes x := by
  simp only [Pinned, List.map_cons, pinnedLevels]
  by_cases hr : pinnedLevels (rest.map Prod.fst) = 0
  · by_cases htype : shape.1 = .compressed
    · obtain ⟨type, extent⟩ := shape
      obtain rfl : type = .compressed := htype
      simp only [hr, nodesBelow_compressed, if_true, or_true, Nat.zero_add, mem_runHeads_none, List.mem_map,
        if_neg Nat.one_ne_zero]
      exact ⟨fun ⟨k, hk, he⟩ => ⟨hkeys.number_lt hk (Nat.lt_succ_self _) he hx, k, hk, he⟩, fun h => h.2⟩
    · simp only [hr, htype, ne_eq, not_true_eq_false, or_self, if_true, if_false, nodesBelow_of_ne htype, mem_children,
        List.take_succ_eq_append_getElem hx]
      constructor
      · rintro ⟨node, hnode, c, hc, he⟩
        obtain ⟨hn, he⟩ := List.append_inj' he rfl
        obtain rfl : x[depth] = c := List.singleton_inj.1 he
        exact ⟨hc, hn ▸ hnode⟩
      · rintro ⟨hc, hnode⟩
        exact ⟨_, hnode, _, hc, rfl⟩
  · simp only [hr, ne_eq, not_false_eq_true, true_or, if_true, if_false, Nat.add_right_comm depth 1, Nat.add_assoc,
      Nat.add_eq_zero_iff, false_and]
    exact ⟨fun ⟨k, hk, he⟩ => ⟨hkeys.number_lt hk (by omega) he hx, k, hk, he⟩, fun h => h.2⟩

/-- **The nodes below some levels** are the coordinates in bounds that agree with a key up to the last compressed
level. -/
theorem mem_nodesAfter {keys : List Coordinate} (hsorted : keys.Pairwise Coordinate.Before) :
    ∀ {shapes : List (ModeType × Nat)} {depth : Nat} {nodes : List Coordinate}, KeysWithin keys depth shapes →
      NodesAt keys depth nodes → ∀ (x : Coordinate), x ∈ nodesAfter keys depth shapes nodes ↔
        x.length = depth + shapes.length ∧ Coordinate.inBounds (x.drop depth) (shapes.map Prod.snd) = true ∧
          Pinned keys depth (pinnedLevels (shapes.map Prod.fst)) nodes x
  | [], depth, nodes, _, h, x => by
    simp only [nodesAfter, List.length_nil, Nat.add_zero, List.map_nil, pinnedLevels, Pinned, if_true]
    constructor
    · intro hx
      have hlen := h.length x hx
      refine ⟨hlen, ?_, ?_⟩
      · simp [Coordinate.inBounds]
      · rwa [List.take_of_length_le (Nat.le_of_eq hlen)]
    · rintro ⟨hlen, -, hx⟩
      rwa [List.take_of_length_le (Nat.le_of_eq hlen)] at hx
  | shape :: rest, depth, nodes, hkeys, h, x => by
    rw [nodesAfter, mem_nodesAfter hsorted hkeys.tail (nodesAt_nodesBelow hsorted hkeys h), List.length_cons]
    by_cases hx : depth < x.length
    · rw [pinned_nodesBelow hkeys hx, List.map_cons, List.map_cons, inBounds_drop hx, ← Nat.add_assoc,
        Nat.add_right_comm]
      constructor
      · rintro ⟨hlen, hin, hc, hp⟩
        exact ⟨hlen, ⟨hc, hin⟩, hp⟩
      · rintro ⟨hlen, ⟨hc, hin⟩, hp⟩
        exact ⟨hlen, hin, hc, hp⟩
    · constructor
      · rintro ⟨hlen, -⟩
        omega
      · rintro ⟨hlen, -⟩
        omega

/-! ## Keys that begin alike -/

/-- Keys that begin alike, in their first `n` numbers. -/
def SameStems (n : Nat) (keys keys' : List Coordinate) : Prop :=
  ∀ x, (∃ k ∈ keys, k.take n = x) ↔ ∃ k ∈ keys', k.take n = x

theorem SameStems.of_le {m n : Nat} {keys keys' : List Coordinate} (hmn : m ≤ n) (h : SameStems n keys keys') :
    SameStems m keys keys' := by
  have half : ∀ {keys keys' : List Coordinate}, SameStems n keys keys' → ∀ x, (∃ k ∈ keys, k.take m = x) →
      ∃ k ∈ keys', k.take m = x := by
    rintro keys keys' h x ⟨k, hk, rfl⟩
    obtain ⟨k', hk', he⟩ := (h _).1 ⟨k, hk, rfl⟩
    exact ⟨k', hk', take_eq_of_le hmn he⟩
  exact fun x => ⟨half h x, half (fun x => (h x).symm) x⟩

/-- Keys that begin alike up to the last compressed level, if there is one; `depth` levels are above. -/
def SamePinned (depth : Nat) (types : List ModeType) (keys keys' : List Coordinate) : Prop :=
  pinnedLevels types = 0 ∨ SameStems (depth + pinnedLevels types) keys keys'

theorem SamePinned.tail {depth : Nat} {type : ModeType} {types : List ModeType} {keys keys' : List Coordinate}
    (h : SamePinned depth (type :: types) keys keys') : SamePinned (depth + 1) types keys keys' := by
  by_cases h0 : pinnedLevels types = 0
  · exact .inl h0
  · have hpinned : pinnedLevels (type :: types) = pinnedLevels types + 1 := by simp [pinnedLevels, h0]
    refine .inr ((h.resolve_left (by omega)).of_le ?_)
    omega

theorem nodesBelow_congr {keys keys' nodes : List Coordinate} {depth : Nat} {shape : ModeType × Nat}
    {types : List ModeType} (hs : keys.Pairwise Coordinate.Before) (hs' : keys'.Pairwise Coordinate.Before)
    (h : SamePinned depth (shape.1 :: types) keys keys') :
    nodesBelow keys depth shape nodes = nodesBelow keys' depth shape nodes := by
  by_cases htype : shape.1 = .compressed
  · obtain ⟨type, extent⟩ := shape
    obtain rfl : type = .compressed := htype
    have hpinned : pinnedLevels (.compressed :: types) = pinnedLevels types + 1 := by simp [pinnedLevels]
    have hstems : SameStems (depth + 1) keys keys' := by
      rw [SamePinned, hpinned] at h
      exact (h.resolve_left (Nat.succ_ne_zero _)).of_le (by omega)
    refine Coordinate.eq_of_mem_iff (pairwise_stems hs (depth + 1)) (pairwise_stems hs' (depth + 1)) fun x => ?_
    simp only [nodesBelow_compressed, mem_runHeads_none, List.mem_map]
    exact hstems x
  · rw [nodesBelow_of_ne htype, nodesBelow_of_ne htype]

theorem nodesAfter_congr {keys keys' : List Coordinate} (hs : keys.Pairwise Coordinate.Before)
    (hs' : keys'.Pairwise Coordinate.Before) : ∀ {shapes : List (ModeType × Nat)} {depth : Nat}
    {nodes : List Coordinate}, SamePinned depth (shapes.map Prod.fst) keys keys' →
      nodesAfter keys depth shapes nodes = nodesAfter keys' depth shapes nodes
  | [], _, _, _ => rfl
  | shape :: rest, depth, nodes, h => by
    rw [nodesAfter, nodesAfter, nodesBelow_congr hs hs' h, nodesAfter_congr hs hs' h.tail]

end TensorStorage
