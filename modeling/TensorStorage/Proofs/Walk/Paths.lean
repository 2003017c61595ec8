import TensorStorage.Proofs.Pack.Order
import TensorStorage.Proofs.Walk.Nesting
/-!
# Paths — the numbers that lead to the positions of a level

A level takes the nodes above it, in the order of their positions, to the nodes below in the order of theirs
(`Level.Nested.zipIdx_nodesUnder`).  Where the coordinates of siblings increase, nodes stay in storage order, down to the
leaves (`pairwise_pathsUnder`).
-/
namespace TensorStorage

/-- The nodes below a level, from the nodes above it: those of the children of each position. -/
def Level.nodesUnder (level : Level) (nodes : List Coordinate) : List Coordinate :=
  nodes.zipIdx.flatMap fun p => (level.children p.2).map fun child => p.1 ++ [child.2]

/-- The leaves below some levels, from the nodes above them. -/
def pathsUnder (levels : List Level) (nodes : List Coordinate) : List Coordinate :=
  nodes.zipIdx.flatMap fun p => (leavesBelow levels p.2).map fun leaf => p.1 ++ leaf.1

variable {level : Level} {levels : List Level} {nodes : List Coordinate} {above below depth leaves : Nat}

theorem mem_nodesUnder {x : Coordinate} :
    x ∈ level.nodesUnder nodes ↔ ∃ p ∈ nodes.zipIdx, ∃ child ∈ level.children p.2, x = p.1 ++ [child.2] := by
  simp only [Level.nodesUnder, List.mem_flatMap, List.mem_map, eq_comm]

theorem length_of_mem_nodesUnder (hlen : ∀ x ∈ nodes, x.length = depth) {x : Coordinate}
    (hx : x ∈ level.nodesUnder nodes) : x.length = depth + 1 := by
  obtain ⟨p, hp, child, -, rfl⟩ := mem_nodesUnder.1 hx
  rw [List.length_append, hlen p.1 (List.fst_mem_of_mem_zipIdx hp), List.length_singleton]

theorem flatMap_zipIdx {β : Type} (g : Nat → List β) :
    nodes.zipIdx.flatMap (fun p => g p.2) = (List.range nodes.length).flatMap g := by
  rw [List.range_eq_range', ← List.zipIdx_map_snd 0 nodes, List.flatMap_map]

namespace Level.Nested

theorem map_snd_children (h : level.Nested nodes.length below) :
    (nodes.zipIdx.flatMap fun p => (level.children p.2).map fun child => (p.1 ++ [child.2], child.1)).map Prod.snd =
      List.range below := by
  rw [← h.flatMap_children, ← flatMap_zipIdx level.children, List.map_flatMap, List.map_flatMap]
  simp only [List.map_map, Function.comp_def]

theorem length_nodesUnder (h : level.Nested nodes.length below) : (level.nodesUnder nodes).length = below := by
  have hlen := congrArg List.length h.map_snd_children
  rw [List.length_map, List.length_range] at hlen
  rw [← hlen, Level.nodesUnder, List.length_flatMap, List.length_flatMap]
  simp only [List.length_map]

/-- **The nodes below a level stand in the order of their positions.** -/
theorem zipIdx_nodesUnder (h : level.Nested nodes.length below) : (level.nodesUnder nodes).zipIdx =
    nodes.zipIdx.flatMap fun p => (level.children p.2).map fun child => (p.1 ++ [child.2], child.1) := by
  rw [List.zipIdx_eq_zip_range', h.length_nodesUnder, ← List.range_eq_range']
  refine (List.zip_of_prod ?_ h.map_snd_children).symm
  simp only [Level.nodesUnder, List.map_flatMap, List.map_map, Function.comp_def]

end Level.Nested

theorem pathsUnder_nil (nodes : List Coordinate) : pathsUnder [] nodes = nodes := by
  simp only [pathsUnder, leavesBelow, List.map_singleton, List.append_nil]
  rw [← List.map_eq_flatMap, List.zipIdx_map_fst]

/-- **The leaves below some levels are those below the nodes of the first.** -/
theorem pathsUnder_cons (h : level.Nested nodes.length below) :
    pathsUnder (level :: levels) nodes = pathsUnder levels (level.nodesUnder nodes) := by
  rw [pathsUnder, pathsUnder, h.zipIdx_nodesUnder]
  simp only [leavesBelow, List.flatMap_assoc, List.map_flatMap, List.flatMap_map, List.map_map, Function.comp_def,
    List.append_assoc, List.singleton_append]

theorem pathsUnder_root (levels : List Level) : pathsUnder levels [[]] = (leavesBelow levels 0).map Prod.fst := by
  simp [pathsUnder]

/-! ## Order -/

theorem pairwise_nodesUnder (hnodes : nodes.Pairwise Coordinate.Before) (hlen : ∀ x ∈ nodes, x.length = depth)
    (hincreasing : ∀ p, ((level.children p).map Prod.snd).Pairwise (· < ·)) :
    (level.nodesUnder nodes).Pairwise Coordinate.Before := by
  rw [Level.nodesUnder, List.pairwise_flatMap]
  constructor
  · intro p _
    rw [List.pairwise_map]
    refine (List.pairwise_map.1 (hincreasing p.2)).imp fun hlt => ?_
    exact Coordinate.Before.append_left (Coordinate.Before.cons_iff.2 (.inl hlt)) p.1
  · have hbefore : nodes.zipIdx.Pairwise fun p q => p.1.Before q.1 := by
      rw [← List.zipIdx_map_fst 0 nodes] at hnodes
      exact List.pairwise_map.1 hnodes
    refine hbefore.imp_of_mem fun {p q} hp hq hpq x hx y hy => ?_
    obtain ⟨child, -, rfl⟩ := List.mem_map.1 hx
    obtain ⟨child', -, rfl⟩ := List.mem_map.1 hy
    have hpq' : p.1.length = q.1.length := by
      rw [hlen p.1 (List.fst_mem_of_mem_zipIdx hp), hlen q.1 (List.fst_mem_of_mem_zipIdx hq)]
    exact Coordinate.Before.append hpq' hpq _ _

/-- **Leaves stand in storage order** where the coordinates of siblings increase. -/
theorem pairwise_pathsUnder : ∀ {levels : List Level} {nodes : List Coordinate} {depth leaves : Nat},
    LevelsNested levels nodes.length leaves → nodes.Pairwise Coordinate.Before → (∀ x ∈ nodes, x.length = depth) →
      (∀ level ∈ levels, ∀ p, ((level.children p).map Prod.snd).Pairwise (· < ·)) →
      (pathsUnder levels nodes).Pairwise Coordinate.Before
  | [], nodes, _, _, _, hnodes, _, _ => by
    rw [pathsUnder_nil]
    exact hnodes
  | level :: rest, nodes, depth, leaves, ⟨below, hn, hrest⟩, hnodes, hlen, hincreasing => by
    rw [pathsUnder_cons hn]
    rw [← hn.length_nodesUnder] at hrest
    exact pairwise_pathsUnder hrest (pairwise_nodesUnder hnodes hlen (hincreasing level List.mem_cons_self))
      (fun x hx => length_of_mem_nodesUnder hlen hx) fun l hl => hincreasing l (List.mem_cons_of_mem _ hl)

end TensorStorage
