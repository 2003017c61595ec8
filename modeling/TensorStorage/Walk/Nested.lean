import TensorStorage.Entry
import TensorStorage.Level
/-!
# Nested — the walk as one nested recursion

`leavesBelow` lists the leaves below a position by plain recursion: a dense level of extent `n` has the children
`p * n`, …, `p * n + n - 1` of position `p`, a compressed level the positions of its segment.  It is the walk that a
cursor takes piece by piece.
-/
namespace TensorStorage

namespace Level

def entryAt (entries : Array Int32) (place : Nat) : Nat := ((entries[place]?).map (·.toInt.toNat)).getD 0

/-- The children of a position, each with its coordinate. -/
def children (level : Level) (parent : Nat) : List (Nat × Nat) :=
  match level with
  | .dense extent => (List.range extent).map fun i => (parent * extent + i, i)
  | .compressed positions coordinates =>
    let first := entryAt positions parent
    let stop := entryAt positions (parent + 1)
    (List.range' first (stop - first)).map fun position => (position, entryAt coordinates position)

end Level

/-- The leaves below a position, each with its coordinates from the level on. -/
def leavesBelow : List Level → Nat → List (Coordinate × Nat)
  | [], parent => [([], parent)]
  | level :: rest, parent =>
    (level.children parent).flatMap fun child =>
      (leavesBelow rest child.1).map fun leaf => (child.2 :: leaf.1, leaf.2)

/-- The stored entries of a storage under a format, by nested recursion. -/
def Storage.nestedEntries (s : Storage) (f : Format) (levels : List Level) : List Entry :=
  (leavesBelow levels 0).filterMap fun leaf =>
    (s.valueAt? leaf.2).map fun value => ⟨f.fromLevels leaf.1, value⟩

end TensorStorage
