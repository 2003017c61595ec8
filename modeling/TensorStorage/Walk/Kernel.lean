import TensorStorage.Descriptor
import TensorStorage.Entry
import TensorStorage.Walk.Cursor
/-!
# Kernel — the walk of a compiled kernel

A kernel has the descriptor of a tensor and nothing else.  It is a loop for each level, one inside the other: over the
places of a dense level, whose extent it takes from the level's array or from the dimensions, and over the segment of a
compressed level.  It writes the coordinate of each level to the place of the level's dimension, and reads a value in
the innermost loop.

Nothing checks what a kernel reads, and its positions are 32-bit integers.  Here every read that is outside the arrays,
every write that is outside the coordinate, and every position past the integers makes the walk impossible: `none`.
-/
namespace TensorStorage

/-- Where a kernel takes the extent of a dense level from. -/
inductive ExtentSource where
  /-- The one entry of the level's array. -/
  | array
  /-- The dimension that the level stores. -/
  | dimensions
deriving DecidableEq, Repr

namespace Descriptor

/-- An index array of a level. -/
def array? (k : Descriptor) (level i : Nat) : Option (Array Int32) := do (← k.levels[level]?)[i]?

/-- The extent of a dense level. -/
def extent? (k : Descriptor) (source : ExtentSource) (level : Nat) : Option Nat :=
  match source with
  | .array => do entryPlace? (← (← k.array? level 0)[0]?)
  | .dimensions => do k.dimensions[← k.ordering[level]?]?

/-- The children of a position at a level, each with its coordinate. -/
def children? (k : Descriptor) (source : ExtentSource) (level parent : Nat) : Option (List (Nat × Nat)) := do
  match ← k.types[level]? with
  | .dense =>
    let extent ← k.extent? source level
    if maxIndex < parent * extent + extent then none
    else some ((List.range extent).map fun i => (parent * extent + i, i))
  | .compressed =>
    let positions ← k.array? level 0
    let coordinates ← k.array? level 1
    let first ← entryPlace? (← positions[parent]?)
    let stop ← entryPlace? (← positions[parent + 1]?)
    (List.range' first (stop - first)).mapM fun position => do
      let coordinate ← entryPlace? (← coordinates[position]?)
      some (position, coordinate)
  | .singleton => none

/-- The entry in a slot of the value array. -/
def slot? (k : Descriptor) (position : Nat) (coordinate : Coordinate) : Option Entry :=
  if position < k.valueCount then (k.values.get? position).map fun value => ⟨coordinate, value⟩ else none

/-- The loops of the innermost `left` levels, the outermost of which has this number, below a position.  The coordinate
has been written to for the levels above. -/
def visit? (k : Descriptor) (source : ExtentSource) : Nat → Nat → Nat → Coordinate → Option (List Entry)
  | 0, _, position, coordinate => do return [← k.slot? position coordinate]
  | left + 1, level, position, coordinate => do
    let dimension ← k.ordering[level]?
    if coordinate.length ≤ dimension then none
    else do
      let children ← k.children? source level position
      let found ← children.mapM fun child =>
        k.visit? source left (level + 1) child.1 (coordinate.set dimension child.2)
      return found.flatten

/-- What a kernel finds, in the order in which it finds it. -/
def entries? (k : Descriptor) (source : ExtentSource) : Option (List Entry) :=
  k.visit? source k.order 0 0 (List.replicate k.order 0)

end Descriptor

end TensorStorage
