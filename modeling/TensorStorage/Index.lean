import TensorStorage.Buffer
import TensorStorage.Error
/-!
# Index — the index arrays of the levels

A dense level has one array of one entry, its extent.  A compressed level has a position array and a coordinate array:
the children of position `p` are the coordinates from place `pos[p]` up to place `pos[p + 1]`.  A tensor index lists
its levels from the outermost in, and says how many leaf positions there are.

Indices made by `TensorIndex.segmented` have their arrays checked; any arrays at all can be put together with the
constructors, and are checked when a walk starts (module `Level`).
-/
namespace TensorStorage

/-- The index arrays of one level. -/
structure ModeIndex where
  arrays : List IndexArray
deriving DecidableEq

/-- The levels of an index, outermost first, and the number of leaf positions. -/
structure TensorIndex where
  modes : List ModeIndex
  size : Nat
deriving DecidableEq

namespace ModeIndex

def dense (extent : Int32) : ModeIndex := ⟨[{ data := #[extent] }]⟩

def compressed (positions coordinates : IndexArray) : ModeIndex := ⟨[positions, coordinates]⟩

/-- An array of the level by its number: positions before coordinates. -/
def array (m : ModeIndex) (i : Nat) : Checked IndexArray :=
  match m.arrays[i]? with
  | some a => .ok a
  | none => .error (.invalidModeAccess i m.arrays.length)

def setEntry (m : ModeIndex) (i place : Nat) (entry : Int32) : Outcome ModeIndex := do
  let array ← m.array i
  let array ← array.set? place entry
  return ⟨m.arrays.set i array⟩

def owners (m : ModeIndex) : List Owner := m.arrays.map (·.owner)

end ModeIndex

/-! ## Position arrays -/

/-- The first place whose entry is above the next, with the two entries; places are counted from `place`. -/
def firstDecrease? (place : Nat) : List Int → Option (Nat × Int × Int)
  | entry :: next :: rest =>
    if next < entry then some (place, entry, next) else firstDecrease? (place + 1) (next :: rest)
  | _ => none

/-- Checks that a position array starts at 0, never decreases, and ends at the number of coordinates. -/
def checkSegments (positions : Array Int32) (coordinates : Nat) : Checked Unit :=
  match positions[0]?, positions.back? with
  | some first, some last =>
    if first.toInt ≠ 0 then .error (.invalidIndex (.positionsStart first.toInt))
    else
      match firstDecrease? 0 (positions.toList.map (·.toInt)) with
      | some (place, entry, next) => .error (.invalidIndex (.positionsDecrease place entry next))
      | none =>
        if last.toInt ≠ coordinates then .error (.invalidIndex (.positionsEnd last.toInt coordinates)) else .ok ()
  | _, _ => .error (.invalidIndex .emptyPositions)

def firstNegative? (coordinates : Array Int32) : Option Int32 := coordinates.find? (·.toInt < 0)

namespace TensorIndex

def order (x : TensorIndex) : Nat := x.modes.length

def mode (x : TensorIndex) (level : Nat) : Checked ModeIndex :=
  match x.modes[level]? with
  | some m => .ok m
  | none => .error (.invalidIndex (.missingLevel level x.order))

/-- Every array of every level, outermost level first. -/
def arrays (x : TensorIndex) : List IndexArray := x.modes.flatMap (·.arrays)

/-- The index of a matrix from its pointer array and its inner coordinates: a dense outer level over a compressed one.
The outer extent is one less than the length of the pointer array. -/
def segmented (pointers inner : IndexArray) : Checked TensorIndex := do
  checkSegments pointers.data inner.size
  if let some c := firstNegative? inner.data then
    .error (.invalidIndex (.negativeCoordinate c.toInt))
  let outer := pointers.size - 1
  if maxIndex < outer then
    .error (.indexOverflow outer)
  return ⟨[.dense (Int32.ofNat outer), .compressed pointers inner], inner.size⟩

end TensorIndex

end TensorStorage
