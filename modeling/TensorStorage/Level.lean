import TensorStorage.Format
import TensorStorage.Storage
/-!
# Level — the arrays of a storage, read as levels of a format

`levels` reads each level's arrays by the level's mode type: a dense level needs an extent, a compressed level its two
arrays.  `checkNested` then follows the number of positions from the outermost level in: a dense level multiplies it by
its extent, a compressed level wants one segment per position and goes on with as many positions as it has coordinates.
In the end the index and the value array must have exactly that many.  `checkFits` compares the levels with the
dimensions of a tensor as well.

Position counts are 64-bit words.  A product past them is refused; the length that a position array should have is
counted in the words themselves, and comes round to 0 after the largest.
-/
namespace TensorStorage

/-- One level of a storage, with the arrays that its mode type calls for. -/
inductive Level where
  | dense (extent : Nat)
  | compressed (positions coordinates : Array Int32)
deriving DecidableEq

/-- The arrays of a level of this mode type; `number` is the level's place for messages. -/
def ModeIndex.level (m : ModeIndex) (type : ModeType) (number : Nat) : Checked Level :=
  match type with
  | .dense => do
    let extents ← m.array 0
    let extent := ((extents.data[0]?).map (·.toInt)).getD (-1)
    if extent < 0 then .error (.invalidIndex (.denseExtent number extent)) else return .dense extent.toNat
  | .compressed => do
    let positions ← m.array 0
    let coordinates ← m.array 1
    return .compressed positions.data coordinates.data
  | .singleton => .error (.unsupportedModeType type number)

/-- The levels of some modes, the first of which has this number. -/
def levelsFrom (number : Nat) : List (ModeIndex × ModeType) → Checked (List Level)
  | [] => .ok []
  | (m, type) :: rest => do
    let level ← m.level type number
    let levels ← levelsFrom (number + 1) rest
    return level :: levels

namespace Storage

/-- The levels of a storage under a format: supported, of the format's order, and with the arrays they need. -/
def levels (s : Storage) (f : Format) : Checked (List Level) := do
  f.ensureSupported
  if s.index.order ≠ f.order then
    .error (.invalidFormat (.indexOrder f.order s.index.order))
  levelsFrom 0 (s.index.modes.zip f.types)

end Storage

/-- The number of positions below a level, from the number of positions above it. -/
def Level.countBelow (number above : Nat) : Level → Checked Nat
  | .dense extent =>
    if above * extent < wordLimit then .ok (above * extent) else .error (.indexOverflow (saturated (above * extent)))
  | .compressed positions coordinates => do
    let wanted := (above + 1) % wordLimit
    if positions.size ≠ wanted then
      .error (.invalidIndex (.positionsLength number positions.size wanted))
    checkSegments positions coordinates.size
    match firstNegative? coordinates with
    | some c => .error (.invalidIndex (.negativeCoordinateAt c.toInt number))
    | none => return coordinates.size

/-- The number of positions below the innermost of some levels, the first of which has this number. -/
def countLeaves (number above : Nat) : List Level → Checked Nat
  | [] => .ok above
  | level :: rest => do
    let below ← level.countBelow number above
    countLeaves (number + 1) below rest

namespace Storage

/-- Checks that the levels nest and address exactly the stored values.  Above the outermost level is one position. -/
def checkNested (s : Storage) (levels : List Level) : Checked Unit := do
  let leaves ← countLeaves 0 1 levels
  if leaves ≠ s.index.size ∨ leaves ≠ s.values.size then
    .error (.invalidIndex (.positionCount leaves s.index.size s.values.size))

def checkedLevels (s : Storage) (f : Format) : Checked (List Level) := do
  let levels ← s.levels f
  s.checkNested levels
  return levels

end Storage

def Level.checkExtent (number extent : Nat) : Level → Checked Unit
  | .dense found => if found ≠ extent then .error (.invalidIndex (.extentMismatch number found extent)) else .ok ()
  | .compressed _ coordinates =>
    match coordinates.find? fun c => (extent : Int) ≤ c.toInt with
    | some c => .error (.invalidIndex (.coordinatePast c.toInt number extent))
    | none => .ok ()

/-- Checks some levels, the first of which has this number, against their extents. -/
def checkExtents (number : Nat) : List (Level × Nat) → Checked Unit
  | [] => .ok ()
  | (level, extent) :: rest => do
    level.checkExtent number extent
    checkExtents (number + 1) rest

/-- Checks that a storage nests under the format and stays within the dimensions. -/
def Storage.checkFits (s : Storage) (f : Format) (dimensions : List Nat) : Outcome Unit := do
  let levels ← s.checkedLevels f
  let extents ← f.extents? dimensions
  checkExtents 0 (levels.zip extents)

end TensorStorage
