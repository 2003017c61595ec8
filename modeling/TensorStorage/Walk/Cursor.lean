import TensorStorage.Level
/-!
# Cursor — a walk over levels that can stop after every leaf

A cursor remembers, for each level, which children of the parent position are being visited and which one is in hand.
`advance?` moves to the next leaf: it resumes the search at the innermost level, and where a level is through it goes
on at the level above.  The search recurses on the levels, and at each level on the children that are left, so every
move ends.

The cursor reads the arrays it is given at every move and does not check them.  A place that an array does not have,
a negative entry where a position is needed, or a position past the words makes a move impossible: `none`.
-/
namespace TensorStorage

/-- An index entry as a place; a negative entry names none. -/
def entryPlace? (entry : Int32) : Option Nat :=
  if entry.toInt < 0 then none else some entry.toInt.toNat

namespace Level

/-- The children of a parent position: the first position and the one after the last. -/
def segment? (level : Level) (parent : Nat) : Option (Nat × Nat) :=
  match level with
  | .dense extent =>
    let stop := parent * extent + extent
    if stop < wordLimit then some (parent * extent, stop) else none
  | .compressed positions _ => do
    let first ← entryPlace? (← positions[parent]?)
    let stop ← entryPlace? (← positions[parent + 1]?)
    return (first, stop)

/-- The coordinate of a position whose siblings begin at `first`. -/
def coordinate? (level : Level) (first position : Nat) : Option Nat :=
  match level with
  | .dense _ => some (position - first)
  | .compressed _ coordinates => do entryPlace? (← coordinates[position]?)

end Level

/-- Where a walk stands at one level.  The siblings in hand are the positions from `first` up to `stop`; `coordinate`
is the last one that the walk met at the level. -/
structure Frame where
  first : Nat
  position : Nat
  stop : Nat
  coordinate : Nat
deriving DecidableEq, Repr

/-- What a search finds, a leaf or none, and the frames it leaves. -/
abbrev Found := Option Nat × List Frame

/-- Tries the `left` siblings from the one in hand on, until the search below one of them finds a leaf. -/
def scanSiblings (level : Level) (below : Nat → List Frame → Option Found) :
    Nat → Frame → List Frame → Option Found
  | 0, frame, inner => some (none, frame :: inner)
  | left + 1, frame, inner => do
    let coordinate ← level.coordinate? frame.first frame.position
    let frame := { frame with coordinate }
    match ← below frame.position inner with
    | (some leaf, inner) => some (some leaf, frame :: inner)
    | (none, inner) => scanSiblings level below left { frame with position := frame.position + 1 } inner

/-- True when no position has a leaf below it at these levels: dense levels lead to one without extent. -/
def isBarren : List Level → Bool
  | .dense 0 :: _ => true
  | .dense _ :: rest => isBarren rest
  | _ => false

/-- Finds the first leaf below a parent position.  Where nothing can be found, only the last sibling is visited. -/
def seekLeaf : List Level → Nat → List Frame → Option Found
  | [], parent, frames => some (some parent, frames)
  | level :: rest, parent, frame :: inner => do
    let (first, stop) ← level.segment? parent
    let position := if isBarren rest then max first (stop - 1) else first
    scanSiblings level (seekLeaf rest) (stop - position) { frame with first, position, stop } inner
  | _ :: _, _, [] => none

def resumeSearch : List Level → List Frame → Option Found
  | [], frames => some (none, frames)
  | level :: rest, frame :: inner => do
    match ← resumeSearch rest inner with
    | (some leaf, inner) => some (some leaf, frame :: inner)
    | (none, inner) =>
      let next := frame.position + 1
      scanSiblings level (seekLeaf rest) (frame.stop - next) { frame with position := next } inner
  | _ :: _, [] => none

inductive Progress where
  | start
  | positioned
  | exhausted
deriving DecidableEq, Repr

/-- A walk over the levels of some storage, apart from their arrays. -/
structure Cursor where
  frames : List Frame
  progress : Progress
  produced : Nat
deriving DecidableEq, Repr

namespace Cursor

/-- The cursor before the first leaf; until a move changes them, its coordinates are zeros. -/
def new (order : Nat) : Cursor := ⟨List.replicate order ⟨0, 0, 0, 0⟩, .start, 0⟩

/-- The cursor with what a search found.  Without levels there is one leaf, and the walk is through with it. -/
def landed (c : Cursor) : Found → Option Nat × Cursor
  | (some leaf, frames) =>
    (some leaf, ⟨frames, if frames.isEmpty then .exhausted else .positioned, c.produced + 1⟩)
  | (none, frames) => (none, ⟨frames, .exhausted, c.produced⟩)

/-- Moves to the next leaf and gives its position, or nothing when there is none left. -/
def advance? (levels : List Level) (c : Cursor) : Option (Option Nat × Cursor) :=
  match c.progress with
  | .start => (seekLeaf levels 0 c.frames).map c.landed
  | .positioned => (resumeSearch levels c.frames).map c.landed
  | .exhausted => some (none, c)

/-- The coordinates last met, outermost level first. -/
def levelCoordinate (c : Cursor) : Coordinate := c.frames.map (·.coordinate)

def coordinate (c : Cursor) (f : Format) : Coordinate := f.fromLevels c.levelCoordinate

end Cursor

end TensorStorage
