import TensorStorage.Pack.Record
import TensorStorage.Storage
/-!
# Layout — from sorted records to the arrays of a storage

The levels are laid out from the outermost in.  Every record carries its position at the level above, 0 at the root,
and the coordinates of the levels to come.  A dense level of extent `n` moves it to `position * n + coordinate`.  At a
compressed level the records of one parent stand together, so each new pair of parent and coordinate is a new child;
the children are numbered as they come, and the position array counts them per parent.  The positions at the innermost
level are the slots of the values.

Only dense levels limit the number of positions.  Positions are 64-bit words and the entries of the arrays are 32-bit;
both come round.
-/
namespace TensorStorage

/-- A record on its way through the levels. -/
structure PlacedRecord where
  position : Nat
  /-- Its coordinates at the levels to come. -/
  ahead : List Nat
  value : Value
deriving DecidableEq

/-- The records after some levels, and the number of positions there. -/
structure Layout where
  count : Nat
  placed : List PlacedRecord
deriving DecidableEq

namespace Layout

def root (records : List Record) : Layout := ⟨1, records.map fun r => ⟨0, r.key, r.value⟩⟩

/-! ## Dense levels -/

def placeDense? (extent : Nat) (p : PlacedRecord) : Option PlacedRecord :=
  match p.ahead with
  | [] => none
  | c :: ahead => some { p with position := (p.position * extent + c) % wordLimit, ahead }

/-- The layout below a dense level.  The records are moved before the number of positions is compared. -/
def descendDense (extent : Nat) (s : Layout) : Outcome (ModeIndex × Layout) := do
  let placed ← (s.placed.mapM (placeDense? extent) : Option (List PlacedRecord))
  let count := s.count * extent
  if maxIndex < count then
    .error (.refused (.indexOverflow (saturated count)))
  return (.dense (Int32.ofNat extent), ⟨count, placed⟩)

/-! ## Compressed levels -/

/-- The children that sorted records make, each as its parent and its coordinate, and the records at their children.
`last` is the child of the record before and `count` how many there are so far. -/
def placeCompressed? (last : Option (Nat × Nat)) (count : Nat) :
    List PlacedRecord → Option (List (Nat × Nat) × List PlacedRecord)
  | [] => some ([], [])
  | p :: rest =>
    match p.ahead with
    | [] => none
    | c :: ahead =>
      let child := (p.position, c)
      if last = some child then do
        let (children, placed) ← placeCompressed? last count rest
        some (children, { p with position := count - 1, ahead } :: placed)
      else do
        let (children, placed) ← placeCompressed? (some child) (count + 1) rest
        some (child :: children, { p with position := count, ahead } :: placed)

/-- How many of the children each parent has; none if a child's parent is past the last. -/
def childCounts? (parents : Nat) (children : List (Nat × Nat)) : Option (Array Nat) :=
  children.foldlM (fun counts child =>
    if child.1 < counts.size then some (counts.modify child.1 (· + 1)) else none) (Array.replicate parents 0)

/-- The position array of these counts: the number of children before each parent, and of all in the end. -/
def positionArray (counts : Array Nat) : Array Int32 :=
  (counts.foldl (fun (totals, before) n => (totals.push (Int32.ofNat (before + n)), before + n))
    ((#[0], 0) : Array Int32 × Nat)).1

def descendCompressed (s : Layout) : Outcome (ModeIndex × Layout) := do
  let (children, placed) ← placeCompressed? none 0 s.placed
  let counts ← childCounts? s.count children
  let coordinates := children.toArray.map fun child => Int32.ofNat child.2
  return (.compressed { data := positionArray counts } { data := coordinates }, ⟨children.length, placed⟩)

/-! ## All levels -/

/-- The arrays of a level and the layout below it; `number` is the level's place for messages. -/
def descend (type : ModeType) (number extent : Nat) (s : Layout) : Outcome (ModeIndex × Layout) :=
  match type with
  | .dense => s.descendDense extent
  | .compressed => s.descendCompressed
  | .singleton => .error (.refused (.unsupportedModeType type number))

/-- The arrays of some levels, the first of which has this number, and the layout below them. -/
def descendAll (number : Nat) : List (ModeType × Nat) → Layout → Outcome (List ModeIndex × Layout)
  | [], s => .ok ([], s)
  | (type, extent) :: rest, s => do
    let (mode, s) ← s.descend type number extent
    let (modes, s) ← descendAll (number + 1) rest s
    return (mode :: modes, s)

/-- The number of positions below each level, as far as the levels can be laid out. -/
def levelCounts (number : Nat) : List (ModeType × Nat) → Layout → List Nat
  | [], _ => []
  | (type, extent) :: rest, s =>
    match s.descend type number extent with
    | .ok (_, s) => s.count :: levelCounts (number + 1) rest s
    | .error _ => []

/-- The value array: zeros, and each record's value in its slot. -/
def values (dtype : DataType) (s : Layout) : Checked ValueArray :=
  s.placed.foldlM (fun array p => array.set p.position p.value) (.zeros dtype s.count)

end Layout

end TensorStorage
