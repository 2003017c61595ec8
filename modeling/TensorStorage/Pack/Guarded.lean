import TensorStorage.Pack.Merge
/-!
# Guarded — laying out with nothing taken on trust

`Layout` lets sums come round at the words, cuts numbers down to the entries of the arrays, and counts children when it
has them all.  Here the levels are laid out one record after the other, and every step asks first: whether a sum or a
product is a word, whether a number is an entry, whether a place is in its array.  What does not pass is a breach, and
so is a failure to fill in the values.  Only the overflow of a dense level is refused.
-/
namespace TensorStorage

namespace Guarded

/-- A number, if it is a word. -/
def word? (n : Nat) : Option Nat := if n < wordLimit then some n else none

/-- A number as an entry of an index array, if the entry can hold it. -/
def entry? (n : Nat) : Option Int32 := if n ≤ maxIndex then some (Int32.ofNat n) else none

/-! ## Dense levels -/

def placeDense? (extent : Nat) (r : PlacedRecord) : Option PlacedRecord :=
  match r.ahead with
  | [] => none
  | c :: ahead => do
    let start ← word? (r.position * extent)
    let position ← word? (start + c)
    return { r with position, ahead }

def descendDense (extent : Nat) (s : Layout) : Outcome (ModeIndex × Layout) := do
  let placed ← (s.placed.mapM (placeDense? extent) : Option (List PlacedRecord))
  let count := s.count * extent
  if maxIndex < count then
    .error (.refused (.indexOverflow (saturated count)))
  let entry ← entry? extent
  return (.dense entry, ⟨count, placed⟩)

/-! ## Compressed levels -/

/-- The arrays of a compressed level while records are placed. -/
structure Filling where
  /-- The number of children of each parent, one place past the parent's own. -/
  counts : Array Nat
  coordinates : Array Int32
  /-- The child of the record before, as its parent and its coordinate. -/
  last : Option (Nat × Nat)
deriving DecidableEq

namespace Filling

/-- Lists a child and counts it. -/
def openChild? (f : Filling) (child : Nat × Nat) : Option Filling := do
  let entry ← entry? child.2
  let count ← f.counts[child.1 + 1]?
  let count ← word? (count + 1)
  return ⟨f.counts.setIfInBounds (child.1 + 1) count, f.coordinates.push entry, some child⟩

/-- Moves a record to its child, the last that is listed. -/
def place? (f : Filling) (r : PlacedRecord) : Option (Filling × PlacedRecord) :=
  match r.ahead with
  | [] => none
  | c :: ahead => do
    let f ← if f.last = some (r.position, c) then some f else f.openChild? (r.position, c)
    match f.coordinates.size with
    | 0 => none
    | position + 1 => return (f, { r with position, ahead })

def placeAll? (f : Filling) : List PlacedRecord → Option (Filling × List PlacedRecord)
  | [] => some (f, [])
  | r :: rest => do
    let (f, r) ← f.place? r
    let (f, placed) ← f.placeAll? rest
    return (f, r :: placed)

end Filling

/-- Adds to each of the next `left` entries the one before it, from place `i` on. -/
def totals? : (left i : Nat) → Array Nat → Option (Array Nat)
  | 0, _, counts => some counts
  | left + 1, i, counts => do
    let total ← word? ((← counts[i + 1]?) + (← counts[i]?))
    totals? left (i + 1) (counts.setIfInBounds (i + 1) total)

def descendCompressed (s : Layout) : Outcome (ModeIndex × Layout) := do
  let size ← word? (s.count + 1)
  let (f, placed) ← Filling.placeAll? ⟨Array.replicate size 0, #[], none⟩ s.placed
  let totals ← totals? s.count 0 f.counts
  let positions ← (totals.toList.mapM entry? : Option (List Int32))
  return (.compressed { data := positions.toArray } { data := f.coordinates }, ⟨f.coordinates.size, placed⟩)

/-! ## All levels -/

def descend (type : ModeType) (number extent : Nat) (s : Layout) : Outcome (ModeIndex × Layout) :=
  match type with
  | .dense => descendDense extent s
  | .compressed => descendCompressed s
  | .singleton => .error (.refused (.unsupportedModeType type number))

def descendAll (number : Nat) : List (ModeType × Nat) → Layout → Outcome (List ModeIndex × Layout)
  | [], s => .ok ([], s)
  | (type, extent) :: rest, s => do
    let (mode, s) ← descend type number extent s
    let (modes, s) ← descendAll (number + 1) rest s
    return (mode :: modes, s)

/-- The storage of records in storage order, one for each key. -/
def lay (p : Packer) (records : List Record) : Outcome Storage := do
  let (modes, bottom) ← descendAll 0 (← p.shapes) (.root records)
  let values ← (bottom.values p.dtype).toOption
  (Storage.of ⟨modes, bottom.count⟩ values).toOption

end Guarded

end TensorStorage
