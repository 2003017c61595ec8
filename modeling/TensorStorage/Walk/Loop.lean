import TensorStorage.Walk.Cursor
/-!
# Loop — a move of a cursor, round by round

A cursor's move can also be taken by a loop that holds the frames of all levels and is at one level at a time.  A round
at a level with a sibling in hand notes its coordinate and enters the level below, or has found a leaf if there is none
below.  A round at a level that is through steps on the level above, or has found nothing if there is none above.
`Cursor.Moves` is the move as that loop takes it; nothing in it limits the number of rounds.
-/
namespace TensorStorage

/-- The loop between two rounds: the level it is at, and the frames of all levels. -/
structure Loop where
  level : Nat
  frames : List Frame
deriving DecidableEq, Repr

namespace Loop

/-- The frames with a level entered below the position in hand above it; above the outermost level is position 0. -/
def enter? (levels : List Level) (level : Nat) (frames : List Frame) : Option (List Frame) := do
  let parent ← if level = 0 then some 0 else (frames[level - 1]?).map (·.position)
  let (first, stop) ← (← levels[level]?).segment? parent
  let frame ← frames[level]?
  return frames.set level { frame with first, position := first, stop }

/-- The frames with the next sibling of a level in hand; none if its position is past the words. -/
def stepOn? (level : Nat) (frames : List Frame) : Option (List Frame) := do
  let frame ← frames[level]?
  if frame.position + 1 < wordLimit then
    some (frames.set level { frame with position := frame.position + 1 })
  else none

/-- The coordinate of the position in hand; none if that is before its first sibling. -/
def coordinate? (level : Level) (frame : Frame) : Option Nat :=
  if frame.first ≤ frame.position then level.coordinate? frame.first frame.position else none

/-- One round: what it found, if it ends the loop, or the loop after it. -/
def round? (levels : List Level) (l : Loop) : Option (Found ⊕ Loop) := do
  let frame ← l.frames[l.level]?
  if frame.position < frame.stop then
    let coordinate ← coordinate? (← levels[l.level]?) frame
    let frames := l.frames.set l.level { frame with coordinate }
    if l.level + 1 = levels.length then return .inl (some frame.position, frames)
    else return .inr ⟨l.level + 1, ← enter? levels (l.level + 1) frames⟩
  else if l.level = 0 then return .inl (none, l.frames)
  else return .inr ⟨l.level - 1, ← stepOn? (l.level - 1) l.frames⟩

/-- After finitely many rounds the loop ends and has found this. -/
inductive Ends (levels : List Level) : Loop → Found → Prop
  | now {l : Loop} {found : Found} : l.round? levels = some (.inl found) → Ends levels l found
  | later {l m : Loop} {found : Found} : l.round? levels = some (.inr m) → Ends levels m found → Ends levels l found

end Loop

/-- A move as the loop takes it: the leaf, if there is one, and the cursor after the move. -/
inductive Cursor.Moves (levels : List Level) (c : Cursor) : Option Nat × Cursor → Prop
  | through : c.progress = .exhausted → Moves levels c (none, c)
  | scalar : c.progress = .start → levels = [] → Moves levels c (c.landed (some 0, []))
  | start {frames : List Frame} {found : Found} : c.progress = .start → levels ≠ [] →
      Loop.enter? levels 0 c.frames = some frames → Loop.Ends levels ⟨0, frames⟩ found →
      Moves levels c (c.landed found)
  | positioned {frames : List Frame} {found : Found} : c.progress = .positioned →
      Loop.stepOn? (levels.length - 1) c.frames = some frames → Loop.Ends levels ⟨levels.length - 1, frames⟩ found →
      Moves levels c (c.landed found)

end TensorStorage
