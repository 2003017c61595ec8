import TensorStorage.Event
import TensorStorage.Pack.Duplicates
import TensorStorage.Pack.Layout
/-!
# Merge — packing records over stored entries

`Packer.merge` checks the packer and the entries, resolves repeated coordinates, lays out the levels and fills in the
values; the storage it makes is the engine's own.  The first check that fails decides the error.  `Packer.events` lists
what is reported on the way, up to the point where packing fails.
-/
namespace TensorStorage.Packer

/-- The mode type of each level with the extent of the dimension it stores. -/
def shapes (p : Packer) : Outcome (List (ModeType × Nat)) := do
  let extents ← p.format.extents? p.dimensions
  return p.format.types.zip extents

/-- The storage of records in storage order, one for each key. -/
def lay (p : Packer) (records : List Record) : Outcome Storage := do
  let (modes, bottom) ← Layout.descendAll 0 (← p.shapes) (.root records)
  let values ← bottom.values p.dtype
  Storage.of ⟨modes, bottom.count⟩ values

/-- The storage of the stored entries with the records over them.  Stored entries are to have different coordinates. -/
def merge (p : Packer) (stored records : List Entry) : Outcome Storage := do
  p.check
  let resolved ← p.resolve stored records
  p.lay resolved

def pack (p : Packer) (records : List Entry) : Outcome Storage := p.merge [] records

/-- What `merge` reports: the resolved records, then each level that is laid out. -/
def events (p : Packer) (stored records : List Entry) : List Event :=
  let plan : Outcome (List Record × List (ModeType × Nat)) := do
    p.check
    let resolved ← p.resolve stored records
    return (resolved, ← p.shapes)
  match plan with
  | .error _ => []
  | .ok (resolved, shapes) =>
    .packing records.length stored.length resolved.length p.dimensions.length p.policy ::
      (Layout.levelCounts 0 shapes (.root resolved)).zipIdx.map fun level => .packedLevel level.2 level.1

end TensorStorage.Packer
