import TensorStorage.Pack.Record
/-!
# Duplicates — one record per coordinate

Records are sorted by their keys, keeping the order of arrival among equal keys, and each run of equal keys is resolved
to one record by a policy.  Packing over stored entries resolves twice: first the new records among themselves, then
each against the stored entry that it meets.
-/
namespace TensorStorage

/-- Records in storage order; records of one key stay in the order of arrival. -/
def sortRecords (records : List Record) : List Record := records.mergeSort fun a b => a.key.le b.key

/-- The record that stands for two of one key, `next` after `held`. -/
def DuplicatePolicy.combine (policy : DuplicatePolicy) (f : Format) (held next : Record) : Checked Record :=
  match policy with
  | .lastWins => .ok { held with value := next.value }
  | .sum =>
    match held.value.add? next.value with
    | some value => .ok { held with value }
    | none => .error (.typeMismatch held.value.dtype next.value.dtype)
  | .reject => .error (.duplicateCoordinate (f.fromLevels next.key))

/-- Resolves the runs of equal keys in sorted records, the first of which is held. -/
def collapseFrom (f : Format) (policy : DuplicatePolicy) (held : Record) : List Record → Checked (List Record)
  | [] => .ok [held]
  | next :: rest =>
    if next.key = held.key then do
      let held ← policy.combine f held next
      collapseFrom f policy held rest
    else do
      let resolved ← collapseFrom f policy next rest
      return held :: resolved

def collapse (f : Format) (policy : DuplicatePolicy) : List Record → Checked (List Record)
  | [] => .ok []
  | first :: rest => collapseFrom f policy first rest

def resolveDuplicates (f : Format) (policy : DuplicatePolicy) (records : List Record) : Checked (List Record) :=
  collapse f policy (sortRecords records)

/-- The records to lay out: new records, resolved among themselves, over the stored entries. -/
def Packer.resolve (p : Packer) (stored records : List Entry) : Outcome (List Record) := do
  let held ← p.collect stored
  let incoming ← p.collect records
  let incoming ← resolveDuplicates p.format p.policy incoming
  resolveDuplicates p.format p.policy.overStored (held ++ incoming)

end TensorStorage
