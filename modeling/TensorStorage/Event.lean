import TensorStorage.Options
/-!
# Event — what packing reports while it runs

Each event has a severity, the part of the engine that it comes from, a message and named fields.
-/
namespace TensorStorage

/-- A report of the packing engine. -/
inductive Event where
  /-- Repeated coordinates are resolved and the levels are about to be laid out. -/
  | packing (records merged entries order : Nat) (policy : DuplicatePolicy)
  | packedLevel (level positions : Nat)
  | nothingToPack (tensor : String)
  | packedTensor (tensor format : String) (merged inserted size : Nat)
deriving DecidableEq, Repr

inductive EventField where
  | number (n : Nat)
  | text (s : String)
deriving DecidableEq, Repr

namespace Event

/-- True of the events of interest to every debugging reader; the others are for tracing alone. -/
def isDebug : Event → Bool
  | packing .. | packedTensor .. => true
  | packedLevel .. | nothingToPack .. => false

def severity (e : Event) : String := if e.isDebug then "DEBUG" else "TRACE"

/-- The part of the engine that reports, as log filters name it. -/
def target : Event → String
  | packing .. | packedLevel .. => "fibra_sparse::pack"
  | nothingToPack .. | packedTensor .. => "fibra_sparse::tensor"

def fields : Event → List (String × EventField)
  | packing records merged entries order policy =>
    [("message", .text "packing coordinate records"), ("records", .number records), ("merged", .number merged),
     ("entries", .number entries), ("order", .number order), ("policy", .text policy.label)]
  | packedLevel level positions =>
    [("message", .text "packed level"), ("level", .number level), ("positions", .number positions)]
  | nothingToPack tensor => [("message", .text "nothing to pack"), ("tensor", .text tensor)]
  | packedTensor tensor format merged inserted size =>
    [("message", .text "packed tensor"), ("tensor", .text tensor), ("format", .text format),
     ("merged", .number merged), ("inserted", .number inserted), ("size", .number size)]

end Event

end TensorStorage
