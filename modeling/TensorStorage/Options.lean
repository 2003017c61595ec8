/-!
# Options — how a tensor treats repeated coordinates, and how much room it starts with
-/
namespace TensorStorage

/-- What packing does with several records at one coordinate. -/
inductive DuplicatePolicy where
  /-- The most recent record wins. -/
  | lastWins
  | sum
  /-- Packing is refused. -/
  | reject
deriving DecidableEq, Repr

namespace DuplicatePolicy

def all : List DuplicatePolicy := [lastWins, sum, reject]

/-- The name that events and documents show. -/
def label : DuplicatePolicy → String
  | lastWins => "LastWins"
  | sum => "Sum"
  | reject => "Reject"

/-- How a new record meets an entry that is already stored: it is added under `sum` and wins otherwise, for a stored
entry is never a duplicate. -/
def overStored : DuplicatePolicy → DuplicatePolicy
  | sum => sum
  | lastWins | reject => lastWins

end DuplicatePolicy

structure Options where
  policy : DuplicatePolicy := .lastWins
  /-- Records to make room for at the start. -/
  capacity : Nat := 0
deriving DecidableEq, Repr

namespace Options

def withPolicy (o : Options) (policy : DuplicatePolicy) : Options := { o with policy }

def summing (o : Options) : Options := o.withPolicy .sum

def withCapacity (o : Options) (capacity : Nat) : Options := { o with capacity }

end Options

end TensorStorage
