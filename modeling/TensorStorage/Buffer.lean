import TensorStorage.Coordinate
/-!
# Buffer — arrays that know whose they are

An array of a storage belongs to the engine, or is lent by a caller for as long as the storage holds it.  A lent array
carries the number of its loan, so that what the engine writes into it can be shown to the caller again (module
`Ledger`).  Ownership changes no answer but the questions about ownership.
-/
namespace TensorStorage

/-- Whose an array is. -/
inductive Owner where
  | engine
  /-- Lent by a caller, under the number of the loan. -/
  | caller (loan : Nat)
deriving DecidableEq, Repr

def Owner.isEngine : Owner → Bool
  | engine => true
  | caller _ => false

def Owner.label : Owner → String
  | engine => "Owned"
  | caller _ => "UserOwned"

/-- A homogeneous array and its owner. -/
structure Buffer (α : Type) where
  data : Array α
  owner : Owner := .engine
deriving DecidableEq

abbrev IndexArray := Buffer Int32

namespace Buffer

variable {α : Type}

def size (b : Buffer α) : Nat := b.data.size

/-- The buffer with one element replaced; none past its end. -/
def set? (b : Buffer α) (i : Nat) (a : α) : Option (Buffer α) :=
  if h : i < b.data.size then some { b with data := b.data.set i a h } else none

/-- The listing of an index array: its owner and its entries. -/
def listing (b : IndexArray) : String :=
  "Buffer \x7b ownership: " ++ b.owner.label ++ ", data: [" ++
    ", ".intercalate (b.data.toList.map fun x => toString x.toInt) ++ "] \x7d"

end Buffer

end TensorStorage
