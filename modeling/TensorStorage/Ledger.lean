import TensorStorage.Storage
/-!
# Ledger — what callers see of the arrays they lent

A caller lends an array and can read it again at any time.  The ledger lists the lent arrays in the order of lending;
`settle` enters into it what the arrays of a storage hold, so after every write the ledger shows what the caller sees.
An array that no storage holds any more stays as it was last settled.
-/
namespace TensorStorage

/-- An array that a caller has lent: index entries or components. -/
inductive LentArray where
  | entries (data : Array Int32)
  | components (dtype : DataType) (data : Array dtype.Scalar)
deriving DecidableEq

/-- The arrays that callers have lent, by the number of the loan. -/
structure Ledger where
  arrays : Array LentArray
deriving DecidableEq

namespace Ledger

def empty : Ledger := ⟨#[]⟩

/-- An index array as the engine holds it: lent when `lent` is set, the engine's own otherwise. -/
def takeEntries (l : Ledger) (lent : Bool) (data : Array Int32) : IndexArray × Ledger :=
  if lent then ({ data, owner := .caller l.arrays.size }, ⟨l.arrays.push (.entries data)⟩)
  else ({ data }, l)

/-- A value array as the engine holds it: lent when `lent` is set, the engine's own otherwise. -/
def takeValues (l : Ledger) (lent : Bool) (d : DataType) (data : Array d.Scalar) : ValueArray × Ledger :=
  if lent then (⟨d, { data, owner := .caller l.arrays.size }⟩, ⟨l.arrays.push (.components d data)⟩)
  else (.ofArray d data, l)

def settleEntries (l : Ledger) (a : IndexArray) : Ledger :=
  match a.owner with
  | .engine => l
  | .caller loan => ⟨l.arrays.setIfInBounds loan (.entries a.data)⟩

def settleValues (l : Ledger) (a : ValueArray) : Ledger :=
  match a.owner with
  | .engine => l
  | .caller loan => ⟨l.arrays.setIfInBounds loan (.components a.dtype a.cells.data)⟩

def settleMode (l : Ledger) (m : ModeIndex) : Ledger := m.arrays.foldl settleEntries l

/-- Enters what the lent arrays of a storage hold. -/
def settle (l : Ledger) (s : Storage) : Ledger := (s.index.modes.foldl settleMode l).settleValues s.values

end Ledger

end TensorStorage
