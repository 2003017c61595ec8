import TensorStorage.Pack.Merge
import TensorStorage.Tensor.Basic
import TensorStorage.Walk.Traversal
/-!
# Packing a tensor

`Tensor.pack` compiles the waiting records into storage, over what is stored already.  It gives the packed tensor or
fails; a tensor whose packing failed is the tensor from before.
-/
namespace TensorStorage.Tensor

def packer (t : Tensor) : Packer := ⟨t.dimensions, t.format, t.dtype, t.options.policy⟩

/-- True when packing has nothing to do: no record waits, and there is a storage. -/
def isSettled (t : Tensor) : Bool := t.buffer.isEmpty && t.isPacked

/-- What is stored, which before the first pack is nothing. -/
def storedEntries (t : Tensor) : Outcome (List Entry) :=
  match t.storage? with
  | some s => s.entries t.format
  | none => .ok []

/-- The tensor with its waiting records in storage. -/
def pack (t : Tensor) : Outcome Tensor :=
  if t.isSettled then .ok t
  else do
    let stored ← t.storedEntries
    let s ← t.packer.merge stored t.buffer.records
    return { t.withStorage s with buffer := t.buffer.clear }

/-- What packing reports, as far as it gets. -/
def packEvents (t : Tensor) : List Event :=
  if t.isSettled then [.nothingToPack t.name]
  else
    match t.storedEntries with
    | .error _ => []
    | .ok stored =>
      t.packer.events stored t.buffer.records ++
        match t.packer.merge stored t.buffer.records with
        | .ok s => [.packedTensor t.name t.format.text stored.length t.buffer.length s.index.size]
        | .error _ => []

/-- A packed tensor without dimensions that holds one value. -/
def scalar (name : String) (v : Value) : Outcome Tensor := do
  let t ← new name v.dtype [] (.dense 0) {}
  let t ← t.insert ⟨[], v⟩
  t.pack

end TensorStorage.Tensor
