import TensorStorage.CoordinateBuffer
import TensorStorage.Level
import TensorStorage.Options
/-!
# Tensor — name, shape, kind, format, waiting records and storage

A tensor is made empty: its records wait in a buffer until it is packed, and it has no storage before.  Its generation
grows whenever the arrays of its storage may have changed, which is how iterators learn that they are out of date
(module `Tensor.Iterator`); overwriting values with zeros is no such change.
-/
namespace TensorStorage

structure Tensor where
  name : String
  dimensions : List Nat
  dtype : DataType
  format : Format
  options : Options
  buffer : CoordinateBuffer
  storage? : Option Storage
  generation : Nat
deriving DecidableEq

namespace Tensor

/-- Checks that a format has as many levels as there are dimensions, and that every dimension fits the index arrays. -/
def checkShape (dimensions : List Nat) (format : Format) : Checked Unit :=
  if format.order ≠ dimensions.length then
    .error (.invalidFormat (.givenDimensions format.text format.order dimensions.length))
  else
    match dimensions.find? (maxIndex < ·) with
    | some dimension => .error (.invalidShape (.dimensionTooLarge dimension))
    | none => .ok ()

/-- An empty tensor of a checked shape.  More capacity than the buffer can have is a breach. -/
def new (name : String) (dtype : DataType) (dimensions : List Nat) (format : Format) (options : Options) :
    Outcome Tensor := do
  checkShape dimensions format
  let buffer ← CoordinateBuffer.withRoom? dimensions.length dtype options.capacity
  return { name, dimensions, dtype, format, options, buffer, storage? := none, generation := 0 }

/-- An empty tensor that stores every dimension in the same way, with default options. -/
def uniform (name : String) (dtype : DataType) (dimensions : List Nat) (type : ModeType) : Outcome Tensor :=
  new name dtype dimensions (.uniform dimensions.length type) {}

def order (t : Tensor) : Nat := t.dimensions.length

def dimension? (t : Tensor) (mode : Nat) : Option Nat := t.dimensions[mode]?

def isPacked (t : Tensor) : Bool := t.storage?.isSome

def pending (t : Tensor) : Nat := t.buffer.length

/-- The storage, which the tensor has once it is packed. -/
def storage (t : Tensor) : Checked Storage :=
  match t.storage? with
  | some s => .ok s
  | none => .error (.notPacked t.name)

def rename (t : Tensor) (name : String) : Tensor := { t with name }

/-- Makes room for this many more records; none if the buffer cannot have that much. -/
def reserve? (t : Tensor) (records : Nat) : Option Tensor :=
  (t.buffer.reserve? records).map fun buffer => { t with buffer }

def insert (t : Tensor) (e : Entry) : Checked Tensor := do
  let buffer ← t.buffer.push e
  return { t with buffer }

/-- Adds records one after the other, up to the first that is refused. -/
def insertAll (t : Tensor) (entries : List Entry) : Checked Tensor := do
  let buffer ← entries.foldlM CoordinateBuffer.push t.buffer
  return { t with buffer }

/-- Adds every record that is not refused, and lists the refused ones by their place with the cause. -/
def insertEach (t : Tensor) (entries : List Entry) : Tensor × List (Nat × StorageError) :=
  let (buffer, refused) := t.buffer.pushEach 0 entries
  ({ t with buffer }, refused)

def zero (t : Tensor) : Tensor := { t with storage? := t.storage?.map (·.zero) }

/-- The tensor with this storage instead of its own, as a new generation. -/
def withStorage (t : Tensor) (s : Storage) : Tensor :=
  { t with storage? := some s, generation := t.generation + 1 }

/-- Installs a storage that was built elsewhere: of the tensor's kind, nesting under its format, and within its
dimensions.  Waiting records go on waiting. -/
def setStorage (t : Tensor) (s : Storage) : Outcome Tensor := do
  if s.dtype ≠ t.dtype then
    .error (.refused (.typeMismatch t.dtype s.dtype))
  s.checkFits t.format t.dimensions
  return t.withStorage s

/-! ## Changing a storage in place

Whoever opens the storage for changes makes a new generation, whether or not something is changed then. -/

/-- The storage, and the tensor as of the new generation. -/
def openStorage (t : Tensor) : Checked (Storage × Tensor) := do
  let s ← t.storage
  return (s, { t with generation := t.generation + 1 })

def closeStorage (t : Tensor) (s : Storage) : Tensor := { t with storage? := some s }

end Tensor

end TensorStorage
