import TensorStorage.Entry
import TensorStorage.Error
import TensorStorage.Room
/-!
# CoordinateBuffer — records that wait for the next pack

Records are kept in the order of their arrival in two flat arrays: the coordinates one after the other, and the
values.  Record `r` owns the coordinate numbers from `r * order` up to `(r + 1) * order`.  Only the number of
coordinates and the kind of the value are checked here; bounds and repetitions are the packer's business.
-/
namespace TensorStorage

/-- Records of one order and kind. -/
structure CoordinateBuffer where
  order : Nat
  dtype : DataType
  coordinates : Array Nat
  values : Array Value
  /-- Records that fit without growing. -/
  room : Nat
deriving DecidableEq

namespace CoordinateBuffer

def new (order : Nat) (dtype : DataType) : CoordinateBuffer := ⟨order, dtype, #[], #[], 0⟩

def length (b : CoordinateBuffer) : Nat := b.values.size

def isEmpty (b : CoordinateBuffer) : Bool := b.length == 0

/-- Makes room for this many more records; none if one of the two arrays cannot have that much. -/
def reserve? (b : CoordinateBuffer) (records : Nat) : Option CoordinateBuffer :=
  if hasRoom (b.coordinates.size + records * b.order) numberWidth && hasRoom (b.length + records) valueWidth then
    some { b with room := max b.room (b.length + records) }
  else none

/-- An empty buffer with room for this many records; none if one of the two arrays cannot have that much. -/
def withRoom? (order : Nat) (dtype : DataType) (records : Nat) : Option CoordinateBuffer :=
  (new order dtype).reserve? records

def append (b : CoordinateBuffer) (e : Entry) : CoordinateBuffer :=
  match b with
  | ⟨order, dtype, coordinates, values, room⟩ =>
    let room := max room (values.size + 1)
    ⟨order, dtype, coordinates ++ e.coordinate.toArray, values.push e.value, room⟩

/-- Checks a record against the buffer, the number of coordinates before the kind. -/
def check (b : CoordinateBuffer) (e : Entry) : Checked Unit :=
  if e.coordinate.length ≠ b.order then .error (.dimensionMismatch b.order e.coordinate.length)
  else if e.value.dtype ≠ b.dtype then .error (.typeMismatch b.dtype e.value.dtype)
  else .ok ()

def push (b : CoordinateBuffer) (e : Entry) : Checked CoordinateBuffer := do
  b.check e
  return b.append e

/-- Appends every record that passes the check, and lists the others by their place, counted from `place`, with the
cause. -/
def pushEach (b : CoordinateBuffer) (place : Nat) : List Entry → CoordinateBuffer × List (Nat × StorageError)
  | [] => (b, [])
  | e :: rest =>
    match b.check e with
    | .ok () => (b.append e).pushEach (place + 1) rest
    | .error cause =>
      let (b, refused) := b.pushEach (place + 1) rest
      (b, (place, cause) :: refused)

/-- The coordinate of record `r`; none if the array ends before it does. -/
def coordinate? (b : CoordinateBuffer) (r : Nat) : Option Coordinate :=
  if (r + 1) * b.order ≤ b.coordinates.size then
    some (b.coordinates.extract (r * b.order) ((r + 1) * b.order)).toList
  else none

def record? (b : CoordinateBuffer) (r : Nat) : Option Entry := do
  let coordinate ← b.coordinate? r
  let value ← b.values[r]?
  return ⟨coordinate, value⟩

def records (b : CoordinateBuffer) : List Entry := (List.range b.length).filterMap b.record?

/-- Drops every record and keeps the room. -/
def clear (b : CoordinateBuffer) : CoordinateBuffer := { b with coordinates := #[], values := #[] }

end CoordinateBuffer

end TensorStorage
