import TensorStorage.Format
import TensorStorage.Options
/-!
# Document — settings as structured documents

Kinds, mode types and policies are written as their names, and formats and options as records of named fields.  Reading
also takes a name as the only field of a record, with nothing in it, and a record as a list of its fields in order;
fields that are not asked for are passed over.  A format that is read is not checked.
-/
namespace TensorStorage

/-- A structured document.  Only natural numbers are told apart; any other number is just a number. -/
inductive Document where
  | null
  | flag (b : Bool)
  | natural (n : Nat)
  | number
  | text (s : String)
  | list (items : List Document)
  | record (fields : List (String × Document))
deriving Inhabited

def DataType.label : DataType → String
  | int32 => "Int32"
  | int64 => "Int64"
  | float32 => "Float32"
  | float64 => "Float64"
  | complex32 => "Complex32"
  | complex64 => "Complex64"

def ModeType.label : ModeType → String
  | dense => "Dense"
  | compressed => "Compressed"
  | singleton => "Singleton"

namespace Document

def name? : Document → Option String
  | text s => some s
  | record [(s, null)] => some s
  | _ => none

/-- The one of `choices` that the document names. -/
def choice? {α : Type} (choices : List α) (label : α → String) (d : Document) : Option α := do
  let name ← d.name?
  choices.find? fun a => label a == name

def toDataType? : Document → Option DataType := choice? DataType.all DataType.label

def toModeType? : Document → Option ModeType := choice? ModeType.all ModeType.label

def toPolicy? : Document → Option DuplicatePolicy := choice? DuplicatePolicy.all DuplicatePolicy.label

def toWord? : Document → Option Nat
  | natural n => if n < wordLimit then some n else none
  | _ => none

def toList? {α : Type} (item? : Document → Option α) : Document → Option (List α)
  | list items => items.mapM item?
  | _ => none

def pair? (first second : String) : Document → Option (Document × Document)
  | record fields => do return (← fields.lookup first, ← fields.lookup second)
  | list [a, b] => some (a, b)
  | _ => none

def toFormatRecord? (d : Document) : Option FormatRecord := do
  let (types, ordering) ← d.pair? "mode_types" "mode_ordering"
  return ⟨← types.toList? toModeType?, ← ordering.toList? toWord?⟩

def toOptions? (d : Document) : Option Options := do
  let (policy, capacity) ← d.pair? "duplicate_policy" "initial_capacity"
  return ⟨← policy.toPolicy?, ← capacity.toWord?⟩

def ofDataType (d : DataType) : Document := text d.label

def ofModeType (m : ModeType) : Document := text m.label

def ofPolicy (p : DuplicatePolicy) : Document := text p.label

def ofFormatRecord (f : FormatRecord) : Document :=
  record [("mode_types", list (f.types.map ofModeType)), ("mode_ordering", list (f.ordering.map natural))]

def ofOptions (o : Options) : Document :=
  record [("duplicate_policy", ofPolicy o.policy), ("initial_capacity", natural o.capacity)]

end Document

end TensorStorage
