import TensorStorage.Coordinate
import TensorStorage.DataType
import TensorStorage.ModeType
/-!
# Error — why a request is refused

`StorageError` lists the causes, `StorageError.message` words them.  The causes that concern a format, an index or a
shape carry their own reason, one constructor for each that this library reports and one, `stated`, for a reason that
a caller words.

An operation may also be used past what it promises: a place outside an array, a level past the order, more room than
an array can have.  No cause is reported for that.  `Failure` sets such a `breach` beside the refusals, and `Outcome`
is a computation that may fail in either way.
-/
namespace TensorStorage

inductive FormatFault where
  | lengthsDiffer (types ordering : Nat)
  | notPermutation (ordering : List Nat)
  | tensorOrder (levels dimensions : Nat)
  | givenDimensions (format : String) (levels dimensions : Nat)
  | indexOrder (levels indexLevels : Nat)
  | orderingOrder (ordering : List Nat) (order : Nat)
  | storedAs (tensor format expected : String)
  | ordersDisagree (format index dimensions : Nat)
  | stated (reason : String)
deriving DecidableEq, Repr

inductive IndexFault where
  | emptyPositions
  | positionsStart (first : Int)
  | positionsDecrease (place : Nat) (entry next : Int)
  | positionsEnd (last : Int) (coordinates : Nat)
  | negativeCoordinate (coordinate : Int)
  | negativeCoordinateAt (coordinate : Int) (level : Nat)
  | missingLevel (level order : Nat)
  | denseExtent (level : Nat) (extent : Int)
  | positionsLength (level entries expected : Nat)
  | positionCount (positions size values : Nat)
  | valueCount (size values : Nat)
  | extentMismatch (level extent expected : Nat)
  | coordinatePast (coordinate : Int) (level dimension : Nat)
  | stated (reason : String)
deriving DecidableEq, Repr

inductive ShapeFault where
  | dimensionTooLarge (dimension : Nat)
  | tooManyElements (dimensions : List Nat)
  | stated (reason : String)
deriving DecidableEq, Repr

inductive StorageError where
  | dimensionMismatch (expected got : Nat)
  | typeMismatch (expected got : DataType)
  | outOfBounds (coordinate dimensions : Coordinate)
  | invalidModeAccess (array available : Nat)
  | unsupportedModeType (modeType : ModeType) (level : Nat)
  | invalidFormat (fault : FormatFault)
  | invalidIndex (fault : IndexFault)
  | invalidShape (fault : ShapeFault)
  | duplicateCoordinate (coordinate : Coordinate)
  | indexOverflow (count : Nat)
  | notPacked (name : String)
deriving DecidableEq, Repr

def FormatFault.reason : FormatFault → String
  | lengthsDiffer types ordering => s!"{types} mode types but mode ordering of length {ordering}"
  | notPermutation ordering =>
    s!"mode ordering {Coordinate.text ordering} is not a permutation of 0..{ordering.length}"
  | tensorOrder levels dimensions => s!"format has {levels} levels but the tensor has {dimensions} dimensions"
  | givenDimensions format levels dimensions =>
    s!"format {format} has {levels} levels but {dimensions} dimensions were given"
  | indexOrder levels indexLevels => s!"format has {levels} levels but the index has {indexLevels}"
  | orderingOrder ordering order => s!"mode ordering {Coordinate.text ordering} does not match order {order}"
  | storedAs tensor format expected => s!"tensor '{tensor}' is stored as {format}, expected {expected}"
  | ordersDisagree format index dimensions =>
    s!"format order {format}, index order {index} and {dimensions} dimensions disagree"
  | stated reason => reason

def IndexFault.reason : IndexFault → String
  | emptyPositions => "position array is empty"
  | positionsStart first => s!"position array starts at {first}, expected 0"
  | positionsDecrease place entry next => s!"position array decreases at {place}: {entry} > {next}"
  | positionsEnd last coordinates => s!"position array ends at {last} but {coordinates} coordinates are stored"
  | negativeCoordinate coordinate => s!"negative coordinate {coordinate}"
  | negativeCoordinateAt coordinate level => s!"negative coordinate {coordinate} at level {level}"
  | missingLevel level order => s!"level {level} requested from an index of order {order}"
  | denseExtent level extent => s!"dense level {level} has extent {extent}"
  | positionsLength level entries expected =>
    s!"level {level} position array has {entries} entries, expected {expected}"
  | positionCount positions size values =>
    s!"levels address {positions} positions, index size is {size} and {values} values are stored"
  | valueCount size values => s!"index addresses {size} values but {values} are provided"
  | extentMismatch level extent expected => s!"dense level {level} has extent {extent}, expected {expected}"
  | coordinatePast coordinate level dimension =>
    s!"coordinate {coordinate} at level {level} exceeds dimension {dimension}"
  | stated reason => reason

def ShapeFault.reason : ShapeFault → String
  | dimensionTooLarge dimension => s!"dimension {dimension} exceeds the index range"
  | tooManyElements dimensions => s!"{Coordinate.text dimensions} has too many elements for a dense copy"
  | stated reason => reason

def StorageError.message : StorageError → String
  | dimensionMismatch expected got => s!"Dimension mismatch: expected {expected} coordinates, got {got}"
  | typeMismatch expected got => s!"Type mismatch: expected {expected.name}, got {got.name}"
  | outOfBounds coordinate dimensions =>
    s!"Index out of bounds: coordinate {Coordinate.text coordinate} exceeds dimensions {Coordinate.text dimensions}"
  | invalidModeAccess array available => s!"Invalid mode access: array {array} requested, mode exposes {available}"
  | unsupportedModeType modeType level => s!"Unsupported mode type {modeType.name} at level {level}"
  | invalidFormat fault => "Invalid format: " ++ fault.reason
  | invalidIndex fault => "Invalid index: " ++ fault.reason
  | invalidShape fault => "Invalid shape: " ++ fault.reason
  | duplicateCoordinate coordinate => "Duplicate coordinate " ++ Coordinate.text coordinate
  | indexOverflow count => s!"Index overflow: {count} exceeds the index range"
  | notPacked name => s!"Tensor '{name}' has not been packed"

inductive Failure where
  | refused (cause : StorageError)
  /-- A place outside an array, a number past the words, or more room than an array can have was asked for. -/
  | breach
deriving DecidableEq, Repr

abbrev Checked := Except StorageError

/-- A computation that may be refused or used past what it promises. -/
abbrev Outcome := Except Failure

namespace Outcome

def ofChecked {α : Type} (c : Checked α) : Outcome α := c.mapError .refused

def ofOption {α : Type} : Option α → Outcome α
  | some a => .ok a
  | none => .error .breach

instance : MonadLift Checked Outcome := ⟨ofChecked⟩
instance : MonadLift Option Outcome := ⟨ofOption⟩

@[simp] theorem ofChecked_ok {α : Type} (a : α) : ofChecked (.ok a) = .ok a := rfl
@[simp] theorem ofChecked_error {α : Type} (e : StorageError) :
    ofChecked (.error e : Checked α) = .error (.refused e) := rfl
@[simp] theorem ofOption_some {α : Type} (a : α) : ofOption (some a) = .ok a := rfl
@[simp] theorem ofOption_none {α : Type} : ofOption (none : Option α) = .error .breach := rfl

end Outcome

end TensorStorage
