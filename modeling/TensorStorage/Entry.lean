import TensorStorage.Coordinate
import TensorStorage.Value
/-!
# Entry — a value at a coordinate
-/
namespace TensorStorage

/-- A value at a coordinate: a record on its way into a tensor, or what a tensor stores. -/
structure Entry where
  coordinate : Coordinate
  value : Value
deriving DecidableEq

end TensorStorage
