import TensorStorage.Coordinate
/-!
# Room — how large one array can be

An array counts its bytes, and so its elements, by a signed word.  A request for more cannot be met, however empty the
array is to stay: it is a breach, before anything else about the array is looked at.
-/
namespace TensorStorage

/-- The largest number of bytes of one array, which is also the largest number of its elements. -/
def maxRoom : Nat := wordLimit / 2 - 1

/-- True when one array can have this many elements of this many bytes each. -/
def hasRoom (elements width : Nat) : Bool := elements * width ≤ maxRoom

def numberWidth : Nat := 8

/-- Bytes of one value together with its kind: the widest scalar and a word for the kind. -/
def valueWidth : Nat := 24

end TensorStorage
