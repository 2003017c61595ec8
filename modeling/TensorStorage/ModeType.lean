/-!
# ModeType — how one level of a storage lists its coordinates
-/
namespace TensorStorage

/-- The storage discipline of one level. -/
inductive ModeType where
  /-- Every coordinate below the extent is stored, under every parent. -/
  | dense
  /-- The stored coordinates are listed, and a position array cuts the list into one segment per parent. -/
  | compressed
  /-- One child per parent.  Formats and descriptors know it; packing and walking refuse it. -/
  | singleton
deriving DecidableEq, Repr

namespace ModeType

def all : List ModeType := [dense, compressed, singleton]

def name : ModeType → String
  | dense => "dense"
  | compressed => "compressed"
  | singleton => "singleton"

/-- The stable number that stands for the mode type in a descriptor. -/
def tag : ModeType → Nat
  | dense => 0
  | compressed => 1
  | singleton => 2

def ofName? (text : String) : Option ModeType := all.find? (·.name == text)

/-- True of the mode types that packing and walking implement. -/
def isSupported : ModeType → Bool
  | dense | compressed => true
  | singleton => false

end ModeType

end TensorStorage
