import TensorStorage.Number.BinaryText
/-!
# Complex — complex numbers with floating-point parts

Sums and comparisons go part by part.
-/
namespace TensorStorage

structure Complex (l : BinaryLayout) where
  re : Binary l
  im : Binary l
deriving DecidableEq

abbrev Complex32 := Complex .single
abbrev Complex64 := Complex .double

namespace Complex

variable {l : BinaryLayout}

def zero : Complex l := ⟨.zero, .zero⟩

def add (x y : Complex l) : Complex l := ⟨x.re.add y.re, x.im.add y.im⟩

def equals (x y : Complex l) : Bool := x.re.equals y.re && x.im.equals y.im

/-- True when both parts are zeros of either sign. -/
def isZero (x : Complex l) : Bool := x.re.isZero && x.im.isZero

/-- The real part, then the imaginary part with its sign and `i`.  The sign is a minus only for an imaginary part
below zero, so a minus zero keeps its own sign behind the plus. -/
def text (x : Complex l) : String :=
  x.re.text ++ (if x.im.belowZero then "-" ++ x.im.abs.text else "+" ++ x.im.text) ++ "i"

end Complex

end TensorStorage
