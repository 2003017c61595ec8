import TensorStorage.Number.Binary
import TensorStorage.Number.Shortest
/-!
# BinaryText — how a floating-point number is shown

A finite number is shown by the decimal with the fewest digits that reads back as it, in positional notation.  Both
zeros show their sign, infinities are `inf`, and every NaN is `NaN`.
-/
namespace TensorStorage.Binary

variable {l : BinaryLayout}

/-- Decimal places that hold every number of the layout exactly, and a quarter of the least positive one. -/
def places (l : BinaryLayout) : Nat := l.scale + 2

/-- The distance to the next magnitude above, in units. -/
def gapAbove (x : Binary l) : Nat := Nat.pow 2 (x.exponentField - 1)

/-- Twice the distance to the next magnitude below, in units.  Below the first magnitude of an exponent the numbers lie
twice as close, unless that exponent is the least one. -/
def twiceGapBelow (x : Binary l) : Nat :=
  if x.code % l.binade = 0 && 1 < x.exponentField then x.gapAbove else 2 * x.gapAbove

/-- The reals that round to a finite magnitude, on the grid of `places` decimals: up to half a gap to either side, the
middles included when the fraction is even. -/
def readingBack (x : Binary l) : Decimal.Interval :=
  let quarter := 25 * Nat.pow 5 l.scale
  { lower := (4 * x.units - x.twiceGapBelow) * quarter
    value := 4 * x.units * quarter
    upper := (4 * x.units + 2 * x.gapAbove) * quarter
    closed := x.code % 2 == 0 }

def magnitudeText (x : Binary l) : String :=
  Decimal.positional (Decimal.shortest x.readingBack) (places l)

def text (x : Binary l) : String :=
  if x.isNaN then "NaN"
  else (if x.negative then "-" else "") ++ (if x.isInfinite then "inf" else x.magnitudeText)

end TensorStorage.Binary
