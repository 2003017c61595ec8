/-!
# Shortest — the decimal number with the fewest digits in an interval

A decimal number of bounded fineness is a natural number together with a count of places.  `shortest` picks, from an
interval around a value, a number with the fewest significant digits, the nearest to the value of those, the upper one
of two equally near; `positional` writes a number out without an exponent.
-/
namespace TensorStorage.Decimal

/-- How many digits the number is written with; none for zero. -/
def digitCount (n : Nat) : Nat := if n = 0 then 0 else (toString n).length

/-- An interval of natural numbers around a value, with or without its two ends. -/
structure Interval where
  lower : Nat
  value : Nat
  upper : Nat
  closed : Bool

def Interval.contains (i : Interval) (n : Nat) : Bool :=
  if i.closed then i.lower ≤ n && n ≤ i.upper else i.lower < n && n < i.upper

/-- The multiple of `grid` in the interval that is nearest to its value: one of the value's two neighbours. -/
def Interval.nearestOn? (i : Interval) (grid : Nat) : Option Nat :=
  let below := i.value / grid * grid
  let above := below + grid
  match i.contains below, i.contains above with
  | true, true => some (if i.value - below < above - i.value then below else above)
  | true, false => some below
  | false, true => some above
  | false, false => none

/-- The number of the interval with the fewest significant digits.  The grids get ten times finer from one to the
next, down to whole numbers, where the value itself is a neighbour. -/
def shortest (i : Interval) : Nat :=
  let length := digitCount i.value
  ((List.range length).findSome? fun kept => i.nearestOn? (Nat.pow 10 (length - 1 - kept))).getD i.value

/-- A number of `places` decimal places, written out: no exponent, no zeros at the end of the fraction, and no point
without a fraction. -/
def positional (n places : Nat) : String :=
  let fraction := n % Nat.pow 10 places
  let whole := toString (n / Nat.pow 10 places)
  if fraction = 0 then whole
  else
    let digits := (toString fraction).toList
    let padded := List.replicate (places - digits.length) '0' ++ digits
    whole ++ "." ++ String.ofList ((padded.reverse.dropWhile (· == '0')).reverse)

end TensorStorage.Decimal
