/-!
# Binary — floating-point numbers held by their bits

A number is a sign, an exponent field and a fraction field, laid out as the IEEE interchange formats do.  Below the
sign bit the two fields read as one natural number, the number's *code*, which grows with the magnitude; the code of
the infinities is the largest that is not a NaN's.

Every finite magnitude is a whole multiple of the least positive one, and `units` is that multiple.  Addition adds
multiples exactly and rounds once, to the nearest number and to the even code of two equally near ones.  Which NaN
results is not kept: a NaN that arises is `nan`.
-/
namespace TensorStorage

/-- The field widths of a binary interchange layout. -/
structure BinaryLayout where
  exponentBits : Nat
  fractionBits : Nat
deriving DecidableEq, Repr

namespace BinaryLayout

def single : BinaryLayout := ⟨8, 23⟩
def double : BinaryLayout := ⟨11, 52⟩

def width (l : BinaryLayout) : Nat := 1 + l.exponentBits + l.fractionBits

/-- What the sign bit counts for: one more than the largest code. -/
def signWeight (l : BinaryLayout) : Nat := Nat.pow 2 (l.exponentBits + l.fractionBits)

def binade (l : BinaryLayout) : Nat := Nat.pow 2 l.fractionBits

/-- The code of the infinities: every exponent bit set and no fraction bit. -/
def infinityCode (l : BinaryLayout) : Nat := (Nat.pow 2 l.exponentBits - 1) * l.binade

/-- The least positive magnitude is two to the minus this. -/
def scale (l : BinaryLayout) : Nat := Nat.pow 2 (l.exponentBits - 1) + l.fractionBits - 2

end BinaryLayout

/-- A binary floating-point number, held by its bits. -/
structure Binary (l : BinaryLayout) where
  bits : BitVec l.width
deriving DecidableEq

abbrev Binary32 := Binary .single
abbrev Binary64 := Binary .double

namespace Binary

variable {l : BinaryLayout}

/-- The number with these bits, the lowest `l.width` of them. -/
def ofBits (l : BinaryLayout) (bits : Nat) : Binary l := ⟨BitVec.ofNat l.width bits⟩

def ofCode (l : BinaryLayout) (negative : Bool) (code : Nat) : Binary l :=
  ofBits l (if negative then l.signWeight + code else code)

def zero : Binary l := ofCode l false 0

/-- The NaN that operations give: the quiet one without sign or payload. -/
def nan : Binary l := ofCode l false (l.infinityCode + l.binade / 2)

def negative (x : Binary l) : Bool := l.signWeight ≤ x.bits.toNat

def code (x : Binary l) : Nat := x.bits.toNat % l.signWeight

def isNaN (x : Binary l) : Bool := l.infinityCode < x.code

def isInfinite (x : Binary l) : Bool := x.code == l.infinityCode

def isZero (x : Binary l) : Bool := x.code == 0

/-- Numeric order against zero: neither zero is below it, and no NaN is. -/
def belowZero (x : Binary l) : Bool := x.negative && !x.isZero && !x.isNaN

def abs (x : Binary l) : Binary l := ofCode l false x.code

/-- Numeric equality: the two zeros are equal and a NaN equals nothing, itself included. -/
def equals (x y : Binary l) : Bool := !x.isNaN && !y.isNaN && (x.isZero && y.isZero || x == y)

/-! ## Magnitudes in units of the least positive one -/

def exponentField (x : Binary l) : Nat := x.code / l.binade

/-- A finite magnitude as a multiple of the least positive one.  From the second exponent on, the leading one that
the fraction field leaves out is put back. -/
def units (x : Binary l) : Nat :=
  if x.exponentField = 0 then x.code
  else (x.code % l.binade + l.binade) * Nat.pow 2 (x.exponentField - 1)

def signedUnits (x : Binary l) : Int := if x.negative then -(x.units : Int) else x.units

/-- The quotient to the nearest whole number, a half to the even one. -/
def divToEven (n d : Nat) : Nat :=
  let quotient := n / d
  let twice := 2 * (n % d)
  if twice < d then quotient else if d < twice then quotient + 1 else quotient + quotient % 2

/-- The code of the magnitude nearest to `n` units.  Codes and units agree below twice the first normal magnitude;
above it the fraction keeps the leading bits, and a carry out of them runs into the exponent as it should. -/
def roundedCode (l : BinaryLayout) (n : Nat) : Nat :=
  if n < 2 * l.binade then n
  else
    let dropped := n.log2 - l.fractionBits
    min (dropped * l.binade + divToEven n (Nat.pow 2 dropped)) l.infinityCode

/-- The sum, rounded once.  Opposite infinities have none; a sum of nothing is minus zero only from two minus zeros. -/
def add (x y : Binary l) : Binary l :=
  if x.isNaN || y.isNaN then nan
  else if x.isInfinite then (if y.isInfinite && x.negative != y.negative then nan else x)
  else if y.isInfinite then y
  else
    let sum := x.signedUnits + y.signedUnits
    if sum = 0 then ofCode l (x.negative && y.negative) 0
    else ofCode l (decide (sum < 0)) (roundedCode l sum.natAbs)

end Binary

end TensorStorage
