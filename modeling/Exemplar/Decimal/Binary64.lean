/-!
# Decimal/Binary64 — IEEE 754 doubles by their bits

A double is its 64-bit pattern, and everything about it is natural-number arithmetic: the magnitude
bits of a finite double count upwards through all doubles, and `units` reads a magnitude as a
multiple of the least positive double, 2⁻¹⁰⁷⁴. `nearest` goes back from a quotient to the closest
magnitude, ties to even. There are no floating-point operations of the machine here, so statements
about printed digits are statements about numbers.
-/

namespace Exemplar

/-- A double, given by its bits: sign, 11 exponent bits, 52 fraction bits. -/
structure Binary64 where
  bits : UInt64
  deriving DecidableEq, Repr, Inhabited

namespace Binary64

/-- The number of patterns of the 52 fraction bits. -/
def fractionSize : Nat := Nat.pow 2 52

/-- The weight of the sign bit. -/
def signWeight : Nat := Nat.pow 2 63

/-- The magnitude bits of infinity; greater ones are not a number. -/
def infinityMagnitude : Nat := 2047 * fractionSize

/-- The pattern without its sign bit. -/
def magnitude (x : Binary64) : Nat := x.bits.toNat % signWeight

/-- The sign bit; it is set for -0.0 as well. -/
def isNegative (x : Binary64) : Bool := decide (signWeight ≤ x.bits.toNat)

def isFinite (x : Binary64) : Bool := decide (x.magnitude < infinityMagnitude)

def isNaN (x : Binary64) : Bool := decide (infinityMagnitude < x.magnitude)

/-- The double with this sign and these magnitude bits. -/
def ofMagnitude (negative : Bool) (magnitude : Nat) : Binary64 :=
  ⟨UInt64.ofNat (if negative then signWeight + magnitude else magnitude)⟩

/-- One, in multiples of 2⁻¹⁰⁷⁴. -/
def unit : Nat := Nat.pow 2 1074

/-- The value of magnitude bits in multiples of 2⁻¹⁰⁷⁴. Below the first full exponent the bits are
the multiple itself. -/
def units (magnitude : Nat) : Nat :=
  if magnitude < fractionSize then magnitude
  else (fractionSize + magnitude % fractionSize) * Nat.pow 2 (magnitude / fractionSize - 1)

/-- The natural number closest to `num / den`; of two equally close, the even one. -/
def roundHalfEven (num den : Nat) : Nat :=
  let floor := num / den
  let twice := 2 * (num % den)
  if twice < den then floor
  else if den < twice then floor + 1
  else floor + floor % 2

/-- The magnitude bits of the double closest to `num / den`, ties to even. The quotient in units is
scaled to 53 bits and rounded; adding the result to the exponent bits carries into them by itself.
Past the greatest finite double the result is at least `infinityMagnitude`. -/
def nearest (num den : Nat) : Nat :=
  let scaled := num * unit
  let exponent := (scaled / den).log2 - 52
  exponent * fractionSize + roundHalfEven scaled (den * Nat.pow 2 exponent)

/-- Whether the value is a whole number. -/
def isIntegral (x : Binary64) : Bool :=
  x.isFinite && decide (units x.magnitude % unit = 0)

/-- Numeric equality, with every NaN equal to every other: 0.0 and -0.0 are equal. -/
def sameNumber (x y : Binary64) : Bool :=
  (x.isNaN && y.isNaN) ||
    (!x.isNaN && !y.isNaN && (decide (x = y) || (x.magnitude == 0 && y.magnitude == 0)))

end Binary64

end Exemplar
