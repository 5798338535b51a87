import Exemplar.Decimal.Binary64

/-!
# Decimal/Shortest — the shortest decimal that reads back as a double

A decimal point of the grid with step 10ˢ reads back as a double when it lies in the interval of
numbers that round to that double. `shortest` looks at the grids from the coarsest that can matter
to the finest: on each only the two neighbours of the value are tried, the nearer one first. Which
of two equally near ones is taken differs between formats and is a parameter. Should no grid of up
to 17 digits have a hit, the exact decimal expansion is taken.
-/

namespace Exemplar

/-- The decimal number `digits · 10 ^ exponent`. -/
structure Decimal where
  digits : Nat
  exponent : Int
  deriving DecidableEq, Repr

namespace Decimal

/-- A factor for the numerator that multiplies by 10ˢ where `s` is positive. -/
def scaleUp (s : Int) : Nat := Nat.pow 10 s.toNat

/-- A factor for the denominator that divides by 10⁻ˢ where `s` is negative. -/
def scaleDown (s : Int) : Nat := Nat.pow 10 (-s).toNat

/-- Whether `d · 10ˢ` lies between the midpoints to the neighbours of a double, in units doubled so
that midpoints are whole. The midpoints themselves belong to the double with even bits. -/
def readsBack (magnitude d : Nat) (s : Int) : Bool :=
  let value := Binary64.units magnitude
  let low := (value + Binary64.units (magnitude - 1)) * scaleDown s
  let high := (value + Binary64.units (magnitude + 1)) * scaleDown s
  let point := 2 * d * scaleUp s * Binary64.unit
  if magnitude % 2 = 0 then decide (low ≤ point ∧ point ≤ high)
  else decide (low < point ∧ point < high)

/-- Which of two decimals is taken that are equally near. -/
inductive Tie where
  /-- The greater one. -/
  | toGreater
  /-- The one whose last digit is even. -/
  | toEven
  deriving DecidableEq, Repr

/-- Whether a tie between `below` and its successor goes to the successor. -/
def Tie.goesUp (tie : Tie) (below : Nat) : Bool :=
  match tie with
  | toGreater => true
  | toEven => below % 2 == 1

/-- The nearer of the double's two neighbours on the grid with step 10ˢ among those that read
back as it. -/
def onGrid? (tie : Tie) (magnitude : Nat) (s : Int) : Option Decimal :=
  let value := Binary64.units magnitude * scaleDown s
  let step := scaleUp s * Binary64.unit
  let below := value / step
  let twice := 2 * (value % step)
  let upperIsNearer := decide (step < twice) || (twice == step && tie.goesUp below)
  match readsBack magnitude below s, readsBack magnitude (below + 1) s with
  | true, true => some ⟨if upperIsNearer then below + 1 else below, s⟩
  | true, false => some ⟨below, s⟩
  | false, true => some ⟨below + 1, s⟩
  | false, false => none

/-- The number of decimal digits of `n`; zero has one. -/
def digitCount (n : Nat) : Nat := (Nat.toDigits 10 n).length

/-- The `k` with 10ᵏ⁻¹ ≤ value < 10ᵏ, for a positive double: 400 places are enough to bring the
least one above 1. -/
def pointPlace (magnitude : Nat) : Int :=
  digitCount (Binary64.units magnitude * Nat.pow 10 400 / Binary64.unit) - 400

/-- All digits of a double: a multiple of 2⁻¹⁰⁷⁴ is one of 10⁻¹⁰⁷⁴. -/
def exact (magnitude : Nat) : Decimal :=
  ⟨Binary64.units magnitude * Nat.pow 5 1074, -1074⟩

/-- The same number without trailing zeros among the digits, trying at most `fuel` of them. -/
def stripZeros : Nat → Decimal → Decimal
  | 0, x => x
  | fuel + 1, x =>
    if x.digits % 10 = 0 then stripZeros fuel ⟨x.digits / 10, x.exponent + 1⟩ else x

/-- The decimal with the fewest digits that reads back as the positive double with these magnitude
bits, nearest to it among those. -/
def shortest (tie : Tie) (magnitude : Nat) : Decimal :=
  let found := (List.range 17).findSome? fun (i : Nat) =>
    onGrid? tie magnitude (pointPlace magnitude - (i + 1))
  stripZeros 17 (found.getD (exact magnitude))

/-- Digits with a point `places` digits before their end, and a zero before a point that would
come first. -/
def withPoint (digits : List Char) (places : Nat) : List Char :=
  let padded := List.replicate (places + 1 - digits.length) '0' ++ digits
  padded.take (padded.length - places) ++ '.' :: padded.drop (padded.length - places)

/-- The number in positional notation, with a point only where digits follow it. -/
def positional (x : Decimal) : List Char :=
  let digits := Nat.toDigits 10 x.digits
  if 0 ≤ x.exponent then digits ++ List.replicate x.exponent.toNat '0'
  else withPoint digits (-x.exponent).toNat

end Decimal

end Exemplar
