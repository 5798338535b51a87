/-!
# Decimal/Digits — whole numbers in decimal text

Writing and reading of whole numbers: digits are ASCII, leading zeros are allowed, and a sign may
stand in front. The range a number has to lie in is left to the caller.
-/

namespace Exemplar.Decimal

/-- The value of a digit character. -/
def digitValue (c : Char) : Nat := c.toNat - '0'.toNat

/-- The number that a run of digits denotes. -/
def ofDigits (ds : List Char) : Nat :=
  ds.foldl (fun n d => 10 * n + digitValue d) 0

/-- The number written by `s`, if `s` is one or more digits. -/
def readNat? (s : List Char) : Option Nat :=
  if !s.isEmpty && s.all Char.isDigit then some (ofDigits s) else none

/-- The number written by `s` as digits that may follow a plus sign. -/
def readUnsigned? : List Char → Option Nat
  | '+' :: s => readNat? s
  | s => readNat? s

/-- The number written by `s` as digits that may follow a plus or minus sign. -/
def readSigned? : List Char → Option Int
  | '-' :: s => (readNat? s).map fun n => -(n : Int)
  | s => (readUnsigned? s).map fun n => (n : Int)

/-- A whole number's text: digits without leading zeros, after a minus sign if it is negative. -/
def intChars : Int → List Char
  | .ofNat n => Nat.toDigits 10 n
  | .negSucc n => '-' :: Nat.toDigits 10 (n + 1)

end Exemplar.Decimal
