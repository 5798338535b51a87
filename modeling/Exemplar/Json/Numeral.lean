import Exemplar.Json.Reading

/-!
# Json/Numeral — numbers of a document

A number is an integer part without leading zeros, then optionally a fraction and an exponent. A
whole number that fits 64 bits is kept exactly, with -0 being a double. Everything else becomes a
double in two steps: digits are collected while they fit 64 unsigned bits and the rest only move
the point, then the collected number is multiplied or divided by a power of ten as doubles.
-/

namespace Exemplar.Json.Numeral

/-- The greatest number of 64 unsigned bits. -/
def maxWord : Nat := 0xFFFFFFFFFFFFFFFF

/-- The number collected from more digits after `n`, with those that do not fit any more. -/
def collect (n : Nat) : List Char → Nat × List Char
  | [] => (n, [])
  | d :: ds =>
    if maxWord < 10 * n + Decimal.digitValue d then (n, d :: ds)
    else collect (10 * n + Decimal.digitValue d) ds

/-- The magnitude of the double nearest to 10ᵏ. -/
def powerOfTen (k : Nat) : Nat := Binary64.nearest (Nat.pow 10 k) 1

/-- The product of two doubles' magnitudes, rounded. -/
def multiply (a b : Nat) : Nat :=
  Binary64.nearest (Binary64.units a * Binary64.units b) (Binary64.unit * Binary64.unit)

/-- The quotient of two doubles' magnitudes, rounded. -/
def divide (a b : Nat) : Nat :=
  Binary64.nearest (Binary64.units a) (Binary64.units b)

/-- A magnitude divided by 10ᵏ, by at most 10³⁰⁸ at a time. Nothing is left of any collected number
after two such steps, so further ones are not taken. -/
def divideByPower (magnitude k : Nat) : Nat :=
  if k ≤ 308 then divide magnitude (powerOfTen k)
  else if k ≤ 616 then divide (divide magnitude (powerOfTen 308)) (powerOfTen (k - 308))
  else 0

/-- The magnitude of `n · 10 ^ exponent`; there is none if it is too great for a double. -/
def scale? (n : Nat) (exponent : Int) : Option Nat :=
  let magnitude := Binary64.nearest n 1
  if exponent < 0 then some (divideByPower magnitude exponent.natAbs)
  else if exponent ≤ 308 then
    let product := multiply magnitude (powerOfTen exponent.toNat)
    if product < Binary64.infinityMagnitude then some product else none
  else if n = 0 then some 0
  else none

/-- The double `n · 10 ^ exponent` that ends before `rest`. -/
def toReal (negative : Bool) (n : Nat) (exponent : Int) (rest : List Char) : Reading Number :=
  match scale? n exponent with
  | some magnitude => .ok (.real (.ofMagnitude negative magnitude), rest)
  | none => .error (.here .numberOutOfRange rest)

/-- The exponent's digits so far make `e`. An exponent that does not fit 31 bits is too great as
soon as that shows, unless the number is 0 or the exponent negative; then the result is 0. -/
def readExponentDigits (negative : Bool) (n : Nat) (exponent : Int) (minus : Bool) (e : Nat) :
    List Char → Reading Number
  | d :: rest =>
    if d.isDigit then
      if 0x80000000 ≤ 10 * e + Decimal.digitValue d then
        if n ≠ 0 ∧ minus = false then .error (.here .numberOutOfRange rest)
        else .ok (.real (.ofMagnitude negative 0), rest.dropWhile Char.isDigit)
      else readExponentDigits negative n exponent minus (10 * e + Decimal.digitValue d) rest
    else toReal negative n (if minus then exponent - e else exponent + e) (d :: rest)
  | [] => toReal negative n (if minus then exponent - e else exponent + e) []

/-- The sign of an exponent. -/
def readSign : List Char → Bool × List Char
  | '+' :: rest => (false, rest)
  | '-' :: rest => (true, rest)
  | rest => (false, rest)

/-- The exponent, after its letter. -/
def readExponent (negative : Bool) (n : Nat) (exponent : Int) (s : List Char) : Reading Number :=
  match readSign s with
  | (_, []) => .error (.here .endInValue [])
  | (minus, d :: rest) =>
    if d.isDigit then
      readExponentDigits negative n exponent minus (Decimal.digitValue d) rest
    else .error (.peek .invalidNumber (d :: rest))

/-- Whether `c` introduces an exponent. -/
def isExponentMark (c : Char) : Bool := c = 'e' || c = 'E'

/-- What may follow the digits of a double: an exponent or nothing. -/
def readScale (negative : Bool) (n : Nat) (exponent : Int) : List Char → Reading Number
  | c :: rest =>
    if isExponentMark c then readExponent negative n exponent rest
    else toReal negative n exponent (c :: rest)
  | [] => toReal negative n exponent []

/-- The fraction, after its point. -/
def readFraction (negative : Bool) (n : Nat) (exponent : Int) (s : List Char) : Reading Number :=
  let digits := s.takeWhile Char.isDigit
  let rest := s.dropWhile Char.isDigit
  if digits.isEmpty then
    .error (if rest.isEmpty then .here .endInValue [] else .peek .invalidNumber rest)
  else
    let (m, unused) := collect n digits
    readScale negative m (exponent - (digits.length - unused.length)) rest

/-- A whole number: below zero down to -2⁶³ and from zero up to 2⁶⁴ - 1. -/
def ofWhole (negative : Bool) (n : Nat) : Number :=
  if negative then
    if n = 0 ∨ 0x8000000000000000 < n then .real (.ofMagnitude true (Binary64.nearest n 1))
    else .integer (-n)
  else .integer n

/-- What may follow the integer part, whose collected number is `n` with `dropped` digits left
out. -/
def readTail (negative : Bool) (n dropped : Nat) : List Char → Reading Number
  | '.' :: rest => readFraction negative n dropped rest
  | rest =>
    match rest with
    | c :: _ =>
      if isExponentMark c || dropped != 0 then readScale negative n dropped rest
      else .ok (ofWhole negative n, rest)
    | [] =>
      if dropped = 0 then .ok (ofWhole negative n, rest) else readScale negative n dropped rest

/-- A number, after its minus sign if it has one. -/
def readUnsigned (negative : Bool) (s : List Char) : Reading Number :=
  let digits := s.takeWhile Char.isDigit
  let rest := s.dropWhile Char.isDigit
  match digits with
  | [] => .error (if s.isEmpty then .here .endInValue [] else .peek .invalidNumber s)
  | '0' :: _ :: _ => .error (.peek .invalidNumber (s.drop 1))
  | _ =>
    let (n, dropped) := collect 0 digits
    readTail negative n dropped.length rest

/-- A number that starts with a digit or a minus sign. -/
def read : List Char → Reading Number
  | '-' :: s => readUnsigned true s
  | s => readUnsigned false s

/-- The remainder after an exponent's letter, sign and digits. -/
def skipExponent (s : List Char) : Except Failure (List Char) :=
  match (readSign s).2 with
  | d :: rest =>
    if d.isDigit then .ok (rest.dropWhile Char.isDigit)
    else .error (.peek .invalidNumber (d :: rest))
  | [] => .error (.here .invalidNumber [])

/-- The remainder after an exponent, if there is one. -/
def skipScale : List Char → Except Failure (List Char)
  | c :: rest => if isExponentMark c then skipExponent rest else .ok (c :: rest)
  | [] => .ok []

/-- The remainder after what may follow the integer part. -/
def skipTail : List Char → Except Failure (List Char)
  | '.' :: s =>
    if (s.takeWhile Char.isDigit).isEmpty then .error (.peek .invalidNumber s)
    else skipScale (s.dropWhile Char.isDigit)
  | s => skipScale s

/-- The remainder after a number without its minus sign. Its size does not matter. -/
def skipUnsigned (s : List Char) : Except Failure (List Char) :=
  match s.takeWhile Char.isDigit with
  | [] => .error (.peek .invalidNumber s)
  | '0' :: _ :: _ => .error (.peek .invalidNumber (s.drop 1))
  | _ => skipTail (s.dropWhile Char.isDigit)

/-- The remainder after a number that starts with a digit or a minus sign. -/
def skip : List Char → Except Failure (List Char)
  | '-' :: s => skipUnsigned s
  | s => skipUnsigned s

end Exemplar.Json.Numeral
