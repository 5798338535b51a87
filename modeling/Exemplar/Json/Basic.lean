import Exemplar.Decimal.Digits
import Exemplar.Decimal.Shortest

/-!
# Json/Basic — JSON values

A value as a document gives it: objects keep their keys in the order in which they first came, with
one value each, and a number is either whole or a double.
-/

namespace Exemplar.Json

/-- A number. Whole numbers that fit 64 bits stay whole when a document is read; all others are
doubles. -/
inductive Number where
  | integer (value : Int)
  | real (value : Binary64)
  deriving DecidableEq, Repr, Inhabited

/-- A JSON value. -/
inductive Value where
  | null
  | bool (value : Bool)
  | number (value : Number)
  | string (text : String)
  | array (items : List Value)
  | object (entries : List (String × Value))
  deriving Repr, Inhabited

namespace Number

/-- The notation of doubles: up to 16 digits before a point and four zeros after one are written
out, else an exponent with a sign is used. Of two shortest decimals that are equally near, the one
with an even last digit is written. -/
def finiteChars (x : Binary64) : List Char :=
  if x.magnitude = 0 then "0.0".toList
  else
    let d := Decimal.shortest .toEven x.magnitude
    let digits := Nat.toDigits 10 d.digits
    let place : Int := digits.length + d.exponent
    if -5 < place ∧ place ≤ 16 then
      if 0 ≤ d.exponent then d.positional ++ ['.', '0'] else d.positional
    else
      let exponent := place - 1
      digits.take 1 ++ (if digits.length = 1 then [] else '.' :: digits.drop 1) ++
        'e' :: (if exponent < 0 then '-' else '+') :: Nat.toDigits 10 exponent.natAbs

/-- The text of a number. JSON has none for infinities and NaN, which are written as null. -/
def chars : Number → List Char
  | integer value => Decimal.intChars value
  | real value =>
    if value.isFinite then (if value.isNegative then ['-'] else []) ++ finiteChars value
    else "null".toList

end Number

namespace Value

mutual

/-- How deep arrays and objects are nested. -/
def nesting : Value → Nat
  | array items => nestingOfAll items + 1
  | object entries => nestingOfEntries entries + 1
  | _ => 0

/-- The deepest nesting among values. -/
def nestingOfAll : List Value → Nat
  | [] => 0
  | v :: vs => max v.nesting (nestingOfAll vs)

/-- The deepest nesting among the values of entries. -/
def nestingOfEntries : List (String × Value) → Nat
  | [] => 0
  | (_, v) :: es => max v.nesting (nestingOfEntries es)

end

/-- Gives `key` a value among entries. A key that is there keeps its place. -/
def insertEntry (key : String) (value : Value) : List (String × Value) → List (String × Value)
  | [] => [(key, value)]
  | e :: es => if e.1 = key then (key, value) :: es else e :: insertEntry key value es

/-- The object made by inserting entries in order: a repeated key takes the last value. -/
def ofEntries (entries : List (String × Value)) : Value :=
  object (entries.foldl (fun es e => insertEntry e.1 e.2 es) [])

/-- The value of the first entry called `key`. -/
def field? (v : Value) (key : String) : Option Value :=
  match v with
  | object entries => (entries.find? fun e => e.1 == key).map Prod.snd
  | _ => none

end Value

end Exemplar.Json
