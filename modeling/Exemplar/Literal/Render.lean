import Exemplar.Decimal.Digits
import Exemplar.Decimal.Shortest
import Exemplar.Literal.Basic
import Exemplar.Text.Quoted

/-!
# Literal/Render — the source text of a literal

Text is quoted, a whole number is written in digits, and a float always shows a point: exactly when
its value is whole, else with the fewest digits that read back, never with an exponent. Only a
delegate shows the accessor name.
-/

namespace Exemplar.Literal

/-- The magnitude of a finite float. A whole value is written out exactly with one zero after the
point; of two shortest decimals that are equally near, the greater is written. -/
def finiteChars (x : Binary64) : List Char :=
  if x.isIntegral then
    Nat.toDigits 10 (Binary64.units x.magnitude / Binary64.unit) ++ ['.', '0']
  else (Decimal.shortest .toGreater x.magnitude).positional

/-- The text of a float. Zero keeps its sign, and NaN has none. -/
def floatChars (x : Binary64) : List Char :=
  if x.isNaN then "NaN".toList
  else (if x.isNegative then ['-'] else []) ++
    (if x.isFinite then finiteChars x else "inf".toList)

/-- Puts a comma and a blank between items. -/
def separated (items : List (List Char)) : List Char :=
  ", ".toList.intercalate items

/-- Items in brackets. -/
def bracketed (items : List (List Char)) : List Char :=
  '[' :: separated items ++ [']']

mutual

/-- The text of a literal whose delegates use the accessor named `accessor`. -/
def chars (accessor : List Char) : Literal → List Char
  | string text => Text.Quoted.quote text.toList
  | integer value => Decimal.intChars value.toInt
  | float value => floatChars value
  | bool value => if value then "true".toList else "false".toList
  | nil => "nil".toList
  | array elements => bracketed (charsOfAll accessor elements)
  | set elements => "Set(".toList ++ bracketed (charsOfAll accessor elements) ++ [')']
  | dictionary [] => "[:]".toList
  | dictionary (e :: es) => bracketed (charsOfEntries accessor (e :: es))
  | delegate typeName => typeName.toList ++ '.' :: accessor

/-- The text of each element. -/
def charsOfAll (accessor : List Char) : List Literal → List (List Char)
  | [] => []
  | l :: ls => chars accessor l :: charsOfAll accessor ls

/-- The text of each entry: a key, a colon and its value. -/
def charsOfEntries (accessor : List Char) : List (Literal × Literal) → List (List Char)
  | [] => []
  | (k, v) :: es =>
    (chars accessor k ++ ": ".toList ++ chars accessor v) :: charsOfEntries accessor es

end

/-- The source text of a literal. -/
def render (l : Literal) (accessor : String) : String :=
  String.ofList (l.chars accessor.toList)

end Exemplar.Literal
