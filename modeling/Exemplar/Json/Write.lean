import Exemplar.Json.Basic
import Exemplar.Json.Quoted

/-!
# Json/Write — the text of a value

`compact` writes a value without blanks. `pretty` gives every item and entry a line of its own,
indented by two spaces for each container around it; empty containers stay on one line.
-/

namespace Exemplar.Json.Value

/-- A key with its colon. -/
def keyChars (key : String) (colon : List Char) : List Char :=
  Quoted.encode key.toList ++ colon

mutual

/-- The text of a value without blanks. -/
def compactChars : Value → List Char
  | null => "null".toList
  | bool value => if value then "true".toList else "false".toList
  | number value => value.chars
  | string text => Quoted.encode text.toList
  | array items => '[' :: [','].intercalate (compactItems items) ++ [']']
  | object entries => '\x7b' :: [','].intercalate (compactEntries entries) ++ ['\x7d']

/-- The text of each value. -/
def compactItems : List Value → List (List Char)
  | [] => []
  | v :: vs => v.compactChars :: compactItems vs

/-- The text of each entry. -/
def compactEntries : List (String × Value) → List (List Char)
  | [] => []
  | (key, v) :: es => (keyChars key [':'] ++ v.compactChars) :: compactEntries es

end

/-- The text of a value without blanks. -/
def compact (v : Value) : String :=
  String.ofList v.compactChars

/-- The start of a line inside `depth` containers. -/
def newline (depth : Nat) : List Char :=
  '\n' :: List.replicate (2 * depth) ' '

/-- A container at `depth` whose contents each stand on a line. -/
def lines (first last : Char) (depth : Nat) (contents : List (List Char)) : List Char :=
  match contents with
  | [] => [first, last]
  | _ =>
    first :: newline (depth + 1) ++ (',' :: newline (depth + 1)).intercalate contents ++
      newline depth ++ [last]

mutual

/-- The text of a value inside `depth` containers, a line for each item and entry. -/
def prettyChars (depth : Nat) : Value → List Char
  | null => "null".toList
  | bool value => if value then "true".toList else "false".toList
  | number value => value.chars
  | string text => Quoted.encode text.toList
  | array items => lines '[' ']' depth (prettyItems (depth + 1) items)
  | object entries => lines '\x7b' '\x7d' depth (prettyEntries (depth + 1) entries)

/-- The text of each value. -/
def prettyItems (depth : Nat) : List Value → List (List Char)
  | [] => []
  | v :: vs => v.prettyChars depth :: prettyItems depth vs

/-- The text of each entry. -/
def prettyEntries (depth : Nat) : List (String × Value) → List (List Char)
  | [] => []
  | (key, v) :: es => (keyChars key [':', ' '] ++ v.prettyChars depth) :: prettyEntries depth es

end

/-- The text of a value with a line for each item and entry. -/
def pretty (v : Value) : String :=
  String.ofList (v.prettyChars 0)

end Exemplar.Json.Value
