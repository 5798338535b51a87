import Exemplar.Json.Basic
import Exemplar.Text.Printable

/-!
# Json/Error — what is wrong with a document, and where

An error has a cause, the path of the value that it concerns, and, where it was found while reading
text, a line and a column. A path steps through field names, array indices and the names of
variants; a step may also be unknown, when the text fails where a key should be.
-/

namespace Exemplar.Json

/-- A step of a path. -/
inductive Step where
  | key (name : String)
  | index (i : Nat)
  | variant (name : String)
  | unknown
  deriving DecidableEq, Repr

/-- What was found where something else was expected. -/
inductive Found where
  | null
  | bool (value : Bool)
  | number (value : Number)
  | string (text : String)
  | sequence
  | map
  /-- The bare name of a variant that should have content. -/
  | unitVariant
  deriving DecidableEq, Repr

/-- A cause of failure. -/
inductive Fault where
  | endInValue
  | endInString
  | endInArray
  | endInObject
  | expectedValue
  | expectedWord
  | expectedColon
  | expectedArrayEnd
  | expectedObjectEnd
  | trailingComma
  | trailingCharacters
  | keyNotString
  | invalidNumber
  | numberOutOfRange
  | invalidEscape
  | controlCharacter
  | loneSurrogate
  | unfinishedPair
  | tooDeep
  | wrongType (found : Found) (expected : String)
  | wrongValue (found : Found) (expected : String)
  | wrongLength (length : Nat) (expected : String)
  | unknownVariant (name : String) (choices : List String)
  | missingField (name : String)
  | duplicateField (name : String)
  deriving DecidableEq, Repr

/-- A place in a text: the line counts from 1, the column is the number of bytes before it on its
line. -/
structure Position where
  line : Nat := 1
  column : Nat := 0
  deriving DecidableEq, Repr, Inhabited

/-- A failure as it is reported. -/
structure Error where
  path : List Step := []
  fault : Fault
  position : Option Position := none
  deriving DecidableEq, Repr

namespace Found

/-- How a message names what was found. -/
def text : Found → String
  | null => "null"
  | bool value => "boolean `" ++ (if value then "true" else "false") ++ "`"
  | number (.integer value) => "integer `" ++ String.ofList (Decimal.intChars value) ++ "`"
  | number (.real value) => "floating point `" ++ String.ofList (Number.real value).chars ++ "`"
  | string s => "string " ++ Text.shown s
  | sequence => "sequence"
  | map => "map"
  | unitVariant => "unit variant"

end Found

namespace Value

/-- What a message says was found where this value stands. -/
def found : Value → Found
  | null => .null
  | bool value => .bool value
  | number value => .number value
  | string text => .string text
  | array _ => .sequence
  | object _ => .map

end Value

namespace Fault

/-- The names that would have been right. -/
def choicesText : List String → String
  | [] => "there are no variants"
  | [a] => "expected `" ++ a ++ "`"
  | [a, b] => "expected `" ++ a ++ "` or `" ++ b ++ "`"
  | names => "expected one of " ++ ", ".intercalate (names.map fun name => "`" ++ name ++ "`")

/-- The wording of a cause. -/
def text : Fault → String
  | endInValue => "EOF while parsing a value"
  | endInString => "EOF while parsing a string"
  | endInArray => "EOF while parsing a list"
  | endInObject => "EOF while parsing an object"
  | expectedValue => "expected value"
  | expectedWord => "expected ident"
  | expectedColon => "expected `:`"
  | expectedArrayEnd => "expected `,` or `]`"
  | expectedObjectEnd => "expected `,` or `\x7d`"
  | trailingComma => "trailing comma"
  | trailingCharacters => "trailing characters"
  | keyNotString => "key must be a string"
  | invalidNumber => "invalid number"
  | numberOutOfRange => "number out of range"
  | invalidEscape => "invalid escape"
  | controlCharacter => "control character (\\u0000-\\u001F) found while parsing a string"
  | loneSurrogate => "lone leading surrogate in hex escape"
  | unfinishedPair => "unexpected end of hex escape"
  | tooDeep => "recursion limit exceeded"
  | wrongType found expected => "invalid type: " ++ found.text ++ ", expected " ++ expected
  | wrongValue found expected => "invalid value: " ++ found.text ++ ", expected " ++ expected
  | wrongLength length expected =>
    "invalid length " ++ String.ofList (Decimal.intChars length) ++ ", expected " ++ expected
  | unknownVariant name choices => "unknown variant `" ++ name ++ "`, " ++ choicesText choices
  | missingField name => "missing field `" ++ name ++ "`"
  | duplicateField name => "duplicate field `" ++ name ++ "`"

end Fault

namespace Step

/-- Steps as they are written one after the other: a dot stands before every step but the first
and the indices. -/
def textFrom (first : Bool) : List Step → String
  | [] => ""
  | .index i :: steps =>
    "[" ++ String.ofList (Decimal.intChars i) ++ "]" ++ textFrom false steps
  | .key name :: steps | .variant name :: steps =>
    (if first then "" else ".") ++ name ++ textFrom false steps
  | .unknown :: steps => (if first then "" else ".") ++ "?" ++ textFrom false steps

/-- A path from the root, which itself is a dot. -/
def pathText : List Step → String
  | [] => "."
  | steps => textFrom true steps

end Step

namespace Error

/-- The same failure seen from one step further out. -/
def under (step : Step) (e : Error) : Error :=
  { e with path := step :: e.path }

/-- The cause, and the position where one is known. -/
def detail (e : Error) : String :=
  match e.position with
  | some p =>
    e.fault.text ++ " at line " ++ String.ofList (Decimal.intChars p.line) ++ " column " ++
      String.ofList (Decimal.intChars p.column)
  | none => e.fault.text

/-- The message shown to a user. -/
def message (e : Error) : String :=
  "at JSON path " ++ Step.pathText e.path ++ " → " ++ e.detail

end Error

end Exemplar.Json
