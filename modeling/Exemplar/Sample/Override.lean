import Exemplar.Decimal.Digits
import Exemplar.Literal.Basic
import Exemplar.Sample.Error
import Exemplar.Text.Blank

/-!
# Sample/Override — literals that replace the built-in samples

A caller may replace the sample of a `String` and of an `Int`. Overrides arrive as pairs of texts:
a key, which is trimmed, and a value, which is taken as it stands for a string and as a 64-bit whole
number for an int. Pairs are checked in order, the first that does not fit is refused, and of two
that fit the later one counts.
-/

namespace Exemplar

open Text

namespace OverrideKind

/-- The kind named by `key`, blanks around it aside. -/
def parse (key : String) : Except ExpandError OverrideKind :=
  match [string, int].find? (fun kind => kind.typeName == trimmed key) with
  | some kind => .ok kind
  | none => .error (.unsupportedOverride key)

end OverrideKind

/-- The overrides in force. -/
structure Overrides where
  string : Option String := none
  int : Option Int64 := none
  deriving DecidableEq, Repr, Inhabited

namespace Overrides

/-- Whether an integer is one of the 64-bit words. -/
def isWord (n : Int) : Bool :=
  decide (-0x8000000000000000 ≤ n ∧ n ≤ 0x7FFFFFFFFFFFFFFF)

/-- The 64-bit number written by `value`, blanks around it aside. -/
def readInt? (value : String) : Option Int64 :=
  ((Decimal.readSigned? (trim value.toList)).filter isWord).map Int64.ofInt

/-- The table after one more pair. -/
def insert (o : Overrides) (key value : String) : Except ExpandError Overrides :=
  match OverrideKind.parse key with
  | .error e => .error e
  | .ok .string => .ok { o with string := some value }
  | .ok .int =>
    match readInt? value with
    | some n => .ok { o with int := some n }
    | none => .error (.invalidOverride .int value)

/-- The table of a list of pairs. -/
def ofPairs (pairs : List (String × String)) : Except ExpandError Overrides :=
  pairs.foldlM (fun o pair => o.insert pair.1 pair.2) {}

/-- The literal that replaces the sample of this kind. -/
def literal? (o : Overrides) : OverrideKind → Option Literal
  | .string => o.string.map .string
  | .int => o.int.map .integer

def isEmpty (o : Overrides) : Bool :=
  o.string.isNone && o.int.isNone

end Overrides

/-- A table of texts with distinct keys, in the order in which the keys first came. -/
structure TextMap where
  entries : List (String × String) := []
  deriving DecidableEq, Repr, Inhabited

namespace TextMap

/-- Gives `key` a value. A key that is there keeps its place. -/
def insertEntry (key value : String) : List (String × String) → List (String × String)
  | [] => [(key, value)]
  | e :: es => if e.1 = key then (key, value) :: es else e :: insertEntry key value es

def insert (m : TextMap) (key value : String) : TextMap :=
  ⟨insertEntry key value m.entries⟩

/-- The table that results from inserting the pairs in order. -/
def ofPairs (pairs : List (String × String)) : TextMap :=
  pairs.foldl (fun m pair => m.insert pair.1 pair.2) {}

end TextMap

namespace Overrides

/-- The overrides given by a table of texts. -/
def ofMap (m : TextMap) : Except ExpandError Overrides :=
  ofPairs m.entries

end Overrides

/-- Key and value of an override written `KEY=VALUE`: the first equals sign divides them, and the
key is trimmed. -/
def splitOverride? (raw : String) : Option (String × String) :=
  match raw.toList.dropWhile (· != '=') with
  | [] => none
  | _ :: value =>
    some (String.ofList (trim (raw.toList.takeWhile (· != '='))), String.ofList value)

/-- What is wrong with an override that `splitOverride?` cannot divide. -/
def overrideShapeMessage (raw : String) : String :=
  "expected KEY=VALUE, got `" ++ raw ++ "`"

end Exemplar
