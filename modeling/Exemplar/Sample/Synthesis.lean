import Exemplar.Sample.Event
import Exemplar.Sample.Override
import Exemplar.TypeExpr.Parse

/-!
# Sample/Synthesis — a literal for every type

`synthesize` is total: a primitive has a built-in sample or its override, an optional is `nil`, a
container holds one sample of what it contains, and every other type is delegated to. Only nesting
is bounded. A container below `maxDepth` others is delegated to by its text, and `cappedWithin`
reports it.
-/

namespace Exemplar

/-- The types that have built-in samples. -/
inductive Primitive where
  | string
  | int
  /-- A whole number of fixed width or without sign; the override of `Int` does not reach it. -/
  | sizedInt
  | float
  | bool
  deriving DecidableEq, Repr

namespace Primitive

/-- The names of the whole-number types other than `Int`. -/
def sizedIntNames : List String :=
  ["Int8", "Int16", "Int32", "Int64", "UInt", "UInt8", "UInt16", "UInt32", "UInt64"]

/-- The names of the floating-point types. -/
def floatNames : List String :=
  ["Double", "Float", "Float16", "Float32", "Float64", "Float80", "CGFloat"]

/-- The primitive called `name`. -/
def named? (name : String) : Option Primitive :=
  if name = "String" then some string
  else if name = "Int" then some int
  else if sizedIntNames.contains name then some sizedInt
  else if floatNames.contains name then some float
  else if name = "Bool" then some bool
  else none

end Primitive

/-- What a caller can choose. -/
structure Options where
  overrides : Overrides := {}
  /-- How many containers may be nested. -/
  maxDepth : Nat := 16
  /-- The accessor through which a type offers its sample. -/
  accessor : String := defaultAccessor
  deriving Repr, Inhabited

namespace Sample

/-- The sample of whole-number types. -/
def sampleInt : Int64 := 123

/-- The sample of floating-point types, 123.45. -/
def sampleFloat : Binary64 := ⟨0x405EDCCCCCCCCCCD⟩

/-- The literal for a type known by name. A string mentions what it is a sample for. -/
def ofName (o : Overrides) (hint name : String) : Literal :=
  match Primitive.named? name with
  | some .string => (o.literal? .string).getD (.string ("Sample " ++ hint))
  | some .int => (o.literal? .int).getD (.integer sampleInt)
  | some .sizedInt => .integer sampleInt
  | some .float => .float sampleFloat
  | some .bool => .bool true
  | none => .delegate name

/-- The literal for a type where `room` more containers may be nested. -/
def within (o : Overrides) (room : Nat) (hint : String) : TypeExpr → Literal
  | .named name => ofName o hint name
  | .optional _ => .nil
  | .unsplit _ => .dictionary []
  | .array element =>
    match room with
    | 0 => .delegate (TypeExpr.array element).text
    | room + 1 => .array [within o room hint element]
  | .set element =>
    match room with
    | 0 => .delegate (TypeExpr.set element).text
    | room + 1 => .set [within o room "set value" element]
  | .dictionary key value =>
    match room with
    | 0 => .delegate (TypeExpr.dictionary key value).text
    | room + 1 => .dictionary [(within o room "key" key, within o room "value" value)]

/-- The containers at depth `depth` or below that are delegated to where `room` more may be nested,
from left to right. -/
def cappedWithin (room depth : Nat) : TypeExpr → List Event
  | .named _ | .optional _ | .unsplit _ => []
  | .array element =>
    match room with
    | 0 => [.capped (.array element) depth]
    | room + 1 => cappedWithin room (depth + 1) element
  | .set element =>
    match room with
    | 0 => [.capped (.set element) depth]
    | room + 1 => cappedWithin room (depth + 1) element
  | .dictionary key value =>
    match room with
    | 0 => [.capped (.dictionary key value) depth]
    | room + 1 => cappedWithin room (depth + 1) key ++ cappedWithin room (depth + 1) value

end Sample

namespace Options

/-- The literal for a type, as the sample of `hint`. -/
def sample (o : Options) (type : TypeExpr) (hint : String) : Literal :=
  Sample.within o.overrides o.maxDepth hint type

/-- The literal for a type annotation. -/
def synthesize (o : Options) (type hint : String) : Literal :=
  o.sample (TypeExpr.parse type) hint

/-- What is reported while a literal for `type` is chosen. -/
def sampleEvents (o : Options) (type : TypeExpr) : List Event :=
  Sample.cappedWithin o.maxDepth 0 type

end Options

end Exemplar
