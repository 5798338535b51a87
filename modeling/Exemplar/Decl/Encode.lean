import Exemplar.Decl.Basic
import Exemplar.Decl.Field
import Exemplar.Json.Basic

/-!
# Decl/Encode — declarations as JSON values

The writing side of the declaration formats: fields in declared order, an absent span, annotation
or initializer left out, and accessors left out where there are none.
-/

namespace Exemplar

open Json

/-- The entry of a field that is left out where it is absent. -/
def entryOf? {α : Type} (name : String) (encode : α → Value) : Option α → List (String × Value)
  | some a => [(name, encode a)]
  | none => []

namespace Span

def encode (s : Span) : Value :=
  .object [("line", .number (.integer s.line.toNat)), ("column", .number (.integer s.column.toNat))]

end Span

namespace Pattern

mutual

def encode : Pattern → Value
  | identifier name => .object [("identifier", .string name)]
  | tuple parts => .object [("tuple", .array (encodeAll parts))]
  | wildcard => .string "wildcard"

/-- The value of each pattern. -/
def encodeAll : List Pattern → List Value
  | [] => []
  | p :: ps => p.encode :: encodeAll ps

end

end Pattern

namespace Binding

def encode (b : Binding) : Value :=
  .object <|
    [("pattern", b.pattern.encode)] ++
    entryOf? "type_annotation" .string b.declaredType ++
    entryOf? "initializer" .string b.initializer ++
    (if b.accessors.isEmpty then []
     else [("accessors", .array (b.accessors.map fun a => .string a.name))])

end Binding

namespace Variable

def encode (v : Variable) : Value :=
  .object [("is_static", .bool v.isStatic), ("bindings", .array (v.bindings.map Binding.encode))]

end Variable

namespace Member

def encode : Member → Value
  | property declared => .object [("variable", declared.encode)]
  | function name => .object [("function", .object [("name", .string name)])]
  | initializer => .string "initializer"
  | nestedType name => .object [("nested_type", .object [("name", .string name)])]

end Member

namespace Decl

def encode (d : Decl) : Value :=
  .object <|
    [("kind", .string d.kind.keyword), ("name", .string d.name),
      ("members", .array (d.members.map Member.encode))] ++
    entryOf? "span" Span.encode d.span

end Decl

namespace Field

def encode (f : Field) : Value :=
  .object [("name", .string f.name), ("declared_type", .string f.declaredType),
    ("has_initializer", .bool f.hasInitializer)]

end Field

end Exemplar
