import Exemplar.Decl.Basic
import Exemplar.Sample.Event
import Exemplar.Text.Blank
import Exemplar.TypeExpr.Parse

/-!
# Decl/Field — the stored fields of a declaration

A field is a stored instance property with a plain name. `described` lists all that have a type or
an initializer to go by, in source order; `extracted` keeps those whose value has to come from
somewhere, namely those without an initializer. What is left out on the way is reported: first the
fields with nothing to go by, then the ones that keep their initializer.
-/

namespace Exemplar

open Text

/-- A stored field. The declared type is trimmed, and empty where only an initializer is given. -/
structure Field where
  name : String
  declaredType : String
  hasInitializer : Bool
  deriving DecidableEq, Repr

namespace Field

/-- The shape of the declared type. -/
def type (f : Field) : TypeExpr :=
  TypeExpr.parse f.declaredType

/-- The field of a stored binding, if there is a type or an initializer to go by. A blank
annotation is none. -/
def ofBinding? (name : String) (b : Binding) : Option Field :=
  let declaredType := trimmed (b.declaredType.getD "")
  if declaredType.isEmpty && b.initializer.isNone then none
  else some ⟨name, declaredType, b.initializer.isSome⟩

end Field

namespace Decl

/-- The stored bindings of a declaration with their names, in source order. -/
def stored (d : Decl) : List (String × Binding) :=
  d.members.filterMap Member.stored?

/-- The stored fields that have a type or an initializer. -/
def described (d : Decl) : List Field :=
  d.stored.filterMap fun s => Field.ofBinding? s.1 s.2

/-- One warning for each stored binding that `described` leaves out. -/
def describeEvents (d : Decl) : List Event :=
  (d.stored.filter fun s => (Field.ofBinding? s.1 s.2).isNone).map fun s => .untyped d.name s.1

/-- The fields that need a synthesized value. -/
def extracted (d : Decl) : List Field :=
  d.described.filter fun f => !f.hasInitializer

/-- What is reported while fields are extracted. -/
def extractEvents (d : Decl) : List Event :=
  d.describeEvents ++ (d.described.filter Field.hasInitializer).map fun f => .kept d.name f.name

end Decl

end Exemplar
