import Exemplar.Literal.Render
import Exemplar.TypeExpr.Print

/-!
# Sample/Event — what is reported on the way

The program explains itself by events: the documents that it loaded, a field that is left out and
why, a container that is nested too deep, each literal that was chosen, and the result. An event is
data; level, message and labelled values are its rendering for a log.
-/

namespace Exemplar

/-- How much an event matters. -/
inductive Level where
  | warn
  | info
  | debug
  deriving DecidableEq, Repr

namespace Level

def name : Level → String
  | warn => "warn"
  | info => "info"
  | debug => "debug"

end Level

/-- Something that was done or left out. -/
inductive Event where
  /-- So many documents were loaded, with so many declarations in all. -/
  | loaded (files declarations : Nat)
  /-- Nothing can be synthesized for a field with neither annotation nor initializer. -/
  | untyped (aggregate field : String)
  /-- An initialized field keeps the value its author chose. -/
  | kept (aggregate field : String)
  /-- A container at the nesting cap is delegated to. -/
  | capped (type : TypeExpr) (depth : Nat)
  | synthesized (aggregate field declaredType : String) (literal : Literal)
  | expanded (aggregate : String) (fields : Nat)
  deriving Repr

namespace Event

def level : Event → Level
  | untyped .. => .warn
  | kept .. | capped .. | synthesized .. => .debug
  | loaded .. | expanded .. => .info

def message : Event → String
  | loaded .. => "loaded inputs"
  | untyped .. => "field has no type annotation and no initializer; skipped"
  | kept .. => "keeping explicit initializer"
  | capped .. => "nesting cap reached; delegating"
  | synthesized .. => ""
  | expanded .. => "expanded sample accessor"

/-- The labelled values of an event. A literal is shown with the default accessor. -/
def values : Event → List (String × String)
  | loaded files declarations =>
    [("files", toString files), ("declarations", toString declarations)]
  | untyped aggregate field | kept aggregate field => [("aggregate", aggregate), ("field", field)]
  | capped type depth => [("ty", type.text), ("depth", toString depth)]
  | synthesized aggregate field declaredType literal =>
    [("aggregate", aggregate), ("field", field), ("ty", declaredType),
      ("literal", literal.render defaultAccessor)]
  | expanded aggregate fields => [("aggregate", aggregate), ("fields", toString fields)]

end Event

end Exemplar
