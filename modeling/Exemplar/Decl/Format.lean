import Exemplar.Decl.Basic
import Exemplar.Json.Format

/-!
# Decl/Format — declarations in JSON documents

Each type of the declaration model has one format. A document holds one declaration or an array of
them; `Decl.document` reads it to a value first, so repeated keys are settled before the
declarations are looked at.
-/

namespace Exemplar

open Json

namespace Decl.Kind

/-- A kind, given by its keyword. -/
def format : Format Kind :=
  Format.names (all.map fun kind => (kind.keyword, kind))

end Decl.Kind

namespace Accessor

/-- An accessor, given by its name. -/
def format : Format Accessor :=
  Format.names (all.map fun accessor => (accessor.name, accessor))

end Accessor

/-- What is given for a field, or its name if nothing is. -/
def required {α : Type} (name : String) : Option α → Except String α
  | some a => .ok a
  | none => .error name

namespace Span

/-- The fields of a span read so far. -/
structure Draft where
  line : Option UInt32 := none
  column : Option UInt32 := none

/-- A span has to have both its fields. -/
def record : Record Draft Span where
  title := "struct SourceSpan"
  slots := [
    ⟨"line", true, fun d => d.line.isSome,
      Format.word32.map fun n d => { d with line := some n }⟩,
    ⟨"column", true, fun d => d.column.isSome,
      Format.word32.map fun n d => { d with column := some n }⟩]
  blank := {}
  finish d := do
    let line ← required "line" d.line
    let column ← required "column" d.column
    return { line, column }

/-- A span. -/
def format : Format Span := record.format

end Span

namespace Pattern

/-- A pattern whose parts have the given format. -/
def layer (part : Format Pattern) : Format Pattern :=
  Format.choice [
    ⟨"identifier", .single (Format.text.map identifier)⟩,
    ⟨"tuple", .single (part.list.map tuple)⟩,
    ⟨"wildcard", .nothing wildcard⟩]

/-- A pattern with at most `depth` layers of tuples. -/
def formatWithin : Nat → Format Pattern
  | 0 => layer .never
  | depth + 1 => layer (formatWithin depth)

/-- A pattern. A layer of tuples takes at least one level of nesting, so the nesting at hand is
enough of them. -/
def format : Format Pattern where
  decode v := (formatWithin v.nesting).decode v
  read levels := (formatWithin levels).read levels

end Pattern

namespace Binding

/-- The fields of a binding read so far. -/
structure Draft where
  pattern : Option Pattern := none
  declaredType : Option (Option String) := none
  initializer : Option (Option String) := none
  accessors : Option (List Accessor) := none

/-- A binding has to have its pattern. -/
def record : Record Draft Binding where
  title := "struct PatternBinding"
  slots := [
    ⟨"pattern", true, fun d => d.pattern.isSome,
      Pattern.format.map fun p d => { d with pattern := some p }⟩,
    ⟨"type_annotation", false, fun d => d.declaredType.isSome,
      Format.text.optional.map fun t d => { d with declaredType := some t }⟩,
    ⟨"initializer", false, fun d => d.initializer.isSome,
      Format.text.optional.map fun t d => { d with initializer := some t }⟩,
    ⟨"accessors", false, fun d => d.accessors.isSome,
      Accessor.format.list.map fun as d => { d with accessors := some as }⟩]
  blank := {}
  finish d := do
    let pattern ← required "pattern" d.pattern
    return {
      pattern
      declaredType := d.declaredType.getD none
      initializer := d.initializer.getD none
      accessors := d.accessors.getD [] }

/-- A binding. -/
def format : Format Binding := record.format

end Binding

namespace Variable

/-- The fields of a variable read so far. -/
structure Draft where
  isStatic : Option Bool := none
  bindings : Option (List Binding) := none

/-- A variable has to have its bindings. -/
def record : Record Draft Variable where
  title := "struct VariableDecl"
  slots := [
    ⟨"is_static", false, fun d => d.isStatic.isSome,
      Format.flag.map fun b d => { d with isStatic := some b }⟩,
    ⟨"bindings", true, fun d => d.bindings.isSome,
      Binding.format.list.map fun bs d => { d with bindings := some bs }⟩]
  blank := {}
  finish d := do
    let bindings ← required "bindings" d.bindings
    return { isStatic := d.isStatic.getD false, bindings }

/-- A variable. -/
def format : Format Variable := record.format

end Variable

namespace Member

/-- The fields of the variant called `variant`, which has only a name. -/
def nameRecord (variant : String) (build : String → Member) : Record (Option String) Member where
  title := "struct variant Member::" ++ variant
  slots := [⟨"name", true, Option.isSome, Format.text.map fun s _ => some s⟩]
  blank := none
  finish name := (required "name" name).map build

/-- A member. -/
def format : Format Member :=
  Format.choice [
    ⟨"variable", .single (Variable.format.map property)⟩,
    ⟨"function", .fields (nameRecord "Function" function).variantFormat⟩,
    ⟨"initializer", .nothing initializer⟩,
    ⟨"nested_type", .fields (nameRecord "NestedType" nestedType).variantFormat⟩]

end Member

namespace Decl

/-- The fields of a declaration read so far. -/
structure Draft where
  kind : Option Kind := none
  name : Option String := none
  members : Option (List Member) := none
  span : Option (Option Span) := none

/-- A declaration has to have its kind and its name. -/
def record : Record Draft Decl where
  title := "struct AggregateDecl"
  slots := [
    ⟨"kind", true, fun d => d.kind.isSome,
      Kind.format.map fun k d => { d with kind := some k }⟩,
    ⟨"name", true, fun d => d.name.isSome,
      Format.text.map fun s d => { d with name := some s }⟩,
    ⟨"members", false, fun d => d.members.isSome,
      Member.format.list.map fun ms d => { d with members := some ms }⟩,
    ⟨"span", false, fun d => d.span.isSome,
      Span.format.optional.map fun s d => { d with span := some s }⟩]
  blank := {}
  finish d := do
    let kind ← required "kind" d.kind
    let name ← required "name" d.name
    return { kind, name, members := d.members.getD [], span := d.span.getD none }

/-- A declaration. -/
def format : Format Decl := record.format

/-- The declarations of a document's value: those of an array, or the one that the value is. -/
def ofValue : Value → Except Error (List Decl)
  | .array items => format.list.decode (.array items)
  | v =>
    match format.decode v with
    | .ok d => .ok [d]
    | .error e => .error e

/-- The declarations of a document. -/
def document (source : String) : Except Error (List Decl) :=
  match Value.ofText source with
  | .error e => .error e
  | .ok v => ofValue v

end Decl

end Exemplar
