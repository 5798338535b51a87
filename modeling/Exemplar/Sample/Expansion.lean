import Exemplar.Decl.Field
import Exemplar.Sample.Synthesis

/-!
# Sample/Expansion — the sample of a declaration

A struct expands to the call of its memberwise initializer, with one argument for each extracted
field in source order; any other declaration is refused. Declarations share nothing, so each one of
a list is expanded on its own.
-/

namespace Exemplar

/-- One argument of a sample. -/
structure Argument where
  name : String
  literal : Literal
  deriving Repr, Inhabited

/-- The sample of a struct. -/
structure Expansion where
  typeName : String
  accessor : String
  arguments : List Argument
  deriving Repr, Inhabited

namespace Argument

/-- An argument as it stands in a call. -/
def chars (accessor : String) (a : Argument) : List Char :=
  a.name.toList ++ ": ".toList ++ a.literal.chars accessor.toList

end Argument

namespace Expansion

/-- Names and literal texts of the arguments. -/
def pairs (x : Expansion) : List (String × String) :=
  x.arguments.map fun a => (a.name, a.literal.render x.accessor)

/-- The call, as characters. -/
def callChars (x : Expansion) : List Char :=
  x.typeName.toList ++
    '(' :: Literal.separated (x.arguments.map (Argument.chars x.accessor)) ++ [')']

/-- The call that builds the sample. -/
def call (x : Expansion) : String :=
  String.ofList x.callChars

end Expansion

namespace Options

/-- The argument for a field. -/
def argument (o : Options) (f : Field) : Argument :=
  ⟨f.name, o.sample f.type f.name⟩

/-- What is reported while the argument for a field of `aggregate` is made. -/
def argumentEvents (o : Options) (aggregate : String) (f : Field) : List Event :=
  o.sampleEvents f.type ++ [.synthesized aggregate f.name f.declaredType (o.argument f).literal]

end Options

namespace Decl

/-- The sample of a declaration. -/
def expand (o : Options) (d : Decl) : Except ExpandError Expansion :=
  if d.kind = .struct then .ok ⟨d.name, o.accessor, d.extracted.map o.argument⟩
  else .error (.notStruct d.kind d.name d.span)

/-- What is reported while a declaration is expanded. All fields are extracted before the first
literal is chosen. -/
def expandEvents (o : Options) (d : Decl) : List Event :=
  if d.kind = .struct then
    d.extractEvents ++ d.extracted.flatMap (o.argumentEvents d.name) ++
      [.expanded d.name d.extracted.length]
  else []

/-- The sample under a table of overrides, which is checked before the declaration is looked at. -/
def expandWith (overrides : TextMap) (d : Decl) : Except ExpandError Expansion :=
  match Overrides.ofMap overrides with
  | .error e => .error e
  | .ok overrides => d.expand { overrides }

end Decl

end Exemplar
