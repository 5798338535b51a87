/-!
# Decl/Basic — declarations as a front end describes them

A declaration has a kind, a name, its members in source order and, if known, its place in the
source. A variable member binds one or more patterns; a binding with a getter or a setter has no
storage behind it, while observers alone keep it stored.
-/

namespace Exemplar

/-- What a declaration declares. -/
inductive Decl.Kind where
  | struct
  | classType
  | enum
  | actor
  | protocol
  | extension
  deriving DecidableEq, Repr, Inhabited

/-- The accessors that a binding can be declared with. -/
inductive Accessor where
  | get
  | set
  | willSet
  | didSet
  deriving DecidableEq, Repr, Inhabited

/-- What a binding binds: a name, patterns in parentheses, or nothing. -/
inductive Pattern where
  | identifier (name : String)
  | tuple (parts : List Pattern)
  | wildcard
  deriving Repr, Inhabited

/-- One binding of a variable, with the texts of its annotation and initializer where it has
them. -/
structure Binding where
  pattern : Pattern
  declaredType : Option String := none
  initializer : Option String := none
  accessors : List Accessor := []
  deriving Repr, Inhabited

/-- A `let` or `var`, which may bind several patterns. -/
structure Variable where
  isStatic : Bool := false
  bindings : List Binding
  deriving Repr, Inhabited

/-- One member of a declaration. -/
inductive Member where
  | property (declared : Variable)
  | function (name : String)
  | initializer
  | nestedType (name : String)
  deriving Repr, Inhabited

/-- A place in the source, in words of the front end. -/
structure Span where
  line : UInt32
  column : UInt32
  deriving DecidableEq, Repr, Inhabited

/-- One declaration. -/
structure Decl where
  kind : Decl.Kind
  name : String
  members : List Member := []
  span : Option Span := none
  deriving Repr, Inhabited

namespace Decl

/-- Every kind, in the order in which messages list them. -/
def Kind.all : List Kind := [.struct, .classType, .enum, .actor, .protocol, .extension]

/-- The keyword that introduces a declaration of this kind. -/
def Kind.keyword : Kind → String
  | .struct => "struct"
  | .classType => "class"
  | .enum => "enum"
  | .actor => "actor"
  | .protocol => "protocol"
  | .extension => "extension"

/-- The article that goes before the keyword. -/
def Kind.article : Kind → String
  | .enum | .actor | .extension => "an"
  | _ => "a"

/-- The declaration with one more member at its end. -/
def addMember (d : Decl) (m : Member) : Decl :=
  { d with members := d.members ++ [m] }

end Decl

namespace Span

/-- Line and column with a colon between them. -/
def text (s : Span) : String :=
  toString s.line.toNat ++ ":" ++ toString s.column.toNat

end Span

namespace Accessor

/-- Every accessor, in the order in which messages list them. -/
def all : List Accessor := [.get, .set, .willSet, .didSet]

/-- The name of an accessor in a document. -/
def name : Accessor → String
  | get => "get"
  | set => "set"
  | willSet => "will_set"
  | didSet => "did_set"

/-- Whether the accessor stands for storage. -/
def isComputing : Accessor → Bool
  | get | set => true
  | willSet | didSet => false

end Accessor

namespace Binding

/-- Whether the bound name has no storage behind it. -/
def isComputed (b : Binding) : Bool :=
  b.accessors.any Accessor.isComputing

end Binding

namespace Member

/-- The member `let name: type`, with an initializer if one is given. -/
def field (name type : String) (initializer : Option String := none) : Member :=
  .property
    { bindings := [{ pattern := .identifier name, declaredType := some type, initializer }] }

/-- The name and binding of a stored instance property: the one binding of a variable that is not
static, if it binds a plain name and is not computed. -/
def stored? : Member → Option (String × Binding)
  | .property ⟨false, [binding]⟩ =>
    match binding.pattern with
    | .identifier name => if binding.isComputed then none else some (name, binding)
    | _ => none
  | _ => none

end Member

end Exemplar
