import Exemplar.Decl.Basic

/-!
# Sample/Error — why a declaration gets no sample

Synthesis itself cannot fail: a declaration is refused for its kind, and a table of overrides for a
key or a value. Each cause has a stable code and one message.
-/

namespace Exemplar

/-- The types whose sample can be replaced. -/
inductive OverrideKind where
  | string
  | int
  deriving DecidableEq, Repr, Inhabited

namespace OverrideKind

/-- The name of the type in annotations and in override keys. -/
def typeName : OverrideKind → String
  | string => "String"
  | int => "Int"

end OverrideKind

/-- Why there is no sample. -/
inductive ExpandError where
  /-- Only a struct has a memberwise call to sample. -/
  | notStruct (kind : Decl.Kind) (name : String) (span : Option Span)
  | unsupportedOverride (key : String)
  | invalidOverride (kind : OverrideKind) (value : String)
  deriving DecidableEq, Repr

namespace ExpandError

/-- The stable identifier of the cause. -/
def code : ExpandError → String
  | notStruct .. => "NotAnAggregateType"
  | unsupportedOverride _ => "UnsupportedOverride"
  | invalidOverride .. => "InvalidOverride"

/-- The place in front of a message, if it is known. -/
def location : Option Span → String
  | some span => span.text ++ ": "
  | none => ""

/-- The message shown to a user. -/
def message : ExpandError → String
  | notStruct kind name span =>
    location span ++ "`" ++ name ++ "` is " ++ kind.article ++ " " ++ kind.keyword ++
      "; sample data can only be generated for a struct"
  | unsupportedOverride key =>
    "unsupported override `" ++ key ++ "` (expected one of: String, Int)"
  | invalidOverride kind value => "invalid " ++ kind.typeName ++ " override `" ++ value ++ "`"

end ExpandError

end Exemplar
