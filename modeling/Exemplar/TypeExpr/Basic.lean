/-!
# TypeExpr/Basic — the shape of a declared type

A type annotation is seen as a tree of optionals, arrays, sets and dictionaries over names. Only the
shapes that sample data depends on have a constructor of their own; every other type, such as a
tuple, a function type or an unknown generic, is a name that keeps its text.
-/

namespace Exemplar

/-- A declared type. -/
inductive TypeExpr where
  /-- A type known by its text alone. -/
  | named (text : String)
  | optional (wrapped : TypeExpr)
  | array (element : TypeExpr)
  | set (element : TypeExpr)
  | dictionary (key value : TypeExpr)
  /-- A dictionary whose content is not one key and one value; it keeps its text. -/
  | unsplit (text : String)
  deriving DecidableEq, Repr, Inhabited

namespace TypeExpr

def isOptional : TypeExpr → Bool
  | optional _ => true
  | _ => false

end TypeExpr

end Exemplar
