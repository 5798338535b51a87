import Exemplar.TypeExpr.Basic

/-!
# TypeExpr/Print — the canonical text of a type

Arrays and dictionaries are written with brackets and optionals with a question mark, whatever
spelling they were read from; a set has only its generic spelling.
-/

namespace Exemplar.TypeExpr

/-- The canonical text of a type, as characters. -/
def chars : TypeExpr → List Char
  | named text => text.toList
  | optional wrapped => wrapped.chars ++ ['?']
  | array element => '[' :: element.chars ++ [']']
  | set element => "Set<".toList ++ element.chars ++ ['>']
  | dictionary key value => '[' :: key.chars ++ ": ".toList ++ value.chars ++ [']']
  | unsplit text => text.toList

/-- The canonical text of a type. -/
def text (t : TypeExpr) : String :=
  String.ofList t.chars

end Exemplar.TypeExpr
