import Exemplar.Text.Blank
import Exemplar.Text.Bracket
import Exemplar.TypeExpr.Basic

/-!
# TypeExpr/Parse — reading a type annotation

`Layer.of` looks at the outermost form of a trimmed text and at nothing below it; the first form in
this order decides: `T?`, `Optional<T>`, `[K: V]`, `[T]`, `Dictionary<K, V>`, `Array<T>`, `Set<T>`.
`parse` peels layer after layer, at most `maxLevels` of them, and what lies below is a name. No text
is refused.
-/

namespace Exemplar.TypeExpr

open Exemplar.Text

/-- The outermost form of a type text, over what stands inside it. -/
inductive Layer (α : Type) where
  | name
  | optional (wrapped : α)
  | array (element : α)
  | set (element : α)
  | dictionary (key value : α)
  | unsplit
  deriving DecidableEq, Repr

namespace Layer

/-- A dictionary's content: one key and one value, neither of them blank, or it stays unsplit. -/
def ofParts : List (List Char) → Layer (List Char)
  | [key, value] =>
    if (trim key).isEmpty || (trim value).isEmpty then unsplit else dictionary key value
  | _ => unsplit

/-- The arguments of the generic type called `name`, if `t` is that type and nothing more. -/
def arguments (name : String) (t : List Char) : Option (List Char) :=
  (name.toList.isPrefixOf? t).bind (enclosed '<' '>')

/-- The content of brackets: with a colon at top level a dictionary, else an array. -/
def ofBrackets (inside : List Char) : Layer (List Char) :=
  match splitTop ':' inside with
  | _ :: _ :: _ => ofParts (splitTop ':' inside)
  | _ => array inside

/-- The outermost form of the trimmed text `t`. -/
def of (t : List Char) : Layer (List Char) :=
  if t.getLast? = some '?' then optional t.dropLast
  else if let some wrapped := arguments "Optional" t then optional wrapped
  else if let some inside := enclosed '[' ']' t then ofBrackets inside
  else if let some inside := arguments "Dictionary" t then ofParts (splitTop ',' inside)
  else if let some element := arguments "Array" t then array element
  else if let some element := arguments "Set" t then set element
  else name

/-- The type with this outermost form, read from the text `t`, over the types inside. -/
def toType (t : List Char) : Layer TypeExpr → TypeExpr
  | name => .named (String.ofList t)
  | optional wrapped => .optional wrapped
  | array element => .array element
  | set element => .set element
  | dictionary key value => .dictionary key value
  | unsplit => .unsplit (String.ofList t)

def map {α β : Type} (f : α → β) : Layer α → Layer β
  | name => name
  | optional wrapped => optional (f wrapped)
  | array element => array (f element)
  | set element => set (f element)
  | dictionary key value => dictionary (f key) (f value)
  | unsplit => unsplit

end Layer

/-- The type spelled by `s`, peeling at most `levels` layers. -/
def parseWithin : Nat → List Char → TypeExpr
  | 0, s => .named (String.ofList (trim s))
  | levels + 1, s => ((Layer.of (trim s)).map (parseWithin levels)).toType (trim s)

/-- How many layers of an annotation are looked at. -/
def maxLevels : Nat := 64

/-- The type spelled by an annotation. -/
def parse (s : String) : TypeExpr :=
  parseWithin maxLevels s.toList

end Exemplar.TypeExpr
