import Exemplar.Sample.Expansion

/-!
# Sample/Source — generated source text

The accessor of a sample is a static variable whose body is the call. It is written as a block of
lines that each end in a line feed, on its own or inside an extension of the type, and an empty
line separates one block from the next.
-/

namespace Exemplar

namespace Expansion

/-- One step of indentation. -/
def indent : List Char := List.replicate 4 ' '

/-- A line of source text. -/
def line (s : List Char) : List Char := s ++ ['\n']

/-- The accessor, with every line indented by `base`. -/
def accessorChars (base : List Char) (x : Expansion) : List Char :=
  line (base ++ "static var ".toList ++ x.accessor.toList ++ ": ".toList ++ x.typeName.toList ++
    " \x7b".toList) ++
  line (base ++ indent ++ x.callChars) ++
  line (base ++ "\x7d".toList)

/-- The block of a sample, inside an extension if `inExtension`. -/
def block (inExtension : Bool) (x : Expansion) : List Char :=
  if inExtension then
    line ("extension ".toList ++ x.typeName.toList ++ " \x7b".toList) ++
      accessorChars indent x ++ line "\x7d".toList
  else accessorChars [] x

end Expansion

/-- Source text in the making. -/
structure Source where
  inExtension : Bool := false
  chars : List Char := []
  deriving Repr, Inhabited

namespace Source

/-- Writes the block of a sample, after an empty line if there is text before it. -/
def emit (s : Source) (x : Expansion) : Source :=
  let gap := if s.chars.isEmpty then [] else ['\n']
  { s with chars := s.chars ++ gap ++ x.block s.inExtension }

/-- Chooses how the blocks that follow are written. -/
def setExtension (s : Source) (inExtension : Bool) : Source :=
  { s with inExtension }

/-- What can be done to source text. -/
inductive Step where
  | emit (x : Expansion)
  | setExtension (inExtension : Bool)

def step (s : Source) : Step → Source
  | .emit x => s.emit x
  | .setExtension inExtension => s.setExtension inExtension

/-- The source of several samples, all written alike. -/
def ofExpansions (inExtension : Bool) (xs : List Expansion) : Source :=
  xs.foldl emit { inExtension }

/-- The text written so far. -/
def text (s : Source) : String :=
  String.ofList s.chars

end Source

end Exemplar
