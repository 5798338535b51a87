import Exemplar.Json.Error

/-!
# Json/Reading — reading text, and failing at it

A reader works on what is left of a text and, if it fails, names the place by that remainder; line
and column are found only when the failure is reported. A failure of the text itself is placed at
once. One that concerns the meaning of a value is left open, with the remainder at which its reader
stopped: the array or object around it is still read to its end as far as that goes, and the
failure is placed there.
-/

namespace Exemplar.Json

/-- Where a failure happened. -/
inductive Place where
  /-- So many bytes past the start of a remainder. -/
  | at (rest : List Char) (ahead : Nat)
  /-- Not decided yet; the reader stopped before this remainder. -/
  | open (rest : List Char)
  deriving Repr

/-- A failure while reading text. -/
structure Failure where
  path : List Step := []
  fault : Fault
  place : Place
  deriving Repr

/-- What a reader gives: a result with the remainder of the text, or a failure. -/
abbrev Reading (α : Type) := Except Failure (α × List Char)

namespace Failure

/-- A failure right before the remainder. -/
def here (fault : Fault) (rest : List Char) : Failure :=
  { fault, place := .at rest 0 }

/-- A failure at the first byte of the remainder, counted as read; at the end of the text there is
none to count. -/
def peek (fault : Fault) (rest : List Char) : Failure :=
  { fault, place := .at rest 1 }

/-- A failure that the surroundings place. -/
def loose (fault : Fault) (rest : List Char) : Failure :=
  { fault, place := .open rest }

/-- The same failure seen from one step further out. -/
def under (step : Step) (f : Failure) : Failure :=
  { f with path := step :: f.path }

/-- The failure placed right before the given remainder, if it has no place yet. -/
def settle (rest : List Char) (f : Failure) : Failure :=
  match f.place with
  | .at .. => f
  | .open _ => { f with place := .at rest 0 }

end Failure

namespace Position

/-- The place after one more character. -/
def advance (p : Position) (c : Char) : Position :=
  if c = '\n' then ⟨p.line + 1, 0⟩ else ⟨p.line, p.column + c.utf8Size⟩

/-- The place after so many bytes of `s`, or at its end. It may lie inside a character. -/
def skipBytes (p : Position) : Nat → List Char → Position
  | 0, _ => p
  | _, [] => p
  | n + 1, c :: s =>
    if c.utf8Size ≤ n + 1 then skipBytes (p.advance c) (n + 1 - c.utf8Size) s
    else ⟨p.line, p.column + (n + 1)⟩

/-- The place of a remainder in the whole text. -/
def ofRest (source rest : List Char) : Position :=
  (source.take (source.length - rest.length)).foldl advance {}

end Position

namespace Failure

/-- The failure as it is reported for the whole text. -/
def toError (source : List Char) (f : Failure) : Error :=
  match f.place with
  | .at rest ahead =>
    { path := f.path, fault := f.fault,
      position := some ((Position.ofRest source rest).skipBytes ahead rest) }
  | .open _ => { path := f.path, fault := f.fault }

end Failure

/-- Blanks between tokens: space, line feed, carriage return and tab. -/
def isBlank (c : Char) : Bool :=
  c = ' ' || c = '\n' || c = '\r' || c = '\t'

/-- The remainder after blanks. -/
def skipBlanks (s : List Char) : List Char :=
  s.dropWhile isBlank

end Exemplar.Json
