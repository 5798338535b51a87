/-!
# Text/Bracket — bracket depth: top-level splits and enclosing groups

One left-to-right scan counts the brackets `[ ( <` against `] ) >`, all kinds together, where the
`>` of an arrow `->` closes nothing. `splitTop` cuts a text at the separators that the scan meets at
depth 0, and `enclosed` is the inside of a text whose first bracket is closed by its last character
and by no earlier one.
-/

namespace Exemplar.Text

/-- How a character moves the bracket depth. -/
inductive Tilt where
  | opens
  | closes
  | flat
  deriving DecidableEq, Repr

/-- The move made by `c` right after `prev`. -/
def tilt (prev c : Char) : Tilt :=
  if c = '[' ∨ c = '(' ∨ c = '<' then .opens
  else if c = '>' ∧ prev = '-' then .flat
  else if c = ']' ∨ c = ')' ∨ c = '>' then .closes
  else .flat

/-- The depth after a move from depth `d`; below 0 it goes on counting. -/
def Tilt.shift (t : Tilt) (d : Int) : Int :=
  match t with
  | .opens => d + 1
  | .closes => d - 1
  | .flat => d

/-- Whether `c` is one of the six brackets; a bracket never separates. -/
def isBracket (c : Char) : Bool :=
  c = '[' || c = '(' || c = '<' || c = ']' || c = ')' || c = '>'

/-- The character that counts as standing before a text. -/
def noChar : Char := Char.ofNat 0

/-- Puts `c` in front of the first part. -/
def consPart (c : Char) : List (List Char) → List (List Char)
  | [] => [[c]]
  | p :: ps => (c :: p) :: ps

/-- The parts of a text that is reached at depth `d` right after `prev`. -/
def splitTopFrom (sep : Char) (d : Int) (prev : Char) : List Char → List (List Char)
  | [] => [[]]
  | c :: s =>
    if c = sep ∧ isBracket c = false ∧ d = 0 then [] :: splitTopFrom sep d c s
    else consPart c (splitTopFrom sep ((tilt prev c).shift d) c s)

/-- The parts of `s` between the separators that stand at depth 0. -/
def splitTop (sep : Char) (s : List Char) : List (List Char) :=
  splitTopFrom sep 0 noChar s

/-- What stands before the last character of a text reached at depth `d + 1`, if the depth first
comes back to 0 at that character. -/
def closedAtEnd (d : Nat) (prev : Char) : List Char → Option (List Char)
  | [] => none
  | c :: s =>
    match tilt prev c, d with
    | .opens, d => (closedAtEnd (d + 1) c s).map (c :: ·)
    | .flat, d => (closedAtEnd d c s).map (c :: ·)
    | .closes, d + 1 => (closedAtEnd d c s).map (c :: ·)
    | .closes, 0 => if s.isEmpty then some [] else none

/-- The text between `first` and `last`, if `t` starts with the bracket `first`, ends with the
bracket `last`, and the group opened by its first character is closed by its last. -/
def enclosed (first last : Char) : List Char → Option (List Char)
  | [] => none
  | c :: s =>
    if c = first ∧ s.getLast? = some last then closedAtEnd 0 c s else none

end Exemplar.Text
