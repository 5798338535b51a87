/-!
# Text/Quoted — quoted text of the generated language

A text is quoted by writing an escape of two characters for each character that may not stand
inside quotes: the quote, the backslash, and the control characters that have an escape of their
own. All else stands for itself, so a backslash of the text can never open an interpolation.
-/

namespace Exemplar.Text.Quoted

/-- The letter that follows the backslash in the escape of `c`, if `c` has one. -/
def escapeLetter? (c : Char) : Option Char :=
  if c = '"' then some '"'
  else if c = '\\' then some '\\'
  else if c = '\n' then some 'n'
  else if c = '\r' then some 'r'
  else if c = '\t' then some 't'
  else if c = Char.ofNat 0 then some '0'
  else none

/-- How `c` is written inside quotes. -/
def encodeChar (c : Char) : List Char :=
  match escapeLetter? c with
  | some letter => ['\\', letter]
  | none => [c]

/-- The text between the quotes. -/
def encode (s : List Char) : List Char :=
  s.flatMap encodeChar

/-- The quoted text. -/
def quote (s : List Char) : List Char :=
  '"' :: encode s ++ ['"']

end Exemplar.Text.Quoted
