import Exemplar.Text.Invisible
import Exemplar.Text.Joining

/-!
# Text/Printable — text shown inside a message

A text that a message quotes is shown so that every character can be told apart: the escapes of two
characters where they exist, a code point in hexadecimal for characters that are invisible or that
would join the character before them, and all else as it is.
-/

namespace Exemplar.Text

/-- Whether `c` lies in one of the ranges. -/
def inRanges (ranges : List (Nat × Nat)) (c : Char) : Bool :=
  ranges.any fun range => range.1 ≤ c.toNat && c.toNat ≤ range.2

/-- Whether `c` is shown by its code point. -/
def isHidden (c : Char) : Bool :=
  inRanges invisibleRanges c || inRanges joiningRanges c

/-- How `c` is shown. -/
def shownChar (c : Char) : List Char :=
  if c = '"' then ['\\', '"']
  else if c = '\\' then ['\\', '\\']
  else if c = '\n' then ['\\', 'n']
  else if c = '\r' then ['\\', 'r']
  else if c = '\t' then ['\\', 't']
  else if c = Char.ofNat 0 then ['\\', '0']
  else if isHidden c then "\\u\x7b".toList ++ Nat.toDigits 16 c.toNat ++ "\x7d".toList
  else [c]

/-- A text in quotes, as a message shows it. -/
def shown (s : String) : String :=
  String.ofList ('"' :: s.toList.flatMap shownChar ++ ['"'])

end Exemplar.Text
