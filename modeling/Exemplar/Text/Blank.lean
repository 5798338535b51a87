/-!
# Text/Blank — blank characters, trimming and words

A character is blank when it has the Unicode property White_Space. `trim` cuts the blank run at
either end of a text, and `collapse` also writes one space for each blank run inside, so that texts
can be compared whatever their layout. `words` is the view that says what is left to compare: the
maximal runs of characters that are not blank.
-/

namespace Exemplar.Text

/-- The code points with the Unicode property White_Space, as closed ranges in ascending order. -/
def blankRanges : List (Nat × Nat) :=
  [(0x09, 0x0D), (0x20, 0x20), (0x85, 0x85), (0xA0, 0xA0), (0x1680, 0x1680), (0x2000, 0x200A),
    (0x2028, 0x2029), (0x202F, 0x202F), (0x205F, 0x205F), (0x3000, 0x3000)]

/-- Whether `c` has the property White_Space. -/
def isBlank (c : Char) : Bool :=
  blankRanges.any fun range => range.1 ≤ c.toNat && c.toNat ≤ range.2

/-- What is left of `s` after its leading blanks. -/
def trimStart (s : List Char) : List Char :=
  s.dropWhile isBlank

/-- What is left of `s` before its trailing blanks. -/
def trimEnd (s : List Char) : List Char :=
  (trimStart s.reverse).reverse

/-- `s` without its leading and trailing blanks. -/
def trim (s : List Char) : List Char :=
  trimEnd (trimStart s)

/-- `trim` on strings. -/
def trimmed (s : String) : String :=
  String.ofList (trim s.toList)

/-- Puts `c` in front of the first word of `ws`, or starts a word with it. -/
def consWord (c : Char) : List (List Char) → List (List Char)
  | [] => [[c]]
  | w :: ws => (c :: w) :: ws

/-- The maximal runs of characters of `s` that are not blank, in order. A word goes on to the left
as long as the neighbour to the right is not blank. -/
def words : List Char → List (List Char)
  | [] => []
  | c :: s =>
    if isBlank c then words s
    else match s with
      | [] => [[c]]
      | d :: _ => if isBlank d then [c] :: words s else consWord c (words s)

/-- Writes one space for each maximal run of blanks: the last blank of a run stands for it. -/
def squeeze : List Char → List Char
  | [] => []
  | c :: s =>
    if isBlank c then
      if (s.head?.map isBlank).getD false then squeeze s else ' ' :: squeeze s
    else c :: squeeze s

/-- `s` without blanks at its ends and with one space for each blank run inside. -/
def collapse (s : List Char) : List Char :=
  squeeze (trim s)

/-- `collapse` on strings. -/
def collapsed (s : String) : String :=
  String.ofList (collapse s.toList)

end Exemplar.Text
