import Exemplar.Json.Reading

/-!
# Json/Quoted — strings of a document

A string stands between quotes. Control characters may not stand in it as they are; a backslash
introduces an escape, and an escape of four hexadecimal digits is a UTF-16 unit, so characters
beyond the first plane take two. `read` decodes a string; `skip` only finds its end and does not
look at how units pair up. `encode` is the writing side.
-/

namespace Exemplar.Json.Quoted

/-- Whether `c` may not stand in a string as it is. -/
def isControl (c : Char) : Bool :=
  decide (c.toNat < 0x20)

/-- The value of a hexadecimal digit. -/
def hexValue? (c : Char) : Option Nat :=
  if c.isDigit then some (c.toNat - '0'.toNat)
  else if 'a' ≤ c ∧ c ≤ 'f' then some (c.toNat - 'a'.toNat + 10)
  else if 'A' ≤ c ∧ c ≤ 'F' then some (c.toNat - 'A'.toNat + 10)
  else none

/-- The number of bytes of a text. -/
def byteCount (s : List Char) : Nat :=
  s.foldl (fun n c => n + c.utf8Size) 0

/-- The four digits of a unit. Four bytes are read before they are looked at, and a text that has
fewer left ends there. -/
def readUnit (s : List Char) : Reading Nat :=
  match s with
  | a :: b :: c :: d :: rest =>
    match hexValue? a, hexValue? b, hexValue? c, hexValue? d with
    | some a, some b, some c, some d => .ok (((a * 16 + b) * 16 + c) * 16 + d, rest)
    | _, _, _, _ => .error { fault := .invalidEscape, place := .at s 4 }
  | _ =>
    if byteCount s < 4 then .error (.here .endInString [])
    else .error { fault := .invalidEscape, place := .at s 4 }

def isLeadingUnit (n : Nat) : Bool := decide (0xD800 ≤ n ∧ n ≤ 0xDBFF)

def isTrailingUnit (n : Nat) : Bool := decide (0xDC00 ≤ n ∧ n ≤ 0xDFFF)

/-- The code point of a pair of units. -/
def pairValue (leading trailing : Nat) : Nat :=
  0x10000 + (leading - 0xD800) * 0x400 + (trailing - 0xDC00)

/-- The remainder after the two characters that introduce a second unit. -/
def readPairMark : List Char → Except Failure (List Char)
  | [] => .error (.here .endInString [])
  | '\\' :: [] => .error (.here .endInString [])
  | '\\' :: 'u' :: rest => .ok rest
  | '\\' :: rest => .error (.peek .unfinishedPair rest)
  | rest => .error (.peek .unfinishedPair rest)

/-- The character of a pair whose leading unit has been read. -/
def readTrailing (leading : Nat) (s : List Char) : Reading Char :=
  match readPairMark s with
  | .error f => .error f
  | .ok rest =>
    match readUnit rest with
    | .error f => .error f
    | .ok (trailing, rest) =>
      if isTrailingUnit trailing then .ok (Char.ofNat (pairValue leading trailing), rest)
      else .error (.here .loneSurrogate rest)

/-- The character of one unit or of a pair. -/
def readUnits (s : List Char) : Reading Char :=
  match readUnit s with
  | .error f => .error f
  | .ok (unit, rest) =>
    if isTrailingUnit unit then .error (.here .loneSurrogate rest)
    else if isLeadingUnit unit then readTrailing unit rest
    else .ok (Char.ofNat unit, rest)

/-- The character that an escape of one letter stands for. -/
def unescape? (letter : Char) : Option Char :=
  if letter = '"' then some '"'
  else if letter = '\\' then some '\\'
  else if letter = '/' then some '/'
  else if letter = 'b' then some '\x08'
  else if letter = 'f' then some '\x0c'
  else if letter = 'n' then some '\n'
  else if letter = 'r' then some '\r'
  else if letter = 't' then some '\t'
  else none

/-- The character of an escape, after its backslash. -/
def readEscape : List Char → Reading Char
  | [] => .error (.here .endInString [])
  | letter :: rest =>
    if letter = 'u' then readUnits rest
    else match unescape? letter with
      | some c => .ok (c, rest)
      | none => .error (.peek .invalidEscape (letter :: rest))

/-- A reading with one more character in front. -/
def consChar (c : Char) : Reading (List Char) → Reading (List Char)
  | .ok (cs, rest) => .ok (c :: cs, rest)
  | .error f => .error f

/-- The characters up to the closing quote, looking at no more than `fuel` of them. -/
def readFrom : Nat → List Char → Reading (List Char)
  | 0, s => .error (.here .endInString s)
  | _ + 1, [] => .error (.here .endInString [])
  | fuel + 1, c :: s =>
    if c = '"' then .ok ([], s)
    else if c = '\\' then
      match readEscape s with
      | .error f => .error f
      | .ok (first, rest) => consChar first (readFrom fuel rest)
    else if isControl c then .error (.peek .controlCharacter (c :: s))
    else consChar c (readFrom fuel s)

/-- The string whose opening quote has been read. -/
def read (s : List Char) : Reading String :=
  match readFrom (s.length + 1) s with
  | .error f => .error f
  | .ok (chars, rest) => .ok (String.ofList chars, rest)

/-- The remainder after an escape, after its backslash. -/
def skipEscape : List Char → Except Failure (List Char)
  | [] => .error (.here .endInString [])
  | letter :: rest =>
    if letter = 'u' then
      match readUnit rest with
      | .error f => .error f
      | .ok (_, rest) => .ok rest
    else if (unescape? letter).isSome then .ok rest
    else .error (.peek .invalidEscape (letter :: rest))

/-- The remainder after the closing quote, looking at no more than `fuel` characters. A control
character is not counted as read here. -/
def skipFrom : Nat → List Char → Except Failure (List Char)
  | 0, s => .error (.here .endInString s)
  | _ + 1, [] => .error (.here .endInString [])
  | fuel + 1, c :: s =>
    if c = '"' then .ok s
    else if c = '\\' then
      match skipEscape s with
      | .error f => .error f
      | .ok rest => skipFrom fuel rest
    else if isControl c then .error (.here .controlCharacter (c :: s))
    else skipFrom fuel s

/-- The remainder after the string whose opening quote has been read. -/
def skip (s : List Char) : Except Failure (List Char) :=
  skipFrom (s.length + 1) s

/-- The letter that follows the backslash in the escape of `c`, if `c` has one. -/
def escapeLetter? (c : Char) : Option Char :=
  if c = '"' then some '"'
  else if c = '\\' then some '\\'
  else if c = '\x08' then some 'b'
  else if c = '\x0c' then some 'f'
  else if c = '\n' then some 'n'
  else if c = '\r' then some 'r'
  else if c = '\t' then some 't'
  else none

/-- How `c` is written in a string. -/
def encodeChar (c : Char) : List Char :=
  match escapeLetter? c with
  | some letter => ['\\', letter]
  | none =>
    if isControl c then
      ['\\', 'u', '0', '0', Nat.digitChar (c.toNat / 16), Nat.digitChar (c.toNat % 16)]
    else [c]

/-- A string with its quotes. -/
def encode (s : List Char) : List Char :=
  '"' :: s.flatMap encodeChar ++ ['"']

end Exemplar.Json.Quoted
