import Exemplar.Json.Layout

/-!
# Json/Read — reading a document to a value, and skipping one

`readValue` reads the first value of a text; what follows it is left alone. Arrays and objects may
be nested `maxLevels` deep. `skipValue` finds the end of a value that nobody asked for: any depth
will do, numbers may be of any size, and the units of strings need not pair up.
-/

namespace Exemplar.Json

/-- How deep arrays and objects may be nested in a text that is read. -/
def maxLevels : Nat := 127

/-- The value at the start of a text that may nest `levels` deep. -/
def readValue (levels : Nat) (s : List Char) : Reading Value :=
  match skipBlanks s with
  | [] => .error (.here .endInValue [])
  | c :: rest =>
    if c = '[' then
      match levels with
      | 0 => .error (.peek .tooDeep (c :: rest))
      | levels + 1 =>
        match inside closeArray (readItems (readValue levels) (rest.length + 1) 0 rest) with
        | .error f => .error f
        | .ok (items, rest) => .ok (.array items, rest)
    else if c = '\x7b' then
      match levels with
      | 0 => .error (.peek .tooDeep (c :: rest))
      | levels + 1 =>
        let entry entries key s :=
          match readEntryValue (readValue levels) key s with
          | .error f => .error f
          | .ok (value, rest) => .ok (Value.insertEntry key value entries, rest)
        match inside closeObject (foldEntries entry (rest.length + 1) true [] rest) with
        | .error f => .error f
        | .ok (entries, rest) => .ok (.object entries, rest)
    else readAtom (c :: rest)

/-- The container that a skipped value stands in. -/
inductive Frame where
  | array
  | object
  deriving DecidableEq, Repr

namespace Frame

/-- The character that ends the container. -/
def closer : Frame → Char
  | array => ']'
  | object => '\x7d'

/-- What is wrong if the text ends in the container. -/
def endFault : Frame → Fault
  | array => .endInArray
  | object => .endInObject

/-- What is wrong if neither a comma nor the end follows a value in the container. -/
def punctuationFault : Frame → Fault
  | array => .expectedArrayEnd
  | object => .expectedObjectEnd

end Frame

/-- The remainder after the key and colon that stand before a value in the container. -/
def skipKey (frame : Frame) (s : List Char) : Except Failure (List Char) :=
  match frame with
  | .array => .ok s
  | .object =>
    match skipBlanks s with
    | [] => .error (.here .endInObject [])
    | c :: rest =>
      if c = '"' then
        match Quoted.skip rest with
        | .error f => .error f
        | .ok rest => readColon rest
      else .error (.peek .keyNotString (c :: rest))

/-- Closes containers as long as their ends follow, from the innermost outwards. The result is the
containers still open with the remainder where the next value is, or no container if all are
closed. Right after an opening bracket no comma is accepted. -/
def closeFrames (afterValue : Bool) : List Frame → List Char → Reading (List Frame)
  | [], s => .ok ([], s)
  | frame :: frames, s =>
    match skipBlanks s with
    | [] => .error (.here frame.endFault [])
    | c :: rest =>
      if c = frame.closer then closeFrames true frames rest
      else if afterValue then
        if c = ',' then .ok (frame :: frames, rest)
        else .error (.peek frame.punctuationFault (c :: rest))
      else .ok (frame :: frames, c :: rest)

/-- The remainder after an atom, from its first character on. -/
def skipAtom : List Char → Except Failure (List Char)
  | [] => .error (.here .endInValue [])
  | c :: s =>
    if c = 'n' then expectWord "ull".toList s
    else if c = 't' then expectWord "rue".toList s
    else if c = 'f' then expectWord "alse".toList s
    else if c = '"' then Quoted.skip s
    else if c = '-' ∨ c.isDigit then Numeral.skip (c :: s)
    else .error (.peek .expectedValue (c :: s))

/-- The containers around the end of a value's first token, whether that token is the whole value,
and the remainder. -/
def skipToken (frames : List Frame) (s : List Char) : Reading (Bool × List Frame) :=
  match skipBlanks s with
  | [] => .error (.here .endInValue [])
  | c :: rest =>
    if c = '[' then .ok ((false, .array :: frames), rest)
    else if c = '\x7b' then .ok ((false, .object :: frames), rest)
    else
      match skipAtom (c :: rest) with
      | .error f => .error f
      | .ok rest => .ok ((true, frames), rest)

/-- The remainder after the outermost container, with a value expected next; at most `fuel` values
are skipped. -/
def skipFrom : Nat → List Frame → List Char → Except Failure (List Char)
  | 0, _, s => .error (.here .endInValue s)
  | fuel + 1, frames, s =>
    match skipToken frames s with
    | .error f => .error f
    | .ok ((afterValue, frames), rest) =>
      match closeFrames afterValue frames rest with
      | .error f => .error f
      | .ok ([], rest) => .ok rest
      | .ok (frame :: frames, rest) =>
        match skipKey frame rest with
        | .error f => .error f
        | .ok rest => skipFrom fuel (frame :: frames) rest

/-- The remainder after the value at the start of a text. -/
def skipValue (s : List Char) : Except Failure (List Char) :=
  skipFrom (s.length + 1) [] s

end Exemplar.Json
