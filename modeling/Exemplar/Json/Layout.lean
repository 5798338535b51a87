import Exemplar.Json.Numeral
import Exemplar.Json.Quoted

/-!
# Json/Layout — the punctuation of a document

What is common to all readers: single tokens, and the walk through the items of an array and the
entries of an object. The walk is told how to read an item, so a reader for any type of content
shares the commas, brackets and failures defined here.
-/

namespace Exemplar.Json

/-- The remainder after the rest of a word whose first letter has been read. -/
def expectWord : List Char → List Char → Except Failure (List Char)
  | [], s => .ok s
  | _ :: _, [] => .error (.here .endInValue [])
  | w :: ws, c :: s => if c = w then expectWord ws s else .error (.peek .expectedWord (c :: s))

/-- A value given by a word, after the word's first letter. -/
def readWord (word : String) (value : Value) (s : List Char) : Reading Value :=
  match expectWord word.toList s with
  | .error f => .error f
  | .ok rest => .ok (value, rest)

/-- A value that is neither array nor object, from its first character on. -/
def readAtom : List Char → Reading Value
  | [] => .error (.here .endInValue [])
  | c :: s =>
    if c = 'n' then readWord "ull" .null s
    else if c = 't' then readWord "rue" (.bool true) s
    else if c = 'f' then readWord "alse" (.bool false) s
    else if c = '"' then
      match Quoted.read s with
      | .error f => .error f
      | .ok (text, rest) => .ok (.string text, rest)
    else if c = '-' ∨ c.isDigit then
      match Numeral.read (c :: s) with
      | .error f => .error f
      | .ok (n, rest) => .ok (.number n, rest)
    else .error (.peek .expectedValue (c :: s))

/-- Where the end of a container was looked for, and what was wrong there. -/
structure Closing where
  rest : List Char
  failure : Option Failure := none

/-- The end of an array whose reader is done. A comma there is read. -/
def closeArray (s : List Char) : Closing :=
  match skipBlanks s with
  | [] => { rest := [], failure := some (.here .endInArray []) }
  | c :: rest =>
    if c = ']' then { rest }
    else if c = ',' then
      match skipBlanks rest with
      | ']' :: rest => { rest := ']' :: rest, failure := some (.peek .trailingComma (']' :: rest)) }
      | rest => { rest, failure := some (.peek .trailingCharacters rest) }
    else { rest := c :: rest, failure := some (.peek .trailingCharacters (c :: rest)) }

/-- The end of an object whose reader is done. -/
def closeObject (s : List Char) : Closing :=
  match skipBlanks s with
  | [] => { rest := [], failure := some (.here .endInObject []) }
  | c :: rest =>
    if c = '\x7d' then { rest }
    else if c = ',' then { rest := c :: rest, failure := some (.peek .trailingComma (c :: rest)) }
    else { rest := c :: rest, failure := some (.peek .trailingCharacters (c :: rest)) }

/-- A container's content with its end. The end is looked for even after a failure that has no
place yet, and gives it its place. -/
def inside {α : Type} (close : List Char → Closing) : Reading α → Reading α
  | .ok (a, s) =>
    match (close s).failure with
    | none => .ok (a, (close s).rest)
    | some f => .error f
  | .error f =>
    match f.place with
    | .at .. => .error f
    | .open s => .error (f.settle (close s).rest)

/-- Looks for the next item of an array: the remainder at the item, or at the bracket. -/
def nextItem (first : Bool) (s : List Char) : Reading Bool :=
  match skipBlanks s with
  | [] => .error (.here .endInArray [])
  | c :: rest =>
    if c = ']' then .ok (false, c :: rest)
    else if first then .ok (true, c :: rest)
    else if c = ',' then
      match skipBlanks rest with
      | [] => .error (.here .endInValue [])
      | d :: rest =>
        if d = ']' then .error (.peek .trailingComma (d :: rest)) else .ok (true, d :: rest)
    else .error (.peek .expectedArrayEnd (c :: rest))

/-- The items of an array from the `i`-th on, at most `fuel` of them. -/
def readItems {α : Type} (item : List Char → Reading α) :
    (fuel i : Nat) → List Char → Reading (List α)
  | 0, _, s => .error (.here .endInArray s)
  | fuel + 1, i, s =>
    match nextItem (i == 0) s with
    | .error f => .error f
    | .ok (false, rest) => .ok ([], rest)
    | .ok (true, rest) =>
      match item rest with
      | .error f => .error (f.under (.index i))
      | .ok (a, rest) =>
        match readItems item fuel (i + 1) rest with
        | .error f => .error f
        | .ok (as, rest) => .ok (a :: as, rest)

/-- Looks for the next entry of an object: the remainder after the quote of its key, or at the
brace. -/
def nextEntry (first : Bool) (s : List Char) : Reading Bool :=
  match skipBlanks s with
  | [] => .error (.here .endInObject [])
  | c :: rest =>
    if c = '\x7d' then .ok (false, c :: rest)
    else if first then
      if c = '"' then .ok (true, rest) else .error (.peek .keyNotString (c :: rest))
    else if c = ',' then
      match skipBlanks rest with
      | [] => .error (.here .endInValue [])
      | d :: rest =>
        if d = '"' then .ok (true, rest)
        else if d = '\x7d' then .error (.peek .trailingComma (d :: rest))
        else .error (.peek .keyNotString (d :: rest))
    else .error (.peek .expectedObjectEnd (c :: rest))

/-- The key of the next entry, if there is one. What goes wrong before the key is known is reported
under an unknown step. -/
def nextKey (first : Bool) (s : List Char) : Reading (Option String) :=
  match nextEntry first s with
  | .error f => .error (f.under .unknown)
  | .ok (false, rest) => .ok (none, rest)
  | .ok (true, rest) =>
    match Quoted.read rest with
    | .error f => .error (f.under .unknown)
    | .ok (key, rest) => .ok (some key, rest)

/-- The remainder after the colon of an entry. -/
def readColon (s : List Char) : Except Failure (List Char) :=
  match skipBlanks s with
  | [] => .error (.here .endInObject [])
  | c :: rest => if c = ':' then .ok rest else .error (.peek .expectedColon (c :: rest))

/-- The value of an entry, from its colon on. -/
def readEntryValue {α : Type} (value : List Char → Reading α) (key : String) (s : List Char) :
    Reading α :=
  match readColon s with
  | .error f => .error f
  | .ok rest =>
    match value rest with
    | .error f => .error (f.under (.key key))
    | .ok result => .ok result

/-- Reads the entries of an object, at most `fuel` of them, each by what `entry` makes of the state
so far and the key. -/
def foldEntries {σ : Type} (entry : σ → String → List Char → Reading σ) :
    (fuel : Nat) → (first : Bool) → σ → List Char → Reading σ
  | 0, _, _, s => .error (.here .endInObject s)
  | fuel + 1, first, state, s =>
    match nextKey first s with
    | .error f => .error f
    | .ok (none, rest) => .ok (state, rest)
    | .ok (some key, rest) =>
      match entry state key rest with
      | .error f => .error f
      | .ok (state, rest) => foldEntries entry fuel false state rest

end Exemplar.Json
