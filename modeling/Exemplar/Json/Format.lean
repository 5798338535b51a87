import Exemplar.Json.Read

/-!
# Json/Format — formats of typed data

A format says how data of one type is given in JSON, in two ways that belong together: `decode`
takes it from a value, `read` takes it from text without building a value first. Formats are put
together from those of texts, flags and numbers by `list`, `optional`, `record` and `choice`.

Both ways accept the same data, with one liberty that only text has: a variant's fields may be
given as an array. They differ in what they can notice. A text that is read directly fails at the
first thing wrong in it, repeated fields included, and values that belong to no field are skipped
unseen; a value has no repeated fields left, and its text was checked before.
-/

namespace Exemplar.Json

/-- How data of type `α` is given in JSON. -/
structure Format (α : Type) where
  /-- The data that a value stands for. -/
  decode : Value → Except Error α
  /-- The data at the start of a text that may nest so many levels deep. -/
  read : Nat → List Char → Reading α

namespace Format

/-- The failure to find anything of the expected kind at the start of a text. A container is not
read for that, everything else is. -/
def mismatch (expected : String) (s : List Char) : Failure :=
  match s with
  | '[' :: rest => .here (.wrongType .sequence expected) ('[' :: rest)
  | '\x7b' :: rest => .here (.wrongType .map expected) ('\x7b' :: rest)
  | s =>
    match readAtom s with
    | .ok (value, rest) => .here (.wrongType value.found expected) rest
    | .error f => f

/-- Data that is always one atom: `accept` says which values stand for which data, and what is
wrong with the others. Text of the wrong kind is told from the right kind by its first character. -/
def atom {α : Type} (expected : String) (starts : Char → Bool)
    (accept : Value → Except Fault α) : Format α where
  decode v :=
    match accept v with
    | .ok a => .ok a
    | .error fault => .error { fault }
  read _ s :=
    match skipBlanks s with
    | [] => .error (.here .endInValue [])
    | c :: rest =>
      if starts c then
        match readAtom (c :: rest) with
        | .error f => .error f
        | .ok (v, rest) =>
          match accept v with
          | .ok a => .ok (a, rest)
          | .error fault => .error (.here fault rest)
      else .error (mismatch expected (c :: rest))

/-- A text. -/
def text : Format String :=
  atom "a string" (· = '"') fun
    | .string s => .ok s
    | v => .error (.wrongType v.found "a string")

/-- A flag. -/
def flag : Format Bool :=
  atom "a boolean" (fun c => c = 't' || c = 'f') fun
    | .bool b => .ok b
    | v => .error (.wrongType v.found "a boolean")

/-- A whole number of 32 bits. -/
def word32 : Format UInt32 :=
  atom "u32" (fun c => c = '-' || c.isDigit) fun
    | .number (.integer n) =>
      if 0 ≤ n ∧ n ≤ 0xFFFFFFFF then .ok (UInt32.ofNat n.toNat)
      else .error (.wrongValue (.number (.integer n)) "u32")
    | v => .error (.wrongType v.found "u32")

/-- The content of a variant that has none. -/
def unit : Format Unit :=
  atom "unit" (· = 'n') fun
    | .null => .ok ()
    | v => .error (.wrongType v.found "unit")

/-- Data made from that of another format. -/
def map {α β : Type} (f : α → β) (format : Format α) : Format β where
  decode v :=
    match format.decode v with
    | .ok a => .ok (f a)
    | .error e => .error e
  read levels s :=
    match format.read levels s with
    | .ok (a, rest) => .ok (f a, rest)
    | .error e => .error e

/-- Data that may be absent, which null says. -/
def optional {α : Type} (format : Format α) : Format (Option α) where
  decode
    | .null => .ok none
    | v => (format.map some).decode v
  read levels s :=
    match skipBlanks s with
    | 'n' :: rest =>
      match expectWord "ull".toList rest with
      | .error f => .error f
      | .ok rest => .ok (none, rest)
    | _ => (format.map some).read levels s

/-- The data of each value, with the index of the first that is none. -/
def decodeItems {α : Type} (item : Value → Except Error α) (i : Nat) :
    List Value → Except Error (List α)
  | [] => .ok []
  | v :: vs =>
    match item v with
    | .error e => .error (e.under (.index i))
    | .ok a =>
      match decodeItems item (i + 1) vs with
      | .error e => .error e
      | .ok as => .ok (a :: as)

/-- The content of a container that starts after its bracket, one level further in. Failures in it
are placed at the latest at its end. -/
def contained {α : Type} (close : List Char → Closing) (levels : Nat) (s : List Char)
    (content : Nat → List Char → Reading α) : Reading α :=
  match levels with
  | 0 => .error (.peek .tooDeep s)
  | levels + 1 => inside close (content levels (s.drop 1))

/-- An array of data. -/
def list {α : Type} (format : Format α) : Format (List α) where
  decode
    | .array items => decodeItems format.decode 0 items
    | v => .error { fault := .wrongType v.found "a sequence" }
  read levels s :=
    match skipBlanks s with
    | [] => .error (.here .endInValue [])
    | c :: rest =>
      if c = '[' then
        contained closeArray levels (c :: rest) fun levels s =>
          readItems (format.read levels) (s.length + 1) 0 s
      else .error (mismatch "a sequence" (c :: rest))

/-- The data of each entry, with its key. -/
def decodeEntries {α : Type} (value : Value → Except Error α) :
    List (String × Value) → Except Error (List (String × α))
  | [] => .ok []
  | (key, v) :: es =>
    match value v with
    | .error e => .error (e.under (.key key))
    | .ok a =>
      match decodeEntries value es with
      | .error e => .error e
      | .ok as => .ok ((key, a) :: as)

/-- An object of any keys, in the order of the document; a text may repeat keys. -/
def entries {α : Type} (format : Format α) : Format (List (String × α)) where
  decode
    | .object es => decodeEntries format.decode es
    | v => .error { fault := .wrongType v.found "a map" }
  read levels s :=
    match skipBlanks s with
    | [] => .error (.here .endInValue [])
    | c :: rest =>
      if c = '\x7b' then
        contained closeObject levels (c :: rest) fun levels s =>
          foldEntries (fun es key s =>
            match readEntryValue (format.read levels) key s with
            | .error f => .error f
            | .ok (a, rest) => .ok (es ++ [(key, a)], rest)) (s.length + 1) true [] s
      else .error (mismatch "a map" (c :: rest))

end Format

/-- A field of a record whose fields read so far are kept in a `σ`. -/
structure Slot (σ : Type) where
  name : String
  /-- Whether the field has to be there. -/
  isRequired : Bool
  /-- Whether the field has been read. -/
  isFilled : σ → Bool
  /-- What reading the field does to the fields read so far. -/
  format : Format (σ → σ)

/-- The fields of data of type `α`, kept in a `σ` while they are read. -/
structure Record (σ α : Type) where
  /-- How messages name the record. -/
  title : String
  slots : List (Slot σ)
  /-- No field read yet. -/
  blank : σ
  /-- The data, or the name of the first required field that was not read. -/
  finish : σ → Except String α

namespace Record

variable {σ α : Type}

/-- What is expected where a record is given as an array that is too short. -/
def lengthText (r : Record σ α) : String :=
  r.title ++ " with " ++ String.ofList (Decimal.intChars r.slots.length) ++
    (if r.slots.length = 1 then " element" else " elements")

/-- The field called `name`. -/
def slot? (r : Record σ α) (name : String) : Option (Slot σ) :=
  r.slots.find? fun slot => slot.name == name

/-- The data of the fields that were read. -/
def complete (r : Record σ α) (fields : σ) : Except Fault α :=
  match r.finish fields with
  | .ok a => .ok a
  | .error name => .error (.missingField name)

/-- The fields of an object's entries. Keys that name no field are passed over. -/
def decodeEntries (r : Record σ α) : σ → List (String × Value) → Except Error σ
  | fields, [] => .ok fields
  | fields, (key, v) :: entries =>
    match r.slot? key with
    | none => decodeEntries r fields entries
    | some slot =>
      if slot.isFilled fields then .error { fault := .duplicateField key }
      else
        match slot.format.decode v with
        | .error e => .error (e.under (.key key))
        | .ok fill => decodeEntries r (fill fields) entries

/-- A record given as an object. -/
def decodeObject (r : Record σ α) (entries : List (String × Value)) : Except Error α :=
  match r.decodeEntries r.blank entries with
  | .error e => .error e
  | .ok fields =>
    match r.complete fields with
    | .ok a => .ok a
    | .error fault => .error { fault }

/-- The fields of an array's items, in order. Items may be missing at the end as long as their
fields may. The items that no field takes are left over. -/
def decodeSlots (lengthText : String) :
    (i : Nat) → List (Slot σ) → σ → List Value → Except Error (σ × List Value)
  | _, [], fields, rest => .ok (fields, rest)
  | i, slot :: slots, fields, [] =>
    if slot.isRequired then .error { fault := .wrongLength i lengthText }
    else decodeSlots lengthText (i + 1) slots fields []
  | i, slot :: slots, fields, v :: vs =>
    match slot.format.decode v with
    | .error e => .error (e.under (.index i))
    | .ok fill => decodeSlots lengthText (i + 1) slots (fill fields) vs

/-- A record given as an array. -/
def decodeArray (r : Record σ α) (items : List Value) : Except Error α :=
  match decodeSlots r.lengthText 0 r.slots r.blank items with
  | .error e => .error e
  | .ok (fields, rest) =>
    match r.complete fields with
    | .error fault => .error { fault }
    | .ok a =>
      if rest.isEmpty then .ok a
      else .error { fault := .wrongLength items.length "fewer elements in array" }

/-- The entry of an object: its field, or nothing if the key names none. -/
def readEntry (r : Record σ α) (levels : Nat) (fields : σ) (key : String) (s : List Char) :
    Reading σ :=
  match r.slot? key with
  | none =>
    readEntryValue (fun s =>
      match skipValue s with
      | .error f => .error f
      | .ok rest => .ok (fields, rest)) key s
  | some slot =>
    if slot.isFilled fields then .error (.loose (.duplicateField key) s)
    else
      match readEntryValue (slot.format.read levels) key s with
      | .error f => .error f
      | .ok (fill, rest) => .ok (fill fields, rest)

/-- The data of the fields read before `s`. -/
def readComplete (r : Record σ α) (fields : σ) (s : List Char) : Reading α :=
  match r.complete fields with
  | .ok a => .ok (a, s)
  | .error fault => .error (.loose fault s)

/-- The entries of a record given as an object, after its brace. -/
def readEntries (r : Record σ α) (levels : Nat) (s : List Char) : Reading α :=
  match foldEntries (r.readEntry levels) (s.length + 1) true r.blank s with
  | .error f => .error f
  | .ok (fields, rest) => r.readComplete fields rest

/-- The items of a record given as an array, from the `i`-th field on. -/
def readSlots (lengthText : String) (levels : Nat) :
    (i : Nat) → List (Slot σ) → σ → List Char → Reading σ
  | _, [], fields, s => .ok (fields, s)
  | i, slot :: slots, fields, s =>
    match nextItem (i == 0) s with
    | .error f => .error f
    | .ok (false, rest) =>
      if slot.isRequired then .error (.loose (.wrongLength i lengthText) rest)
      else readSlots lengthText levels (i + 1) slots fields rest
    | .ok (true, rest) =>
      match slot.format.read levels rest with
      | .error f => .error (f.under (.index i))
      | .ok (fill, rest) => readSlots lengthText levels (i + 1) slots (fill fields) rest

/-- The items of a record given as an array, after its bracket. -/
def readItems (r : Record σ α) (levels : Nat) (s : List Char) : Reading α :=
  match readSlots r.lengthText levels 0 r.slots r.blank s with
  | .error f => .error f
  | .ok (fields, rest) => r.readComplete fields rest

/-- A record, given as an object or as an array of its fields in order. -/
def format (r : Record σ α) : Format α where
  decode
    | .object entries => r.decodeObject entries
    | .array items => r.decodeArray items
    | v => .error { fault := .wrongType v.found r.title }
  read levels s :=
    match skipBlanks s with
    | [] => .error (.here .endInValue [])
    | c :: rest =>
      if c = '[' then Format.contained closeArray levels (c :: rest) r.readItems
      else if c = '\x7b' then Format.contained closeObject levels (c :: rest) r.readEntries
      else .error (Format.mismatch r.title (c :: rest))

/-- The fields of a variant. A value gives them as an object only. -/
def variantFormat (r : Record σ α) : Format α where
  decode
    | .object entries => r.decodeObject entries
    | v => .error { fault := .wrongType v.found "struct variant" }
  read := r.format.read

end Record

/-- What a variant holds. -/
inductive Content (α : Type) where
  | nothing (a : α)
  | single (format : Format α)
  | fields (format : Format α)

/-- A variant of data of type `α`. -/
structure Variant (α : Type) where
  name : String
  content : Content α

namespace Content

variable {α : Type}

/-- What is given after the name of a variant. -/
def format : Content α → Format α
  | nothing a => Format.unit.map fun _ => a
  | single format | fields format => format

/-- The data of a variant of which only the name is given. -/
def bare : Content α → Except Fault α
  | nothing a => .ok a
  | single _ => .error (.wrongType .unitVariant "newtype variant")
  | fields _ => .error (.wrongType .unitVariant "struct variant")

end Content

namespace Format

variable {α : Type}

/-- The variant called `name`. -/
def variant? (variants : List (Variant α)) (name : String) : Except Fault (Variant α) :=
  match variants.find? fun v => v.name == name with
  | some v => .ok v
  | none => .error (.unknownVariant name (variants.map Variant.name))

/-- A choice given by the name of a variant alone. -/
def decodeBare (variants : List (Variant α)) (name : String) : Except Error α :=
  match variant? variants name with
  | .error fault => .error { fault }
  | .ok variant =>
    match variant.content.bare with
    | .ok a => .ok a
    | .error fault => .error { path := [.variant name], fault }

/-- A choice given by the name of a variant with its content. -/
def decodeTagged (variants : List (Variant α)) (name : String) (v : Value) : Except Error α :=
  match variant? variants name with
  | .error fault => .error { fault }
  | .ok variant =>
    match variant.content.format.decode v with
    | .ok a => .ok a
    | .error e => .error (e.under (.variant name))

/-- A choice given by the name of a variant alone, after its quote. -/
def readBare (variants : List (Variant α)) (s : List Char) : Reading α :=
  match Quoted.read s with
  | .error f => .error f
  | .ok (name, rest) =>
    match variant? variants name with
    | .error fault => .error (.here fault rest)
    | .ok variant =>
      match variant.content.bare with
      | .ok a => .ok (a, rest)
      | .error fault => .error ((Failure.loose fault rest).under (.variant name))

/-- The remainder after the brace that ends a choice. -/
def closeChoice (s : List Char) : Except Failure (List Char) :=
  match skipBlanks s with
  | [] => .error (.here .endInObject [])
  | c :: rest => if c = '\x7d' then .ok rest else .error (.here .expectedValue (c :: rest))

/-- The variant whose name starts here, in an object. -/
def readTag (variants : List (Variant α)) (s : List Char) : Reading (Variant α) :=
  match skipBlanks s with
  | [] => .error (.here .endInObject [])
  | c :: rest =>
    if c = '"' then
      match Quoted.read rest with
      | .error f => .error f
      | .ok (name, rest) =>
        match variant? variants name with
        | .error fault => .error (.here fault rest)
        | .ok variant => .ok (variant, rest)
    else if c = '\x7d' then .error (.peek .expectedValue (c :: rest))
    else .error (.peek .keyNotString (c :: rest))

/-- A choice given by the name of a variant with its content, after its brace. -/
def readTagged (variants : List (Variant α)) (levels : Nat) (s : List Char) : Reading α :=
  match readTag variants s with
  | .error f => .error f
  | .ok (variant, rest) =>
    match readColon rest with
    | .error f => .error f
    | .ok rest =>
      match variant.content.format.read levels rest with
      | .error f => .error (f.under (.variant variant.name))
      | .ok (a, rest) =>
        match closeChoice rest with
        | .error f => .error f
        | .ok rest => .ok (a, rest)

/-- A choice between variants: an object whose one key names the variant, or the bare name of a
variant that holds nothing. -/
def choice (variants : List (Variant α)) : Format α where
  decode
    | .string name => decodeBare variants name
    | .object [(name, v)] => decodeTagged variants name v
    | .object _ => .error { fault := .wrongValue .map "map with a single key" }
    | v => .error { fault := .wrongType v.found "string or map" }
  read levels s :=
    match skipBlanks s with
    | [] => .error (.here .endInValue [])
    | c :: rest =>
      if c = '"' then readBare variants rest
      else if c = '\x7b' then
        match levels with
        | 0 => .error (.peek .tooDeep (c :: rest))
        | levels + 1 => readTagged variants levels rest
      else .error (.peek .expectedValue (c :: rest))

/-- A choice between names. -/
def names (choices : List (String × α)) : Format α :=
  choice (choices.map fun c => ⟨c.1, .nothing c.2⟩)

/-- No data at all. -/
def never : Format α where
  decode v := .error { fault := .wrongType v.found "nothing" }
  read _ s := .error (.here .tooDeep s)

/-- The data of a document, read from its text. What follows the data is left alone. -/
def ofText (format : Format α) (source : String) : Except Error α :=
  match format.read maxLevels source.toList with
  | .ok (a, _) => .ok a
  | .error f => .error (f.toError source.toList)

end Format

namespace Value

/-- The value of a document. What follows the value is left alone. -/
def ofText (source : String) : Except Error Value :=
  match readValue maxLevels source.toList with
  | .ok (v, _) => .ok v
  | .error f => .error (f.toError source.toList)

end Value

end Exemplar.Json
