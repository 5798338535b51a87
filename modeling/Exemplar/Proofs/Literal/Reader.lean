import Exemplar.Literal.Render
import Exemplar.Proofs.Decimal.Digits
import Exemplar.Proofs.Text.Quoted
import Exemplar.Proofs.Text.Split
import Exemplar.Sample.Synthesis
import Mathlib.Data.List.Basic

/-!
# Proofs/Literal/Reader — taking the text of a literal apart

    [Key.preview: Set(["a", "b"]), 3: [:]], …   ──▸   a dictionary   and   , …

`read?` is a reader for the text of literals whose delegates use a given accessor.  A quote starts
a string and a square bracket a container; everything else starts with a word, the longest run of
`isWordChar`, and the word alone tells a set from the literals that are words (`ofWord?`).  In a
container the text after the first element says whether it is an array or a dictionary.  A literal
that is `Readable` is read back from its text, whatever follows that does not go on with a word
(`read?_chars`).
-/

namespace Exemplar

/-- An ASCII identifier. -/
structure IsIdentifier (s : List Char) : Prop where
  start : ∃ c, s.head? = some c ∧ (c.isAlpha = true ∨ c = '_')
  part : ∀ c ∈ s, c.isAlphanum = true ∨ c = '_'

/-- Identifiers with a dot between each and the next. -/
def IsDotted (s : List Char) : Prop :=
  ∃ parts, (∀ p ∈ parts, IsIdentifier p) ∧ s = ['.'].intercalate parts

namespace Literal

/-- The characters of identifiers with dots, and of numbers. -/
def isWordChar (c : Char) : Bool :=
  c.isAlphanum || c = '_' || c = '.' || c = '-'

/-- What follows a word ends it. -/
def EndsWord (rest : List Char) : Prop := ∀ c ∈ rest.head?, isWordChar c = false

/-- The literal that is the given word. -/
def ofWord? (accessor word : List Char) : Option Literal :=
  if word = "true".toList then some (.bool true)
  else if word = "false".toList then some (.bool false)
  else if word = "nil".toList then some .nil
  else if word = "123.45".toList then some (.float Sample.sampleFloat)
  else
    match Decimal.readSigned? word with
    | some n => some (.integer (Int64.ofInt n))
    | none => (word.dropSuffix? ('.' :: accessor)).map fun name => .delegate (String.ofList name)

/-- What follows a token, if the text starts with it. -/
def skip? (token s : List Char) : Option (List Char) :=
  if token.isPrefixOf s then some (s.drop token.length) else none

/-- The set of the elements of an array whose text has just been read. -/
def toSet? : Literal × List Char → Option (Literal × List Char)
  | (.array elements, ')' :: rest) => some (.set elements, rest)
  | _ => none

mutual

/-- The literal at the start of a text, and what follows it. -/
def read? (accessor : List Char) : ℕ → List Char → Option (Literal × List Char)
  | 0, _ => none
  | fuel + 1, s =>
    if s.head? = some '"' then
      (Text.Quoted.read? s.tail).map fun (text, rest) => (.string (String.ofList text), rest)
    else if s.head? = some '[' then readBracketed? accessor fuel s.tail
    else if s.takeWhile isWordChar = "Set".toList then
      (skip? "Set([".toList s).bind fun s => (readBracketed? accessor fuel s).bind toSet?
    else (ofWord? accessor (s.takeWhile isWordChar)).map fun l => (l, s.dropWhile isWordChar)

/-- The array or dictionary whose opening bracket has been passed. -/
def readBracketed? (accessor : List Char) : ℕ → List Char → Option (Literal × List Char)
  | 0, _ => none
  | fuel + 1, s =>
    if s.head? = some ']' then some (.array [], s.tail)
    else if s.head? = some ':' then (skip? ":]".toList s).map fun rest => (.dictionary [], rest)
    else
      (read? accessor fuel s).bind fun (first, s) =>
        match skip? ": ".toList s with
        | some s =>
          (read? accessor fuel s).bind fun (value, s) =>
            (readEntries? accessor fuel s).map fun (es, rest) =>
              (.dictionary ((first, value) :: es), rest)
        | none =>
          (readElements? accessor fuel s).map fun (ls, rest) => (.array (first :: ls), rest)

/-- The elements that follow the first one of an array. -/
def readElements? (accessor : List Char) : ℕ → List Char → Option (List Literal × List Char)
  | 0, _ => none
  | fuel + 1, s =>
    if s.head? = some ']' then some ([], s.tail)
    else
      (skip? ", ".toList s).bind fun s =>
        (read? accessor fuel s).bind fun (l, s) =>
          (readElements? accessor fuel s).map fun (ls, rest) => (l :: ls, rest)

/-- The entries that follow the first one of a dictionary. -/
def readEntries? (accessor : List Char) :
    ℕ → List Char → Option (List (Literal × Literal) × List Char)
  | 0, _ => none
  | fuel + 1, s =>
    if s.head? = some ']' then some ([], s.tail)
    else
      (skip? ", ".toList s).bind fun s =>
        (read? accessor fuel s).bind fun (key, s) =>
          (skip? ": ".toList s).bind fun s =>
            (read? accessor fuel s).bind fun (value, s) =>
              (readEntries? accessor fuel s).map fun (es, rest) => ((key, value) :: es, rest)

end

mutual

/-- Every delegate names a type by identifiers, and every float is the sample of floats. -/
def Readable : Literal → Prop
  | float value => value = Sample.sampleFloat
  | delegate typeName => IsDotted typeName.toList
  | array elements => AllReadable elements
  | set elements => AllReadable elements
  | dictionary entries => AllEntriesReadable entries
  | _ => True

/-- Every element is readable. -/
def AllReadable : List Literal → Prop
  | [] => True
  | l :: ls => l.Readable ∧ AllReadable ls

/-- Every key and value is readable. -/
def AllEntriesReadable : List (Literal × Literal) → Prop
  | [] => True
  | (k, v) :: es => k.Readable ∧ v.Readable ∧ AllEntriesReadable es

end

variable {accessor s rest word : List Char} {c : Char} {l : Literal} {fuel : ℕ}

/-! ## Words -/

/-- A word is taken up to what ends it. -/
theorem EndsWord.takeWhile (hw : ∀ c ∈ word, isWordChar c = true) (h : EndsWord rest) :
    (word ++ rest).takeWhile isWordChar = word := by
  rw [List.takeWhile_append_of_pos hw]
  cases rest with
  | nil => simp
  | cons c rest => rw [List.takeWhile_cons_of_neg (by simp [h c rfl]), List.append_nil]

/-- What ends a word is left over by it. -/
theorem EndsWord.dropWhile (hw : ∀ c ∈ word, isWordChar c = true) (h : EndsWord rest) :
    (word ++ rest).dropWhile isWordChar = rest := by
  rw [List.dropWhile_append_of_pos hw]
  cases rest with
  | nil => rfl
  | cons c rest => rw [List.dropWhile_cons_of_neg (by simp [h c rfl])]

theorem endsWord_cons (h : isWordChar c = false) : EndsWord (c :: rest) := by
  rintro d ⟨rfl⟩
  exact h

/-- The word of an integer is read as this integer. -/
theorem ofWord?_integer (n : Int64) :
    ofWord? accessor (Decimal.intChars n.toInt) = some (.integer n) := by
  have hchars : ∀ c ∈ Decimal.intChars n.toInt, c.isDigit = true ∨ c = '-' :=
    fun c hc => Decimal.isDigit_of_mem_intChars hc
  have hne : ∀ {w : List Char}, (w.all fun c => c.isDigit || c = '-') = false →
      Decimal.intChars n.toInt ≠ w := by
    rintro w hw rfl
    rw [List.all_eq_true.2 fun c hc => by simpa using hchars c hc] at hw
    cases hw
  have htrue : Decimal.intChars n.toInt ≠ "true".toList := hne (by decide)
  have hfalse : Decimal.intChars n.toInt ≠ "false".toList := hne (by decide)
  have hnil : Decimal.intChars n.toInt ≠ "nil".toList := hne (by decide)
  have hfloat : Decimal.intChars n.toInt ≠ "123.45".toList := hne (by decide)
  simp only [ofWord?, if_neg htrue, if_neg hfalse, if_neg hnil, if_neg hfloat,
    Decimal.readSigned?_intChars, Int64.ofInt_toInt]

/-! ## Dotted names -/

theorem isWordChar_of_identifier (h : IsIdentifier s) (hc : c ∈ s) : isWordChar c = true := by
  rcases h.part c hc with h | rfl
  · simp [isWordChar, h]
  · decide

theorem isDigit_of_isAlpha (h : c.isAlpha = true ∨ c = '_') : c.isDigit = false := by
  rcases h with h | rfl
  · change (decide (c.val ≥ 'A'.val ∧ c.val ≤ 'Z'.val) ||
      (decide (c.val ≥ 'a'.val) && decide (c.val ≤ 'z'.val))) = true at h
    simp only [Bool.or_eq_true, Bool.and_eq_true, decide_eq_true_eq, ge_iff_le,
      UInt32.le_iff_toNat_le] at h
    simp only [Char.isDigit, Bool.and_eq_false_iff, decide_eq_false_iff_not, ge_iff_le,
      UInt32.le_iff_toNat_le]
    have hA : 'A'.val.toNat = 65 := rfl
    have ha : 'a'.val.toNat = 97 := rfl
    have h9 : '9'.val.toNat = 57 := rfl
    omega
  · decide

/-- A dotted name is one word: its points belong to it. -/
theorem isWordChar_of_dotted (h : IsDotted s) (hc : c ∈ s) : isWordChar c = true := by
  obtain ⟨parts, hparts, rfl⟩ := h
  induction parts with
  | nil => simp at hc
  | cons p ps ih =>
    obtain ⟨hp, hps⟩ := List.forall_mem_cons.1 hparts
    cases ps with
    | nil => exact isWordChar_of_identifier hp (by simpa using hc)
    | cons q qs =>
      rw [List.intercalate_cons_cons, List.append_assoc] at hc
      rcases List.mem_append.1 hc with hc | hc
      · exact isWordChar_of_identifier hp hc
      · rcases List.mem_cons.1 hc with rfl | hc
        · decide
        · exact ih hps hc

/-- No dotted name starts like a number. -/
theorem isDigit_head_of_dotted (h : IsDotted s) (hc : s.head? = some c) : c.isDigit = false := by
  obtain ⟨parts, hparts, rfl⟩ := h
  cases parts with
  | nil => simp at hc
  | cons p ps =>
    obtain ⟨d, hd, hstart⟩ := (hparts p List.mem_cons_self).start
    obtain ⟨t, rfl⟩ := List.head?_eq_some_iff.1 hd
    have hcd : d = c := by cases ps <;> simpa using hc
    exact hcd ▸ isDigit_of_isAlpha hstart

/-- A word that ends in the accessor delegates to what stands before it. -/
theorem ofWord?_delegate {typeName : String} (h : IsDotted typeName.toList) :
    ofWord? accessor (typeName.toList ++ '.' :: accessor) = some (.delegate typeName) := by
  have hdot : '.' ∈ typeName.toList ++ '.' :: accessor := by simp
  have hne : ∀ {w : List Char}, '.' ∉ w → typeName.toList ++ '.' :: accessor ≠ w := by
    rintro w hw rfl
    exact hw hdot
  have hfloat : typeName.toList ++ '.' :: accessor ≠ "123.45".toList := by
    intro he
    cases hs : typeName.toList with
    | nil => simp [hs] at he
    | cons c s =>
      have hc : c = '1' := by simp [hs] at he; exact he.1
      have hdigit := isDigit_head_of_dotted h (c := c) (by rw [hs]; rfl)
      rw [hc] at hdigit
      exact absurd hdigit (by decide)
  have hnumber : Decimal.readSigned? (typeName.toList ++ '.' :: accessor) = none :=
    Decimal.readSigned?_eq_none hdot (by decide) (by decide) (by decide)
  have hsuffix : (typeName.toList ++ '.' :: accessor).dropSuffix? ('.' :: accessor)
      = some typeName.toList :=
    List.dropSuffix?_eq_some_iff.2 ⟨_, rfl, beq_self_eq_true _⟩
  simp only [ofWord?, if_neg (hne (w := "true".toList) (by decide)),
    if_neg (hne (w := "false".toList) (by decide)), if_neg (hne (w := "nil".toList) (by decide)),
    if_neg hfloat, hnumber, hsuffix, Option.map_some, String.ofList_toList]

/-! ## One step of the reader -/

theorem skip?_append (token s : List Char) : skip? token (token ++ s) = some s := by
  simp [skip?]

/-- A token is missing where the first character is another. -/
theorem skip?_of_head_ne {d : Char} {token : List Char} (h : s.head? ≠ some d) :
    skip? (d :: token) s = none := by
  cases s with
  | nil => rfl
  | cons c s =>
    have hne : (d == c) = false := beq_false_of_ne fun hd => h (by rw [hd, List.head?_cons])
    simp [skip?, List.isPrefixOf, hne]

/-- A quote starts a string. -/
theorem read?_quote :
    read? accessor (fuel + 1) ('"' :: s)
      = (Text.Quoted.read? s).map fun (text, rest) => (.string (String.ofList text), rest) := by
  rw [read?, List.head?_cons, if_pos rfl, List.tail_cons]

theorem read?_bracket : read? accessor (fuel + 1) ('[' :: s) = readBracketed? accessor fuel s := by
  rw [read?, List.head?_cons, if_neg (by decide), if_pos rfl, List.tail_cons]

/-- A word other than that of a set is a literal on its own. -/
theorem read?_word (hword : ∀ c ∈ word, isWordChar c = true) (hne : word ≠ [])
    (hset : word ≠ "Set".toList) (hr : EndsWord rest) :
    read? accessor (fuel + 1) (word ++ rest) = (ofWord? accessor word).map fun l => (l, rest) := by
  obtain ⟨c, t, rfl⟩ := List.exists_cons_of_ne_nil hne
  have hc := hword c List.mem_cons_self
  have hquote : (c :: t ++ rest).head? ≠ some '"' := by rintro ⟨rfl⟩; exact absurd hc (by decide)
  have hbracket : (c :: t ++ rest).head? ≠ some '[' := by rintro ⟨rfl⟩; exact absurd hc (by decide)
  rw [read?, if_neg hquote, if_neg hbracket, hr.takeWhile hword, hr.dropWhile hword, if_neg hset]

/-- A set starts as its own call, with an array inside. -/
theorem read?_set :
    read? accessor (fuel + 1) ("Set([".toList ++ s)
      = (readBracketed? accessor fuel s).bind toSet? := by
  have hword : ∀ c ∈ "Set".toList, isWordChar c = true := List.all_eq_true.1 (by decide)
  have hr : EndsWord ('(' :: '[' :: s) := endsWord_cons (by decide)
  have htake : ("Set([".toList ++ s).takeWhile isWordChar = "Set".toList := hr.takeWhile hword
  have hquote : ("Set([".toList ++ s).head? ≠ some '"' := by simp
  have hbracket : ("Set([".toList ++ s).head? ≠ some '[' := by simp
  rw [read?, if_neg hquote, if_neg hbracket, htake, if_pos rfl, skip?_append, Option.bind_some]

/-- A first element followed by anything but a colon is that of an array. -/
theorem readBracketed?_array (hclose : s.head? ≠ some ']') (hempty : s.head? ≠ some ':')
    (h : read? accessor fuel s = some (l, rest)) (hcolon : rest.head? ≠ some ':') :
    readBracketed? accessor (fuel + 1) s
      = (readElements? accessor fuel rest).map fun (ls, rest) => (.array (l :: ls), rest) := by
  have hskip : skip? ": ".toList rest = none := skip?_of_head_ne hcolon
  simp only [readBracketed?, if_neg hclose, if_neg hempty, h, Option.bind_some, hskip]

/-- A first key and value are those of a dictionary. -/
theorem readBracketed?_dictionary {k v : Literal} {u : List Char} (hclose : s.head? ≠ some ']')
    (hempty : s.head? ≠ some ':') (hk : read? accessor fuel s = some (k, ": ".toList ++ u))
    (hv : read? accessor fuel u = some (v, rest)) :
    readBracketed? accessor (fuel + 1) s
      = (readEntries? accessor fuel rest).map fun (es, rest) =>
          (.dictionary ((k, v) :: es), rest) := by
  simp only [readBracketed?, if_neg hclose, if_neg hempty, hk, Option.bind_some, skip?_append, hv]

theorem readElements?_nil : readElements? accessor (fuel + 1) (']' :: rest) = some ([], rest) := by
  simp [readElements?]

/-- An element behind a separator is read before those that come after it. -/
theorem readElements?_cons (h : read? accessor fuel s = some (l, rest)) :
    readElements? accessor (fuel + 1) (", ".toList ++ s)
      = (readElements? accessor fuel rest).map fun (ls, rest) => (l :: ls, rest) := by
  have hclose : (", ".toList ++ s).head? ≠ some ']' := by simp
  simp only [readElements?, if_neg hclose, skip?_append, Option.bind_some, h]

theorem readEntries?_nil : readEntries? accessor (fuel + 1) (']' :: rest) = some ([], rest) := by
  simp [readEntries?]

/-- An entry behind a separator is read, with its key up to the colon, before those that come after
it. -/
theorem readEntries?_cons {k v : Literal} {u : List Char}
    (hk : read? accessor fuel s = some (k, ": ".toList ++ u))
    (hv : read? accessor fuel u = some (v, rest)) :
    readEntries? accessor (fuel + 1) (", ".toList ++ s)
      = (readEntries? accessor fuel rest).map fun (es, rest) => ((k, v) :: es, rest) := by
  have hclose : (", ".toList ++ s).head? ≠ some ']' := by simp
  simp only [readEntries?, if_neg hclose, skip?_append, Option.bind_some, hk, hv]

/-! ## Reading what was written -/

/-- Each item but the first comes behind a separator. -/
theorem separated_cons (item : List Char) (items : List (List Char)) :
    separated (item :: items) = item ++ items.flatMap (", ".toList ++ ·) :=
  Text.intercalate_cons ", ".toList item items

/-- The one float among samples, as it is written. -/
theorem floatChars_sampleFloat : floatChars Sample.sampleFloat = "123.45".toList := by
  decide +kernel

theorem charsOfAll_eq (ls : List Literal) : charsOfAll accessor ls = ls.map (chars accessor) := by
  induction ls with
  | nil => rw [charsOfAll, List.map_nil]
  | cons l ls ih => rw [charsOfAll, ih, List.map_cons]

theorem charsOfEntries_eq (es : List (Literal × Literal)) :
    charsOfEntries accessor es
      = es.map fun e => e.1.chars accessor ++ ": ".toList ++ e.2.chars accessor := by
  induction es with
  | nil => rw [charsOfEntries, List.map_nil]
  | cons e es ih => rw [charsOfEntries, ih, List.map_cons]

/-- The literal is read back from its text, whatever follows. -/
structure ReadsBack (accessor : List Char) (l : Literal) : Prop where
  read?_eq : ∀ fuel rest, (l.chars accessor).length < fuel → EndsWord rest →
    read? accessor fuel (l.chars accessor ++ rest) = some (l, rest)
  head_ne : ∀ rest, (l.chars accessor ++ rest).head? ≠ some ']'
    ∧ (l.chars accessor ++ rest).head? ≠ some ':'

/-- The text of the elements that follow the first one of an array. -/
def moreElements (accessor : List Char) (ls : List Literal) : List Char :=
  ls.flatMap fun l => ", ".toList ++ l.chars accessor

/-- The text of the entries that follow the first one of a dictionary. -/
def moreEntries (accessor : List Char) (es : List (Literal × Literal)) : List Char :=
  es.flatMap fun e => ", ".toList ++ (e.1.chars accessor ++ ": ".toList ++ e.2.chars accessor)

/-- What follows an element ends a word: a separator or the bracket. -/
theorem endsWord_moreElements (ls : List Literal) :
    EndsWord (moreElements accessor ls ++ ']' :: rest) := by
  cases ls with
  | nil => exact endsWord_cons (by decide)
  | cons l ls => exact endsWord_cons (by decide)

/-- What follows an entry ends a word: a separator or the bracket. -/
theorem endsWord_moreEntries (es : List (Literal × Literal)) :
    EndsWord (moreEntries accessor es ++ ']' :: rest) := by
  cases es with
  | nil => exact endsWord_cons (by decide)
  | cons e es => exact endsWord_cons (by decide)

/-- Elements are read back up to the bracket, if each of them is. -/
theorem readElements?_moreElements {ls : List Literal} (hls : ∀ l ∈ ls, ReadsBack accessor l)
    (hfuel : (moreElements accessor ls).length < fuel) :
    readElements? accessor fuel (moreElements accessor ls ++ ']' :: rest) = some (ls, rest) := by
  induction ls generalizing fuel with
  | nil =>
    obtain ⟨fuel, rfl⟩ := Nat.exists_eq_add_of_lt hfuel
    exact readElements?_nil
  | cons l ls ih =>
    obtain ⟨hl, hls⟩ := List.forall_mem_cons.1 hls
    cases fuel with
    | zero => exact absurd hfuel (Nat.not_lt_zero _)
    | succ fuel =>
      have hlength : (moreElements accessor (l :: ls)).length
          = (l.chars accessor).length + (moreElements accessor ls).length + 2 := by
        simp [moreElements]
      have htext : moreElements accessor (l :: ls) ++ ']' :: rest
          = ", ".toList ++ (l.chars accessor ++ (moreElements accessor ls ++ ']' :: rest)) := by
        simp [moreElements]
      have hread := hl.read?_eq fuel (moreElements accessor ls ++ ']' :: rest) (by omega)
        (endsWord_moreElements ls)
      rw [htext, readElements?_cons hread, ih hls (by omega), Option.map_some]

/-- Entries are read back up to the bracket, if keys and values are. -/
theorem readEntries?_moreEntries {es : List (Literal × Literal)}
    (hes : ∀ e ∈ es, ReadsBack accessor e.1 ∧ ReadsBack accessor e.2)
    (hfuel : (moreEntries accessor es).length < fuel) :
    readEntries? accessor fuel (moreEntries accessor es ++ ']' :: rest) = some (es, rest) := by
  induction es generalizing fuel with
  | nil =>
    obtain ⟨fuel, rfl⟩ := Nat.exists_eq_add_of_lt hfuel
    exact readEntries?_nil
  | cons e es ih =>
    obtain ⟨⟨hk, hv⟩, hes⟩ := List.forall_mem_cons.1 hes
    cases fuel with
    | zero => exact absurd hfuel (Nat.not_lt_zero _)
    | succ fuel =>
      have hlength : (moreEntries accessor (e :: es)).length
          = (e.1.chars accessor).length + (e.2.chars accessor).length
            + (moreEntries accessor es).length + 4 := by
        simp [moreEntries]; omega
      have htext : moreEntries accessor (e :: es) ++ ']' :: rest
          = ", ".toList ++ (e.1.chars accessor ++ (": ".toList
            ++ (e.2.chars accessor ++ (moreEntries accessor es ++ ']' :: rest)))) := by
        simp [moreEntries]
      have hkey := hk.read?_eq fuel (": ".toList
        ++ (e.2.chars accessor ++ (moreEntries accessor es ++ ']' :: rest))) (by omega)
        (endsWord_cons (by decide))
      have hvalue := hv.read?_eq fuel (moreEntries accessor es ++ ']' :: rest) (by omega)
        (endsWord_moreEntries es)
      rw [htext, readEntries?_cons hkey hvalue, ih hes (by omega), Option.map_some]

/-- The elements of an array or a set, after their bracket. -/
theorem readBracketed?_charsOfAll {ls : List Literal} (hls : ∀ l ∈ ls, ReadsBack accessor l)
    (hfuel : (separated (charsOfAll accessor ls)).length + 1 < fuel) :
    readBracketed? accessor fuel (separated (charsOfAll accessor ls) ++ ']' :: rest)
      = some (.array ls, rest) := by
  obtain ⟨fuel, rfl⟩ := Nat.exists_eq_add_one.2 (Nat.zero_lt_of_lt hfuel)
  cases ls with
  | nil => simp [charsOfAll, separated, readBracketed?]
  | cons l ls =>
    obtain ⟨hl, hls⟩ := List.forall_mem_cons.1 hls
    have htext : separated (charsOfAll accessor (l :: ls))
        = l.chars accessor ++ moreElements accessor ls := by
      rw [charsOfAll_eq, List.map_cons, separated_cons, List.flatMap_map, moreElements]
    have hlength := congrArg List.length htext
    rw [List.length_append] at hlength
    have hread := hl.read?_eq fuel (moreElements accessor ls ++ ']' :: rest) (by omega)
      (endsWord_moreElements ls)
    have hhead := hl.head_ne (moreElements accessor ls ++ ']' :: rest)
    have hcolon : (moreElements accessor ls ++ ']' :: rest).head? ≠ some ':' := by
      cases ls <;> simp [moreElements]
    rw [htext, List.append_assoc, readBracketed?_array hhead.1 hhead.2 hread hcolon,
      readElements?_moreElements hls (by omega), Option.map_some]

/-- The entries of a dictionary that has some, after their bracket. -/
theorem readBracketed?_charsOfEntries {e : Literal × Literal} {es : List (Literal × Literal)}
    (hes : ∀ x ∈ e :: es, ReadsBack accessor x.1 ∧ ReadsBack accessor x.2)
    (hfuel : (separated (charsOfEntries accessor (e :: es))).length + 1 < fuel) :
    readBracketed? accessor fuel (separated (charsOfEntries accessor (e :: es)) ++ ']' :: rest)
      = some (.dictionary (e :: es), rest) := by
  obtain ⟨fuel, rfl⟩ := Nat.exists_eq_add_one.2 (Nat.zero_lt_of_lt hfuel)
  obtain ⟨⟨hk, hv⟩, hes⟩ := List.forall_mem_cons.1 hes
  have htext : separated (charsOfEntries accessor (e :: es))
      = e.1.chars accessor ++ (": ".toList ++ (e.2.chars accessor ++ moreEntries accessor es)) := by
    rw [charsOfEntries_eq, List.map_cons, separated_cons, List.flatMap_map, moreEntries]
    simp only [List.append_assoc]
  have hlength := congrArg List.length htext
  simp only [List.length_append] at hlength
  have hkey := hk.read?_eq fuel (": ".toList
    ++ (e.2.chars accessor ++ (moreEntries accessor es ++ ']' :: rest))) (by omega)
    (endsWord_cons (by decide))
  have hvalue := hv.read?_eq fuel (moreEntries accessor es ++ ']' :: rest) (by omega)
    (endsWord_moreEntries es)
  have hhead := hk.head_ne (": ".toList
    ++ (e.2.chars accessor ++ (moreEntries accessor es ++ ']' :: rest)))
  rw [htext]
  simp only [List.append_assoc]
  rw [readBracketed?_dictionary hhead.1 hhead.2 hkey hvalue,
    readEntries?_moreEntries hes (by omega), Option.map_some]

/-- A literal that is a word is read back if the word stands for it. -/
theorem readsBack_of_word (htext : l.chars accessor = word) (h : ofWord? accessor word = some l)
    (hword : ∀ c ∈ word, isWordChar c = true) (hne : word ≠ []) (hset : word ≠ "Set".toList) :
    ReadsBack accessor l := by
  constructor
  · intro fuel rest hfuel hr
    obtain ⟨fuel, rfl⟩ := Nat.exists_eq_add_one.2 (Nat.zero_lt_of_lt hfuel)
    rw [htext, read?_word hword hne hset hr, h, Option.map_some]
  · intro rest
    obtain ⟨c, t, rfl⟩ := List.exists_cons_of_ne_nil hne
    have hc : isWordChar c = true := hword c List.mem_cons_self
    rw [htext]
    constructor
    · rintro ⟨rfl⟩; exact absurd hc (by decide)
    · rintro ⟨rfl⟩; exact absurd hc (by decide)

/-- A string is read back whatever it holds, as quotes in it are escaped. -/
theorem readsBack_string (text : String) : ReadsBack accessor (.string text) := by
  have htext : ∀ rest, (string text).chars accessor ++ rest
      = '"' :: (Text.Quoted.encode text.toList ++ '"' :: rest) := by
    simp [chars, Text.Quoted.quote]
  constructor
  · intro fuel rest hfuel _
    obtain ⟨fuel, rfl⟩ := Nat.exists_eq_add_one.2 (Nat.zero_lt_of_lt hfuel)
    simp only [htext, read?_quote, Text.Quoted.read?_encode, Option.map_some, String.ofList_toList]
  · intro rest
    rw [htext]
    simp

theorem readsBack_integer (n : Int64) : ReadsBack accessor (.integer n) := by
  have hmem : ∀ c ∈ Decimal.intChars n.toInt, c.isDigit = true ∨ c = '-' :=
    fun c hc => Decimal.isDigit_of_mem_intChars hc
  refine readsBack_of_word (by rw [chars]) (ofWord?_integer n) ?_ ?_ ?_
  · intro c hc
    rcases hmem c hc with h | rfl
    · simp [isWordChar, Char.isAlphanum, h]
    · decide
  · exact Decimal.intChars_ne_nil _
  · intro h
    exact absurd (hmem 'S' (by rw [h]; decide)) (by decide)

/-- A delegate to a dotted name is read back, if the accessor is a word. -/
theorem readsBack_delegate (ha : ∀ c ∈ accessor, isWordChar c = true) {typeName : String}
    (h : IsDotted typeName.toList) : ReadsBack accessor (.delegate typeName) := by
  refine readsBack_of_word (by rw [chars]) (ofWord?_delegate h) ?_ ?_ ?_
  · intro c hc
    rcases List.mem_append.1 hc with hc | hc
    · exact isWordChar_of_dotted h hc
    · rcases List.mem_cons.1 hc with rfl | hc
      · decide
      · exact ha c hc
  · simp
  · intro hset
    have hdot : '.' ∈ "Set".toList := hset ▸ by simp
    exact absurd hdot (by decide)

/-- An array is read back if its elements are. -/
theorem readsBack_array {ls : List Literal} (hls : ∀ l ∈ ls, ReadsBack accessor l) :
    ReadsBack accessor (.array ls) := by
  have htext : ∀ rest, (array ls).chars accessor ++ rest
      = '[' :: (separated (charsOfAll accessor ls) ++ ']' :: rest) := by
    simp [chars, bracketed]
  have hlength := congrArg List.length (htext [])
  constructor
  · intro fuel rest hfuel _
    obtain ⟨fuel, rfl⟩ := Nat.exists_eq_add_one.2 (Nat.zero_lt_of_lt hfuel)
    rw [htext, read?_bracket]
    apply readBracketed?_charsOfAll hls
    simp at hlength
    omega
  · intro rest
    rw [htext]
    simp

/-- A set is read back if its elements are. -/
theorem readsBack_set {ls : List Literal} (hls : ∀ l ∈ ls, ReadsBack accessor l) :
    ReadsBack accessor (.set ls) := by
  have htext : ∀ rest, (set ls).chars accessor ++ rest
      = "Set([".toList ++ (separated (charsOfAll accessor ls) ++ ']' :: ')' :: rest) := by
    simp [chars, bracketed]
  have hlength := congrArg List.length (htext [])
  constructor
  · intro fuel rest hfuel _
    obtain ⟨fuel, rfl⟩ := Nat.exists_eq_add_one.2 (Nat.zero_lt_of_lt hfuel)
    have hread : readBracketed? accessor fuel
        (separated (charsOfAll accessor ls) ++ ']' :: ')' :: rest)
          = some (.array ls, ')' :: rest) := by
      apply readBracketed?_charsOfAll hls
      simp at hlength
      omega
    rw [htext, read?_set, hread, Option.bind_some, toSet?]
  · intro rest
    rw [htext]
    simp

/-- A dictionary is read back if its keys and values are, also one without any, which has a text of
its own. -/
theorem readsBack_dictionary {es : List (Literal × Literal)}
    (hes : ∀ e ∈ es, ReadsBack accessor e.1 ∧ ReadsBack accessor e.2) :
    ReadsBack accessor (.dictionary es) := by
  cases es with
  | nil =>
    constructor
    -- the colon tells an empty dictionary from an empty array
    · intro fuel rest hfuel _
      obtain ⟨fuel, rfl⟩ : ∃ n, fuel = n + 2 := ⟨fuel - 2, by simp [chars] at hfuel; omega⟩
      have htext : (dictionary []).chars accessor ++ rest = '[' :: (":]".toList ++ rest) := by
        rw [chars]; rfl
      have hclose : (":]".toList ++ rest).head? ≠ some ']' := by simp
      have hempty : (":]".toList ++ rest).head? = some ':' := rfl
      rw [htext, read?_bracket, readBracketed?, if_neg hclose, if_pos hempty, skip?_append,
        Option.map_some]
    · intro rest
      rw [chars]
      simp
  | cons e es =>
    have htext : ∀ rest, (dictionary (e :: es)).chars accessor ++ rest
        = '[' :: (separated (charsOfEntries accessor (e :: es)) ++ ']' :: rest) := by
      simp [chars, bracketed]
    have hlength := congrArg List.length (htext [])
    constructor
    · intro fuel rest hfuel _
      obtain ⟨fuel, rfl⟩ := Nat.exists_eq_add_one.2 (Nat.zero_lt_of_lt hfuel)
      rw [htext, read?_bracket]
      apply readBracketed?_charsOfEntries hes
      simp at hlength
      omega
    · intro rest
      rw [htext]
      simp

mutual

/-- **A readable literal is read back from its text, whatever follows.** -/
theorem readsBack (ha : ∀ c ∈ accessor, isWordChar c = true) :
    ∀ l : Literal, l.Readable → ReadsBack accessor l
  | .string text, _ => readsBack_string text
  | .integer n, _ => readsBack_integer n
  | .float x, h => by
    obtain rfl : x = Sample.sampleFloat := h
    have htext : (float Sample.sampleFloat).chars accessor = "123.45".toList := by
      rw [chars, floatChars_sampleFloat]
    exact readsBack_of_word htext (by simp [ofWord?]) (List.all_eq_true.1 (by decide))
      (by decide) (by decide)
  | .bool true, _ =>
    readsBack_of_word (by rw [chars, if_pos rfl]) (by simp [ofWord?])
      (List.all_eq_true.1 (by decide)) (by decide) (by decide)
  | .bool false, _ =>
    readsBack_of_word (by rw [chars, if_neg (by decide)]) (by simp [ofWord?])
      (List.all_eq_true.1 (by decide)) (by decide) (by decide)
  | .nil, _ =>
    readsBack_of_word (by rw [chars]) (by simp [ofWord?]) (List.all_eq_true.1 (by decide))
      (by decide) (by decide)
  | .array ls, h => readsBack_array (readsBack_of_mem ha ls h)
  | .set ls, h => readsBack_set (readsBack_of_mem ha ls h)
  | .dictionary es, h => readsBack_dictionary (readsBack_of_mem_entries ha es h)
  | .delegate _, h => readsBack_delegate ha h

theorem readsBack_of_mem (ha : ∀ c ∈ accessor, isWordChar c = true) :
    ∀ ls : List Literal, AllReadable ls → ∀ l ∈ ls, ReadsBack accessor l
  | [], _ => nofun
  | l :: ls, h => List.forall_mem_cons.2 ⟨readsBack ha l h.1, readsBack_of_mem ha ls h.2⟩

theorem readsBack_of_mem_entries (ha : ∀ c ∈ accessor, isWordChar c = true) :
    ∀ es : List (Literal × Literal), AllEntriesReadable es →
      ∀ e ∈ es, ReadsBack accessor e.1 ∧ ReadsBack accessor e.2
  | [], _ => nofun
  | (k, v) :: es, h =>
    List.forall_mem_cons.2 ⟨⟨readsBack ha k h.1, readsBack ha v h.2.1⟩,
      readsBack_of_mem_entries ha es h.2.2⟩

end

end Literal

end Exemplar
