import Exemplar.Proofs.Json.Agrees

/-!
# Proofs/Json/Trailing — what comes behind a value is not looked at

    {"a": [1, 2]}   and   {"a": [1, 2]}, ]"   ──▸   {"a": [1, 2]}

No reader looks further than one character past what it takes.  So one that left some text stops at
the same place if the text goes on (`Stops`), and that passes from the reader of items or values to
the reader of a container (`readItems_append`, `foldEntries_append`).  Strings and containers end
with a character of their own, which is why nothing need be left behind them (`Quoted.read_append`,
`readValue_append`); behind a number something must, since `1` with `2` behind it is `12`.
-/

namespace Exemplar.Json

variable {c : Char} {s t r : List Char} {n e fuel fuel' : ℕ} {α : Type}

/-! ## Readers that stop -/

/-- Where `read` leaves some text, it stops there as well if the text goes on. -/
def Stops (read : List Char → Reading α) : Prop :=
  ∀ ⦃s a c r⦄, read s = .ok (a, c :: r) → ∀ w, read (s ++ w) = .ok (a, c :: r ++ w)

section Runs

variable {p : Char → Bool}

/-- A run that is ended by a character does not change with what follows the text. -/
theorem takeWhile_append (h : s.dropWhile p = c :: t) (w : List Char) :
    (s ++ w).takeWhile p = s.takeWhile p := by
  have hne : (s.takeWhile p).length ≠ s.length := by
    have hsum := congrArg List.length (List.takeWhile_append_dropWhile (p := p) (l := s))
    rw [h, List.length_append, List.length_cons] at hsum
    omega
  rw [List.takeWhile_append, if_neg hne]

/-- A run that is ended by a character ends there with more text too. -/
theorem dropWhile_append (h : s.dropWhile p = c :: t) (w : List Char) :
    (s ++ w).dropWhile p = c :: (t ++ w) := by
  rw [List.dropWhile_append, h]
  rfl

end Runs

/-! ## Strings -/

namespace Quoted

theorem readUnit_append (h : readUnit s = .ok (n, r)) (w : List Char) :
    readUnit (s ++ w) = .ok (n, r ++ w) := by
  rw [readUnit.eq_def] at h
  split at h
  · split at h
    · rename_i ha hb hc hd
      cases h
      simp only [List.cons_append, readUnit, ha, hb, hc, hd]
    · cases h
  · split_ifs at h

/-- The second half of a pair is read alike. -/
theorem readTrailing_append {unit : ℕ} (h : readTrailing unit s = .ok (c, r)) (w : List Char) :
    readTrailing unit (s ++ w) = .ok (c, r ++ w) := by
  rw [readTrailing] at h
  cases hmark : readPairMark s with
  | error f => rw [hmark] at h; cases h
  | ok t =>
    obtain rfl := eq_of_readPairMark hmark
    rw [hmark] at h
    cases hunit : readUnit t with
    | error f => simp only [hunit] at h; cases h
    | ok result =>
      obtain ⟨trailing, u⟩ := result
      simp only [hunit] at h
      split_ifs at h with htrailing
      obtain ⟨rfl, rfl⟩ := Prod.mk.inj (Except.ok.inj h)
      rw [List.cons_append, List.cons_append, readTrailing, readPairMark]
      simp only [readUnit_append hunit w, htrailing, if_true]

/-- A character is read alike by its hexadecimal digits. -/
theorem readUnits_append (h : readUnits s = .ok (c, r)) (w : List Char) :
    readUnits (s ++ w) = .ok (c, r ++ w) := by
  rw [readUnits] at h
  cases hunit : readUnit s with
  | error f => rw [hunit] at h; cases h
  | ok result =>
    obtain ⟨unit, t⟩ := result
    simp only [hunit] at h
    rw [readUnits, readUnit_append hunit w]
    split_ifs at h with htrailing hleading
    · simp only [if_neg htrailing, if_pos hleading, readTrailing_append h w]
    · cases h
      simp only [if_neg htrailing, if_neg hleading]

/-- An escape is read alike, whatever follows it. -/
theorem readEscape_append (h : readEscape s = .ok (c, r)) (w : List Char) :
    readEscape (s ++ w) = .ok (c, r ++ w) := by
  cases s with
  | nil => cases h
  | cons letter s =>
    rw [readEscape] at h
    rw [List.cons_append, readEscape]
    split_ifs at h ⊢ with hu
    · exact readUnits_append h w
    · cases hletter : unescape? letter with
      | none => rw [hletter] at h; cases h
      | some d =>
        rw [hletter] at h
        cases h
        rfl

/-- **A text is read alike up to its quote**, whatever follows that, with more fuel if need be. -/
theorem readFrom_append {cs : List Char} (h : readFrom fuel s = .ok (cs, r)) (hfuel : fuel ≤ fuel')
    (w : List Char) : readFrom fuel' (s ++ w) = .ok (cs, r ++ w) := by
  induction fuel generalizing s cs fuel' with
  | zero => cases h
  | succ fuel ih =>
    obtain ⟨fuel', rfl⟩ := Nat.exists_eq_add_one.2 (Nat.zero_lt_of_lt hfuel)
    have hfuel : fuel ≤ fuel' := Nat.le_of_succ_le_succ hfuel
    cases s with
    | nil => cases h
    | cons c s =>
      rw [readFrom] at h
      rw [List.cons_append]
      split_ifs at h with hquote hslash hcontrol
      -- at the quote reading stops, whatever is left
      · cases h
        rw [hquote, readFrom_quote]
      · subst hslash
        cases hescape : readEscape s with
        | error f => rw [hescape] at h; cases h
        | ok result =>
          rw [hescape] at h
          obtain ⟨ds, rfl, hread⟩ := consChar_eq_ok h
          rw [readFrom_escape (readEscape_append hescape w), ih hread hfuel]
          rfl
      · obtain ⟨ds, rfl, hread⟩ := consChar_eq_ok h
        rw [readFrom_plain hquote hslash (by simpa using hcontrol), ih hread hfuel]
        rfl

/-- **What comes behind a string is not looked at.** -/
theorem read_append {text : String} (h : read s = .ok (text, r)) (w : List Char) :
    read (s ++ w) = .ok (text, r ++ w) := by
  rw [read] at h
  cases hread : readFrom (s.length + 1) s with
  | error f => rw [hread] at h; cases h
  | ok result =>
    rw [hread] at h
    cases h
    have hfuel : s.length + 1 ≤ (s ++ w).length + 1 :=
      Nat.succ_le_succ (List.sublist_append_left s w).length_le
    rw [read, readFrom_append hread hfuel w]

end Quoted

/-! ## Numbers -/

namespace Numeral

variable {negative minus : Bool} {m : Number} {exponent : ℤ}

/-- A double is what it is whatever it ends before. -/
theorem toReal_rest (h : toReal negative n exponent s = .ok (m, r)) (t : List Char) :
    toReal negative n exponent t = .ok (m, t) := by
  rw [toReal] at h ⊢
  split at h <;> cases h
  rfl

/-- The digits of an exponent are read alike once something stands behind them. -/
theorem stops_readExponentDigits :
    Stops (readExponentDigits negative n exponent minus e) := by
  intro s m c r h w
  induction s generalizing e with
  | nil => exact absurd (eq_of_toReal h) (List.cons_ne_nil c r)
  | cons d s ih =>
    rw [readExponentDigits] at h
    rw [List.cons_append, readExponentDigits]
    split_ifs at h ⊢ with hd hlarge
    · cases hrest : s.dropWhile Char.isDigit with
      | nil => rw [hrest] at h; cases h
      | cons b t =>
        rw [hrest] at h
        cases h
        rw [dropWhile_append hrest]
        rfl
    · exact ih h
    · rw [eq_of_toReal h]
      exact toReal_rest h _
    · rw [eq_of_toReal h]
      exact toReal_rest h _

/-- A sign is told by what stands behind it in the text. -/
theorem readSign_append {d : Char} {t : List Char} (h : readSign s = (minus, d :: t))
    (w : List Char) : readSign (s ++ w) = (minus, d :: (t ++ w)) := by
  rw [readSign.eq_def] at h
  split at h
  · cases h; rfl
  · cases h; rfl
  · rename_i hplus hminus
    cases h
    rw [List.cons_append, readSign.eq_def]
    split <;> simp_all

theorem stops_readExponent : Stops (readExponent negative n exponent) := by
  intro s m c r h w
  rw [readExponent] at h
  split at h
  · cases h
  · rename_i minus d t hsign
    split_ifs at h with hd
    rw [readExponent, readSign_append hsign]
    simp only [hd, if_true]
    exact stops_readExponentDigits h w

/-- What may be an exponent is told by its first character. -/
theorem stops_readScale : Stops (readScale negative n exponent) := by
  intro s m c r h w
  cases s with
  | nil => exact absurd (eq_of_toReal h) (List.cons_ne_nil c r)
  | cons d s =>
    rw [readScale] at h
    rw [List.cons_append, readScale]
    split_ifs at h ⊢ with hmark
    · exact stops_readExponent h w
    · rw [eq_of_toReal h]
      exact toReal_rest h _

/-- What leaves some text had some. -/
theorem exists_cons_of_length_le (h : (c :: r).length ≤ s.length) : ∃ d t, s = d :: t :=
  List.exists_cons_of_length_pos (Nat.zero_lt_of_lt h)

/-- A fraction is read alike once something stands behind its digits. -/
theorem stops_readFraction : Stops (readFraction negative n exponent) := by
  intro s m c r h w
  rw [readFraction] at h ⊢
  simp only at h ⊢
  split_ifs at h with hdigits
  obtain ⟨d, t, hrest⟩ :=
    exists_cons_of_length_le (length_le_of_skipScale (skipScale_of_readScale h))
  rw [takeWhile_append hrest, if_neg hdigits, dropWhile_append hrest]
  rw [hrest] at h
  exact stops_readScale h w

/-- What follows the whole part is read alike once it has stopped. -/
theorem stops_readTail {dropped : ℕ} : Stops (readTail negative n dropped) := by
  intro s m c r h w
  obtain ⟨d, t, rfl⟩ := exists_cons_of_length_le (length_le_of_skipTail (skipTail_of_readTail h))
  by_cases hpoint : d = '.'
  · subst hpoint
    exact stops_readFraction h w
  · rw [readTail_cons hpoint] at h
    rw [List.cons_append, readTail_cons hpoint]
    split_ifs at h ⊢ with hscale
    · exact stops_readScale h w
    · cases h
      rfl

/-- A number without its sign is read alike once it has stopped. -/
theorem stops_readUnsigned : Stops (readUnsigned negative) := by
  intro s m c r h w
  rw [readUnsigned] at h ⊢
  simp only at h ⊢
  have hrest : ∃ d t, s.dropWhile Char.isDigit = d :: t := by
    split at h
    · cases h
    · cases h
    · exact exists_cons_of_length_le (length_le_of_skipTail (skipTail_of_readTail h))
  obtain ⟨d, t, hrest⟩ := hrest
  rw [takeWhile_append hrest, dropWhile_append hrest]
  rw [hrest] at h
  split at h
  · cases h
  · cases h
  · exact stops_readTail h w

theorem read_cons (h : c ≠ '-') : read (c :: s) = readUnsigned false (c :: s) := by
  rw [read]
  rintro t ⟨rfl⟩
  exact h rfl

/-- **Of what comes behind a number no more than one character is looked at.** -/
theorem stops_read : Stops read := by
  intro s m c r h w
  cases s with
  | nil => cases h
  | cons d s =>
    by_cases hsign : d = '-'
    · subst hsign
      exact stops_readUnsigned h w
    · rw [read_cons hsign] at h
      rw [List.cons_append, read_cons hsign]
      exact stops_readUnsigned h w

end Numeral

/-! ## Atoms -/

/-- Blanks that end before the text does end there with more text too. -/
theorem skipBlanks_append (h : skipBlanks s = c :: t) (w : List Char) :
    skipBlanks (s ++ w) = c :: (t ++ w) :=
  dropWhile_append h w

/-- **An atom is read alike once it has stopped**: numbers are the ones that have to. -/
theorem stops_readAtom : Stops readAtom := by
  intro s v c r h w
  cases atom_of_readAtom h with
  | null => exact readAtom_null
  | true => exact readAtom_true
  | false => exact readAtom_false
  | string hread => exact readAtom_string (Quoted.read_append hread w)
  | number hc hread => exact readAtom_numeral hc (Numeral.stops_read hread w)

/-! ## Items and entries -/

/-- Whether an item comes next is told by the text that was there. -/
theorem nextItem_append {first more : Bool} (h : nextItem first s = .ok (more, t))
    (w : List Char) : nextItem first (s ++ w) = .ok (more, t ++ w) := by
  cases more with
  | false =>
    obtain ⟨r, hs, rfl⟩ := nextItem_false h
    exact nextItem_close (skipBlanks_append hs w)
  | true =>
    obtain ⟨c, u, rfl, hc, ⟨rfl, hs⟩ | ⟨rfl, rest, hs, hrest⟩⟩ := nextItem_true h
    · exact nextItem_first (skipBlanks_append hs w) hc
    · exact nextItem_comma (skipBlanks_append hs w) (skipBlanks_append hrest w) hc

/-- Which key comes next is told by the text that was there. -/
theorem nextKey_append {first : Bool} {key : Option String} (h : nextKey first s = .ok (key, t))
    (w : List Char) : nextKey first (s ++ w) = .ok (key, t ++ w) := by
  cases key with
  | none =>
    obtain ⟨r, hs, rfl⟩ := nextKey_none h
    exact nextKey_close (skipBlanks_append hs w)
  | some key =>
    obtain ⟨u, hread, ⟨rfl, hs⟩ | ⟨rfl, rest, hs, hrest⟩⟩ := nextKey_some h
    · exact nextKey_first (skipBlanks_append hs w) (Quoted.read_append hread w)
    · exact nextKey_comma (skipBlanks_append hs w) (skipBlanks_append hrest w)
        (Quoted.read_append hread w)

theorem readColon_append (h : readColon s = .ok t) (w : List Char) :
    readColon (s ++ w) = .ok (t ++ w) := by
  rw [readColon, skipBlanks_append (skipBlanks_of_readColon h) w]
  simp only [if_true]

/-- An entry is read alike if its value is. -/
theorem Stops.readEntryValue {value : List Char → Reading α} (h : Stops value) (key : String) :
    Stops (readEntryValue value key) := by
  intro s a c r hread w
  obtain ⟨t, hcolon, hvalue⟩ := readEntryValue_eq_ok hread
  exact readEntryValue_of_readColon (readColon_append hcolon w) (h hvalue w)

/-- An entry that is read into an object is read alike if its value is. -/
theorem Stops.insertRead {value : List Char → Reading Value} (h : Stops value)
    (acc : List (String × Value)) (key : String) : Stops (insertRead value acc key) := by
  intro s es c r hread w
  rw [Json.insertRead] at hread ⊢
  cases hvalue : Json.readEntryValue value key s with
  | error f => rw [hvalue] at hread; cases hread
  | ok result =>
    obtain ⟨v, u⟩ := result
    rw [hvalue] at hread
    cases hread
    rw [h.readEntryValue key hvalue w]

/-- Where items end there is a bracket, so there is some text. -/
theorem exists_cons_of_readItems {item : List Char → Reading α} {i : ℕ} {as : List α}
    (h : readItems item fuel i s = .ok (as, r)) : ∃ c t, s = c :: t := by
  cases s with
  | cons c t => exact ⟨c, t, rfl⟩
  | nil =>
    cases fuel with
    | zero => cases h
    | succ fuel => cases h

/-- Entries are read from some text, if only from their brace. -/
theorem exists_cons_of_foldEntries {σ : Type} {entry : σ → String → List Char → Reading σ}
    {first : Bool} {state state' : σ} (h : foldEntries entry fuel first state s = .ok (state', r)) :
    ∃ c t, s = c :: t := by
  cases s with
  | cons c t => exact ⟨c, t, rfl⟩
  | nil =>
    cases fuel with
    | zero => cases h
    | succ fuel => cases h

/-- Behind an item there is at least the bracket, so its reader need only stop where text is
left. -/
theorem readItems_append {item : List Char → Reading α} {i : ℕ} {as : List α} (hitem : Stops item)
    (h : readItems item fuel i s = .ok (as, r)) (hfuel : fuel ≤ fuel') (w : List Char) :
    readItems item fuel' i (s ++ w) = .ok (as, r ++ w) := by
  induction fuel generalizing i s as fuel' with
  | zero => cases h
  | succ fuel ih =>
    obtain ⟨fuel', rfl⟩ := Nat.exists_eq_add_one.2 (Nat.zero_lt_of_lt hfuel)
    obtain ⟨hnext, rfl⟩ | ⟨t, a, u, bs, hnext, hread, hmore, rfl⟩ := readItems_eq_ok h
    · exact readItems_none (nextItem_append hnext w)
    · have hrest := ih hmore (Nat.le_of_succ_le_succ hfuel)
      obtain ⟨c, u, rfl⟩ := exists_cons_of_readItems hmore
      exact readItems_some (nextItem_append hnext w) (hitem hread w) hrest

/-- Entries are read alike up to their brace, as each of them has stopped before it. -/
theorem foldEntries_append {σ : Type} {entry : σ → String → List Char → Reading σ} {first : Bool}
    {state state' : σ} (hentry : ∀ state key, Stops (entry state key))
    (h : foldEntries entry fuel first state s = .ok (state', r)) (hfuel : fuel ≤ fuel')
    (w : List Char) : foldEntries entry fuel' first state (s ++ w) = .ok (state', r ++ w) := by
  induction fuel generalizing first state s fuel' with
  | zero => cases h
  | succ fuel ih =>
    obtain ⟨fuel', rfl⟩ := Nat.exists_eq_add_one.2 (Nat.zero_lt_of_lt hfuel)
    obtain ⟨hnext, rfl⟩ | ⟨key, t, next, u, hnext, hread, hmore⟩ := foldEntries_eq_ok h
    · exact foldEntries_none (nextKey_append hnext w)
    · have hrest := ih hmore (Nat.le_of_succ_le_succ hfuel)
      obtain ⟨c, u, rfl⟩ := exists_cons_of_foldEntries hmore
      rw [foldEntries_some (nextKey_append hnext w) (hentry state key hread w)]
      exact hrest

/-! ## Containers -/

/-- An array that has closed is closed with more text too. -/
theorem inside_closeArray_append {a : α} (h : (closeArray s).failure = none) (w : List Char) :
    inside closeArray (.ok (a, s ++ w)) = .ok (a, (closeArray s).rest ++ w) := by
  have hclose : closeArray (s ++ w) = { rest := (closeArray s).rest ++ w } := by
    rw [closeArray, skipBlanks_append (skipBlanks_of_closeArray h) w]
    simp only [if_true]
  rw [inside, hclose]

/-- Closing succeeds at the brace only. -/
theorem skipBlanks_of_closeObject (h : (closeObject s).failure = none) :
    skipBlanks s = '\x7d' :: (closeObject s).rest := by
  rw [closeObject] at h ⊢
  cases hs : skipBlanks s with
  | nil => rw [hs] at h; cases h
  | cons c t =>
    rw [hs] at h
    simp only at h ⊢
    split_ifs at h ⊢ with hc
    rw [hc]

/-- An object that has closed is closed with more text too. -/
theorem inside_closeObject_append {a : α} (h : (closeObject s).failure = none) (w : List Char) :
    inside closeObject (.ok (a, s ++ w)) = .ok (a, (closeObject s).rest ++ w) := by
  have hclose : closeObject (s ++ w) = { rest := (closeObject s).rest ++ w } := by
    rw [closeObject, skipBlanks_append (skipBlanks_of_closeObject h) w]
    simp only [if_true]
  rw [inside, hclose]

section Values

variable {levels : ℕ} {v : Value}

/-- An array is read alike, with its items one level down. -/
theorem readArray_append (hvalue : Stops (readValue levels)) (hs : skipBlanks s = '[' :: t)
    (h : readValue (levels + 1) s = .ok (v, r)) (w : List Char) :
    readValue (levels + 1) (s ++ w) = .ok (v, r ++ w) := by
  obtain ⟨items, hinside, rfl⟩ := (readValue_array hs).1 h
  obtain ⟨u, hitems, hclose, rfl⟩ := inside_eq_ok hinside
  have hfuel : t.length + 1 ≤ (t ++ w).length + 1 :=
    Nat.succ_le_succ (List.sublist_append_left t w).length_le
  refine (readValue_array (skipBlanks_append hs w)).2 ⟨items, ?_, rfl⟩
  rw [readItems_append hvalue hitems hfuel w, inside_closeArray_append hclose w]

/-- An object is read alike, with its values one level down. -/
theorem readObject_append (hvalue : Stops (readValue levels)) (hs : skipBlanks s = '\x7b' :: t)
    (h : readValue (levels + 1) s = .ok (v, r)) (w : List Char) :
    readValue (levels + 1) (s ++ w) = .ok (v, r ++ w) := by
  obtain ⟨es, hinside, rfl⟩ := (readValue_object hs).1 h
  obtain ⟨u, hentries, hclose, rfl⟩ := inside_eq_ok hinside
  have hfuel : t.length + 1 ≤ (t ++ w).length + 1 :=
    Nat.succ_le_succ (List.sublist_append_left t w).length_le
  refine (readValue_object (skipBlanks_append hs w)).2 ⟨es, ?_, rfl⟩
  rw [foldEntries_append hvalue.insertRead hentries hfuel w, inside_closeObject_append hclose w]

/-- A container can only be read with a level left for it. -/
theorem exists_level_of_readValue (hs : skipBlanks s = c :: t) (hc : c = '[' ∨ c = '\x7b')
    (h : readValue levels s = .ok (v, r)) : ∃ n, levels = n + 1 := by
  cases levels with
  | succ n => exact ⟨n, rfl⟩
  | zero =>
    rw [readValue, hs] at h
    rcases hc with rfl | rfl <;> cases h

/-- A container is read to its end if the values in it are read by readers that stop. -/
theorem readContainer_append (hvalue : ∀ n < levels, Stops (readValue n))
    (hs : skipBlanks s = c :: t) (hc : c = '[' ∨ c = '\x7b') (h : readValue levels s = .ok (v, r))
    (w : List Char) : readValue levels (s ++ w) = .ok (v, r ++ w) := by
  obtain ⟨n, rfl⟩ := exists_level_of_readValue hs hc h
  have hinner : Stops (readValue n) := hvalue n (Nat.lt_succ_self n)
  rcases hc with rfl | rfl
  · exact readArray_append hinner hs h w
  · exact readObject_append hinner hs h w

/-- **Of what comes behind a value no more than one character is looked at.** -/
theorem stops_readValue (levels : ℕ) : Stops (readValue levels) := by
  induction levels using Nat.strong_induction_on with
  | _ levels ih =>
    intro s v c r h w
    cases hs : skipBlanks s with
    | nil => rw [readValue, hs] at h; cases h
    | cons d t =>
      by_cases hd : d = '[' ∨ d = '\x7b'
      · exact readContainer_append ih hs hd h w
      · obtain ⟨harray, hobject⟩ := not_or.1 hd
        rw [readValue_atom hs harray hobject] at h
        rw [readValue_atom (skipBlanks_append hs w) harray hobject]
        exact stops_readAtom h w

-- A number with nothing behind it does go on.
example : readValue 0 ['1'] = .ok (.number (.integer 1), []) ∧
    readValue 0 ['1', '2'] = .ok (.number (.integer 12), []) := ⟨rfl, rfl⟩

/-- **What comes behind a container is not looked at**, even if nothing did. -/
theorem readValue_append (hs : skipBlanks s = c :: t) (hc : c = '[' ∨ c = '\x7b')
    (h : readValue levels s = .ok (v, r)) (w : List Char) :
    readValue levels (s ++ w) = .ok (v, r ++ w) :=
  readContainer_append (fun n _ => stops_readValue n) hs hc h w

end Values

/-- A text that starts with an array or an object keeps its value if it goes on. -/
theorem Value.ofText_append {source : String} {v : Value}
    (hopen : (skipBlanks source.toList).head? = some '[' ∨
      (skipBlanks source.toList).head? = some '\x7b')
    (hread : ofText source = .ok v) (w : String) : ofText (source ++ w) = .ok v := by
  obtain ⟨r, hread⟩ := ofText_eq_ok.1 hread
  refine ofText_eq_ok.2 ⟨r ++ w.toList, ?_⟩
  rw [String.toList_append]
  cases hs : skipBlanks source.toList with
  | nil => rw [hs] at hopen; simp at hopen
  | cons c t =>
    have hc : c = '[' ∨ c = '\x7b' := by simpa [hs] using hopen
    exact readValue_append hs hc hread w.toList

end Exemplar.Json
