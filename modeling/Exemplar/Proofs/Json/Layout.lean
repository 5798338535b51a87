import Exemplar.Json.Read
import Exemplar.Proofs.Json.Numeral
import Exemplar.Proofs.Json.Quoted

/-!
# Proofs/Json/Layout — where tokens, items and entries begin and end

    [ 1 , "a" ]   ──▸   1 , "a" ]   ──▸   "a" ]   ──▸   ]

Every reader of a container takes the same steps from item to item, so what one step does is said
here once.  An atom that can be read is one of four (`atom_of_readAtom`) and is skipped alike
(`skipAtom_of_readAtom`); the step to the next item or key never goes back
(`length_le_of_nextItem`, `length_lt_of_nextKey`), and where there is none it stands at the
bracket (`nextItem_false`, `nextKey_none`), which is what closing looks for.
-/

namespace Exemplar.Json

variable {c : Char} {s t u r rest w : List Char} {v : Value} {first more : Bool} {key : String}

/-! ## Blanks -/

theorem skipBlanks_cons (h : isBlank c = false) : skipBlanks (c :: s) = c :: s :=
  List.dropWhile_cons_of_neg (by simp [h])

/-- What is left after blanks does not start with one. -/
theorem isBlank_of_skipBlanks (h : skipBlanks s = c :: t) : isBlank c = false := by
  have hhead := List.head?_dropWhile_not isBlank s
  rw [skipBlanks] at h
  rw [h] at hhead
  simpa using hhead

/-- Blanks are skipped at once. -/
theorem skipBlanks_skipBlanks (s : List Char) : skipBlanks (skipBlanks s) = skipBlanks s := by
  cases h : skipBlanks s with
  | nil => rfl
  | cons c t => exact skipBlanks_cons (isBlank_of_skipBlanks h)

/-- What is left after blanks has none to skip. -/
theorem skipBlanks_eq_self (h : skipBlanks s = t) : skipBlanks t = t := by
  rw [← h, skipBlanks_skipBlanks]

theorem length_skipBlanks_le (s : List Char) : (skipBlanks s).length ≤ s.length :=
  Numeral.length_dropWhile_le s isBlank

/-- A character found behind blanks lies further on. -/
theorem length_lt_of_skipBlanks (h : skipBlanks s = c :: t) : t.length < s.length := by
  have hle := length_skipBlanks_le s
  rw [h, List.length_cons] at hle
  omega

/-! ## Atoms -/

/-- A word is found where it stands, whatever follows it. -/
theorem expectWord_append (w rest : List Char) : expectWord w (w ++ rest) = .ok rest := by
  induction w with
  | nil => rfl
  | cons c w ih => rw [List.cons_append, expectWord, if_pos rfl, ih]

/-- A word that is found stands there. -/
theorem eq_append_of_expectWord (h : expectWord w s = .ok r) : s = w ++ r := by
  induction w generalizing s with
  | nil =>
    cases h
    rfl
  | cons c w ih =>
    cases s with
    | nil => cases h
    | cons d s =>
      rw [expectWord] at h
      split_ifs at h with hd
      rw [hd, ih h, List.cons_append]

/-- A value that is a word is read with all of the word. -/
theorem eq_append_of_readWord {word : String} {value : Value}
    (h : readWord word value s = .ok (v, r)) : v = value ∧ s = word.toList ++ r := by
  rw [readWord] at h
  cases hword : expectWord word.toList s with
  | error f => rw [hword] at h; cases h
  | ok t =>
    rw [hword] at h
    cases h
    exact ⟨rfl, eq_append_of_expectWord hword⟩

/-- `Atom v s r`: the text `s` starts with the atom `v`, and `r` follows it. -/
inductive Atom : Value → List Char → List Char → Prop
  | null (r : List Char) : Atom .null ('n' :: ("ull".toList ++ r)) r
  | true (r : List Char) : Atom (.bool .true) ('t' :: ("rue".toList ++ r)) r
  | false (r : List Char) : Atom (.bool .false) ('f' :: ("alse".toList ++ r)) r
  | string {text : String} {t r : List Char} (h : Quoted.read t = .ok (text, r)) :
      Atom (.string text) ('"' :: t) r
  | number {n : Number} {c : Char} {t r : List Char} (hc : c = '-' ∨ c.isDigit)
      (h : Numeral.read (c :: t) = .ok (n, r)) : Atom (.number n) (c :: t) r

/-- **What is read as an atom is one**, by the character that it starts with. -/
theorem atom_of_readAtom (h : readAtom s = .ok (v, r)) : Atom v s r := by
  cases s with
  | nil => cases h
  | cons c s =>
    rw [readAtom] at h
    split_ifs at h with hnull htrue hfalse hquote hnumber
    · obtain ⟨rfl, rfl⟩ := eq_append_of_readWord h
      exact hnull ▸ .null r
    · obtain ⟨rfl, rfl⟩ := eq_append_of_readWord h
      exact htrue ▸ .true r
    · obtain ⟨rfl, rfl⟩ := eq_append_of_readWord h
      exact hfalse ▸ .false r
    · cases hread : Quoted.read s with
      | error f => rw [hread] at h; cases h
      | ok result =>
        rw [hread] at h
        cases h
        exact hquote ▸ .string hread
    · cases hread : Numeral.read (c :: s) with
      | error f => rw [hread] at h; cases h
      | ok result =>
        rw [hread] at h
        cases h
        exact .number hnumber hread

/-- A sign or a digit is none of the characters that other atoms start with. -/
theorem numeral_ne (hc : c = '-' ∨ c.isDigit) : c ≠ 'n' ∧ c ≠ 't' ∧ c ≠ 'f' ∧ c ≠ '"' := by
  refine ⟨?_, ?_, ?_, ?_⟩ <;> rintro rfl <;> exact absurd hc (by decide)

/-- An atom that starts with a digit or a minus is read as a number. -/
theorem readAtom_numeral (hc : c = '-' ∨ c.isDigit) {n : Number}
    (h : Numeral.read (c :: s) = .ok (n, r)) : readAtom (c :: s) = .ok (.number n, r) := by
  obtain ⟨hnull, htrue, hfalse, hquote⟩ := numeral_ne hc
  rw [readAtom, if_neg hnull, if_neg htrue, if_neg hfalse, if_neg hquote, if_pos hc, h]

/-- An atom that starts with a digit or a minus is skipped as a number. -/
theorem skipAtom_numeral (hc : c = '-' ∨ c.isDigit) :
    skipAtom (c :: s) = Numeral.skip (c :: s) := by
  obtain ⟨hnull, htrue, hfalse, hquote⟩ := numeral_ne hc
  rw [skipAtom, if_neg hnull, if_neg htrue, if_neg hfalse, if_neg hquote, if_pos hc]

theorem readAtom_null : readAtom ('n' :: ("ull".toList ++ r)) = .ok (.null, r) := by
  rw [readAtom, if_pos rfl, readWord, expectWord_append]

theorem readAtom_true : readAtom ('t' :: ("rue".toList ++ r)) = .ok (.bool true, r) := by
  rw [readAtom, if_neg (by decide), if_pos rfl, readWord, expectWord_append]

theorem readAtom_false : readAtom ('f' :: ("alse".toList ++ r)) = .ok (.bool false, r) := by
  rw [readAtom, if_neg (by decide), if_neg (by decide), if_pos rfl, readWord, expectWord_append]

theorem readAtom_string {text : String} (h : Quoted.read s = .ok (text, r)) :
    readAtom ('"' :: s) = .ok (.string text, r) := by
  rw [readAtom, if_neg (by decide), if_neg (by decide), if_neg (by decide), if_pos rfl, h]

theorem skipAtom_quote : skipAtom ('"' :: s) = Quoted.skip s := by
  rw [skipAtom, if_neg (by decide), if_neg (by decide), if_neg (by decide), if_pos rfl]

theorem skipAtom_null : skipAtom ('n' :: s) = expectWord "ull".toList s := by
  rw [skipAtom, if_pos rfl]

/-- **An atom that can be read is skipped alike.** -/
theorem skipAtom_of_readAtom (h : readAtom s = .ok (v, r)) : skipAtom s = .ok r := by
  cases atom_of_readAtom h with
  | null => rw [skipAtom_null, expectWord_append]
  | true => rw [skipAtom, if_neg (by decide), if_pos rfl, expectWord_append]
  | false =>
    rw [skipAtom, if_neg (by decide), if_neg (by decide), if_pos rfl, expectWord_append]
  | string hread => rw [skipAtom_quote, Quoted.skip_of_read hread]
  | number hc hread => rw [skipAtom_numeral hc, Numeral.skip_of_read hread]

theorem length_le_of_expectWord (h : expectWord w s = .ok r) : r.length ≤ s.length := by
  rw [eq_append_of_expectWord h, List.length_append]
  omega

/-- Skipping an atom skips something. -/
theorem length_lt_of_skipAtom (h : skipAtom s = .ok r) : r.length < s.length := by
  cases s with
  | nil => cases h
  | cons c s =>
    rw [skipAtom] at h
    split_ifs at h
    · exact Nat.lt_succ_of_le (length_le_of_expectWord h)
    · exact Nat.lt_succ_of_le (length_le_of_expectWord h)
    · exact Nat.lt_succ_of_le (length_le_of_expectWord h)
    · exact Nat.lt_succ_of_lt (Quoted.length_lt_of_skip h)
    · exact Numeral.length_lt_of_skip h

/-- No atom starts with a bracket or a brace. -/
theorem head_of_skipAtom (h : skipAtom (c :: s) = .ok r) : c ≠ '[' ∧ c ≠ '\x7b' := by
  constructor <;> rintro rfl <;> cases h

/-! ## Items -/

/-- A bracket ends the items, before the first of them as well as behind the last. -/
theorem nextItem_close (h : skipBlanks s = ']' :: r) :
    nextItem first s = .ok (false, ']' :: r) := by
  rw [nextItem, h]
  simp only [if_true]

/-- The first item is where the blanks end. -/
theorem nextItem_first (h : skipBlanks s = c :: t) (hc : c ≠ ']') :
    nextItem true s = .ok (true, c :: t) := by
  rw [nextItem, h]
  simp only [if_neg hc, if_true]

/-- A further item comes after a comma. -/
theorem nextItem_comma (hs : skipBlanks s = ',' :: u) (h : skipBlanks u = c :: t) (hc : c ≠ ']') :
    nextItem false s = .ok (true, c :: t) := by
  have hcomma : ',' ≠ ']' := by decide
  rw [nextItem, hs]
  simp only [if_neg hcomma, Bool.false_eq_true, if_false, if_true, h, if_neg hc]

/-- Items end at a bracket only. -/
theorem nextItem_false (h : nextItem first s = .ok (false, u)) :
    ∃ r, skipBlanks s = ']' :: r ∧ u = ']' :: r := by
  rw [nextItem] at h
  split at h
  · cases h
  · rename_i c t hs
    split_ifs at h with hc
    · subst hc
      cases h
      exact ⟨t, hs, rfl⟩
    · cases h
    · split at h
      · cases h
      · split_ifs at h
        cases h

/-- Where the next item starts: behind the comma, or where the blanks end if it is the first. -/
theorem nextItem_true (h : nextItem first s = .ok (true, t)) :
    ∃ c u, t = c :: u ∧ c ≠ ']' ∧
      (first = true ∧ skipBlanks s = c :: u ∨
        first = false ∧ ∃ rest, skipBlanks s = ',' :: rest ∧ skipBlanks rest = c :: u) := by
  rw [nextItem] at h
  split at h
  · cases h
  · rename_i c u hs
    split_ifs at h with hc hfirst hcomma
    · cases h
    · cases h
      exact ⟨c, u, rfl, hc, .inl ⟨hfirst, hs⟩⟩
    · subst hcomma
      split at h
      · cases h
      · rename_i d u' hd
        split_ifs at h with hclose
        cases h
        exact ⟨d, u', rfl, hclose, .inr ⟨by simpa using hfirst, u, hs, hd⟩⟩

theorem length_le_of_nextItem (h : nextItem first s = .ok (more, t)) : t.length ≤ s.length := by
  cases more with
  | false =>
    obtain ⟨r, hs, rfl⟩ := nextItem_false h
    exact hs ▸ length_skipBlanks_le s
  | true =>
    obtain ⟨c, u, rfl, -, ⟨-, hs⟩ | ⟨-, rest, hs, hrest⟩⟩ := nextItem_true h
    · exact hs ▸ length_skipBlanks_le s
    · have hcomma := length_lt_of_skipBlanks hs
      have hle := length_skipBlanks_le rest
      rw [hrest] at hle
      omega

theorem closeArray_bracket (r : List Char) : closeArray (']' :: r) = { rest := r } := by
  rw [closeArray, skipBlanks_cons (by decide)]
  simp only [if_true]

/-- An array that is closed has been read. -/
theorem inside_closeArray {α : Type} (a : α) (r : List Char) :
    inside closeArray (.ok (a, ']' :: r)) = .ok (a, r) := by
  rw [inside, closeArray_bracket]

/-- Closing succeeds at the bracket only. -/
theorem skipBlanks_of_closeArray (h : (closeArray s).failure = none) :
    skipBlanks s = ']' :: (closeArray s).rest := by
  rw [closeArray] at h ⊢
  cases hs : skipBlanks s with
  | nil => rw [hs] at h; cases h
  | cons c t =>
    rw [hs] at h
    simp only at h ⊢
    split_ifs at h ⊢ with hc hcomma
    · rw [hc]
    · split at h <;> cases h

/-! ## Entries -/

/-- A brace ends the entries, before the first of them as well as behind the last. -/
theorem nextKey_close (h : skipBlanks s = '\x7d' :: r) :
    nextKey first s = .ok (none, '\x7d' :: r) := by
  rw [nextKey, nextEntry, h]
  simp only [if_true]

/-- The first key is where the blanks end. -/
theorem nextKey_first (h : skipBlanks s = '"' :: t) (hkey : Quoted.read t = .ok (key, rest)) :
    nextKey true s = .ok (some key, rest) := by
  have hquote : '"' ≠ '\x7d' := by decide
  rw [nextKey, nextEntry, h]
  simp only [if_neg hquote, if_true, hkey]

/-- A further key comes after a comma. -/
theorem nextKey_comma (hs : skipBlanks s = ',' :: u) (h : skipBlanks u = '"' :: t)
    (hkey : Quoted.read t = .ok (key, rest)) : nextKey false s = .ok (some key, rest) := by
  have hcomma : ',' ≠ '\x7d' := by decide
  rw [nextKey, nextEntry, hs]
  simp only [if_neg hcomma, Bool.false_eq_true, if_false, if_true, h, hkey]

theorem nextEntry_false (h : nextEntry first s = .ok (false, u)) :
    ∃ r, skipBlanks s = '\x7d' :: r ∧ u = '\x7d' :: r := by
  rw [nextEntry] at h
  split at h
  · cases h
  · rename_i c t hs
    split_ifs at h with hc
    · subst hc
      cases h
      exact ⟨t, hs, rfl⟩
    · cases h
    · split at h
      · cases h
      · split_ifs at h
        cases h

/-- An entry goes on with a quoted key: at once if it is the first, else behind a comma. -/
theorem nextEntry_true (h : nextEntry first s = .ok (true, t)) :
    first = true ∧ skipBlanks s = '"' :: t ∨
      first = false ∧ ∃ rest, skipBlanks s = ',' :: rest ∧ skipBlanks rest = '"' :: t := by
  rw [nextEntry] at h
  split at h
  · cases h
  · rename_i c u hs
    split_ifs at h with hc hfirst hquote hcomma
    · cases h
    · subst hquote
      cases h
      exact .inl ⟨hfirst, hs⟩
    · subst hcomma
      split at h
      · cases h
      · rename_i d u' hd
        split_ifs at h with hquote
        subst hquote
        cases h
        exact .inr ⟨by simpa using hfirst, u, hs, hd⟩

/-- Entries end at a brace only. -/
theorem nextKey_none (h : nextKey first s = .ok (none, u)) :
    ∃ r, skipBlanks s = '\x7d' :: r ∧ u = '\x7d' :: r := by
  rw [nextKey] at h
  split at h
  · cases h
  · rename_i hentry
    cases h
    exact nextEntry_false hentry
  · split at h <;> cases h

/-- Where the next key stands: behind the comma, or where the blanks end if it is the first. -/
theorem nextKey_some (h : nextKey first s = .ok (some key, t)) :
    ∃ u, Quoted.read u = .ok (key, t) ∧
      (first = true ∧ skipBlanks s = '"' :: u ∨
        first = false ∧ ∃ rest, skipBlanks s = ',' :: rest ∧ skipBlanks rest = '"' :: u) := by
  rw [nextKey] at h
  split at h
  · cases h
  · cases h
  · rename_i u hentry
    cases hread : Quoted.read u with
    | error f => rw [hread] at h; cases h
    | ok result =>
      rw [hread] at h
      cases h
      exact ⟨u, hread, nextEntry_true hentry⟩

/-- Reading a key leaves less to read. -/
theorem length_lt_of_nextKey (h : nextKey first s = .ok (some key, t)) : t.length < s.length := by
  obtain ⟨u, hread, ⟨-, hs⟩ | ⟨-, rest, hs, hrest⟩⟩ := nextKey_some h
  · have hkey := Quoted.length_lt_of_read hread
    have hquote := length_lt_of_skipBlanks hs
    omega
  · have hkey := Quoted.length_lt_of_read hread
    have hquote := length_lt_of_skipBlanks hrest
    have hcomma := length_lt_of_skipBlanks hs
    omega

/-- Between key and value there is one colon. -/
theorem skipBlanks_of_readColon (h : readColon s = .ok t) : skipBlanks s = ':' :: t := by
  rw [readColon] at h
  split at h
  · cases h
  · rename_i c u hs
    split_ifs at h with hc
    subst hc
    cases h
    exact hs

theorem length_lt_of_readColon (h : readColon s = .ok t) : t.length < s.length :=
  length_lt_of_skipBlanks (skipBlanks_of_readColon h)

theorem readColon_colon (t : List Char) : readColon (':' :: t) = .ok t := by
  rw [readColon, skipBlanks_cons (by decide)]
  simp only [if_true]

theorem closeObject_brace (r : List Char) : closeObject ('\x7d' :: r) = { rest := r } := by
  rw [closeObject, skipBlanks_cons (by decide)]
  simp only [if_true]

/-- An object that is closed has been read. -/
theorem inside_closeObject {α : Type} (a : α) (r : List Char) :
    inside closeObject (.ok (a, '\x7d' :: r)) = .ok (a, r) := by
  rw [inside, closeObject_brace]

/-- A container that was read had its content read, and its end after that. -/
theorem inside_eq_ok {α : Type} {close : List Char → Closing} {reading : Reading α} {a : α}
    (h : inside close reading = .ok (a, r)) :
    ∃ s, reading = .ok (a, s) ∧ (close s).failure = none ∧ (close s).rest = r := by
  rw [inside.eq_def] at h
  split at h
  · rename_i b s
    split at h
    · rename_i hclose
      cases h
      exact ⟨s, rfl, hclose, rfl⟩
    · cases h
  · split at h <;> cases h

/-- The value of an entry is read behind the colon. -/
theorem readEntryValue_eq_ok {α : Type} {value : List Char → Reading α} {a : α}
    (h : readEntryValue value key s = .ok (a, r)) :
    ∃ t, readColon s = .ok t ∧ value t = .ok (a, r) := by
  rw [readEntryValue] at h
  split at h
  · cases h
  · rename_i t hcolon
    cases hvalue : value t with
    | error f => rw [hvalue] at h; cases h
    | ok result =>
      rw [hvalue] at h
      cases h
      exact ⟨t, hcolon, hvalue⟩

theorem readEntryValue_of_readColon {α : Type} {value : List Char → Reading α} {a : α}
    (hcolon : readColon s = .ok t) (hvalue : value t = .ok (a, r)) :
    readEntryValue value key s = .ok (a, r) := by
  rw [readEntryValue, hcolon]
  simp only [hvalue]

end Exemplar.Json
