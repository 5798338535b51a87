import Exemplar.Json.Quoted
import Mathlib.Data.List.Basic
import Mathlib.Tactic.SplitIfs

/-!
# Proofs/Json/Quoted — strings of a document are read back, and skipped alike

    "say \"hi\"", …   ──▸   say "hi"   and   , …

A written string is read back, whatever follows it (`read_encode`).  Skipping a string looks at less
than reading it, so where a string can be read, skipping ends at the same place
(`skip_of_read`).
-/

namespace Exemplar.Json.Quoted

variable {c : Char} {s t r rest : List Char} {fuel : ℕ} {text : String}

/-! ## Reading what was written -/

theorem hexValue?_digitChar : ∀ n < 16, hexValue? (Nat.digitChar n) = some n := by decide

/-- The escape of a control character is read as that character. -/
theorem readEscape_control (hc : c.toNat < 0x20) :
    readEscape ('u' :: '0' :: '0' :: Nat.digitChar (c.toNat / 16) :: Nat.digitChar (c.toNat % 16)
      :: rest) = .ok (c, rest) := by
  have hhigh := hexValue?_digitChar (c.toNat / 16) (by omega)
  have hlow := hexValue?_digitChar (c.toNat % 16) (by omega)
  have hzero : hexValue? '0' = some 0 := by decide
  have hvalue : ((0 * 16 + 0) * 16 + c.toNat / 16) * 16 + c.toNat % 16 = c.toNat := by omega
  have htrailing : isTrailingUnit c.toNat = false := decide_eq_false (by omega)
  have hleading : isLeadingUnit c.toNat = false := decide_eq_false (by omega)
  rw [readEscape, if_pos rfl, readUnits, readUnit]
  simp only [hzero, hhigh, hlow, hvalue, htrailing, hleading, Bool.false_eq_true, if_false,
    Char.ofNat_toNat]

/-- A letter that escapes a character is read back as the character, and it is not the one for
hexadecimal digits. -/
theorem unescape?_escapeLetter? {letter : Char} (h : escapeLetter? c = some letter) :
    unescape? letter = some c ∧ letter ≠ 'u' := by
  simp only [escapeLetter?] at h
  split_ifs at h <;> cases h <;> subst_vars <;> decide

/-- Quotes and backslashes are always escaped. -/
theorem ne_of_escapeLetter?_eq_none (h : escapeLetter? c = none) : c ≠ '"' ∧ c ≠ '\\' := by
  simp only [escapeLetter?] at h
  split_ifs at h with hquote hslash
  exact ⟨hquote, hslash⟩

theorem readFrom_quote : readFrom (fuel + 1) ('"' :: s) = .ok ([], s) := by
  rw [readFrom, if_pos rfl]

theorem readFrom_escape (h : readEscape s = .ok (c, rest)) :
    readFrom (fuel + 1) ('\\' :: s) = consChar c (readFrom fuel rest) := by
  rw [readFrom, if_neg (by decide), if_pos rfl, h]

theorem readFrom_plain (hquote : c ≠ '"') (hslash : c ≠ '\\') (hc : isControl c = false) :
    readFrom (fuel + 1) (c :: s) = consChar c (readFrom fuel s) := by
  rw [readFrom, if_neg hquote, if_neg hslash, hc]
  rfl

/-- **A character is read back from what is written for it**, in one step. -/
theorem readFrom_encodeChar (c : Char) (s : List Char) :
    readFrom (fuel + 1) (encodeChar c ++ s) = consChar c (readFrom fuel s) := by
  cases h : escapeLetter? c with
  | some letter =>
    obtain ⟨hletter, hu⟩ := unescape?_escapeLetter? h
    have hread : readEscape (letter :: s) = .ok (c, s) := by
      rw [readEscape, if_neg hu, hletter]
    rw [encodeChar, h]
    exact readFrom_escape hread
  | none =>
    obtain ⟨hquote, hslash⟩ := ne_of_escapeLetter?_eq_none h
    cases hc : isControl c with
    | true =>
      simp only [encodeChar, h, hc, if_true]
      exact readFrom_escape (readEscape_control (of_decide_eq_true hc))
    | false =>
      simp only [encodeChar, h, hc]
      exact readFrom_plain hquote hslash hc

/-- A text is read back, given a step for each character and one for the quote. -/
theorem readFrom_encode (hfuel : s.length < fuel) :
    readFrom fuel (s.flatMap encodeChar ++ '"' :: rest) = .ok (s, rest) := by
  induction s generalizing fuel with
  | nil =>
    obtain ⟨fuel, rfl⟩ := Nat.exists_eq_add_one.2 (Nat.zero_lt_of_lt hfuel)
    exact readFrom_quote
  | cons c s ih =>
    obtain ⟨fuel, rfl⟩ := Nat.exists_eq_add_one.2 (Nat.zero_lt_of_lt hfuel)
    have hs : s.length < fuel := by simpa using hfuel
    rw [List.flatMap_cons, List.append_assoc, readFrom_encodeChar, ih hs]
    rfl

theorem encodeChar_ne_nil (c : Char) : encodeChar c ≠ [] := by
  rw [encodeChar]
  cases escapeLetter? c with
  | some letter => simp
  | none => cases h : isControl c <;> simp

/-- What is written for a text is no shorter, so its length is fuel enough. -/
theorem length_le_length_flatMap (s : List Char) : s.length ≤ (s.flatMap encodeChar).length := by
  induction s with
  | nil => exact Nat.le_refl 0
  | cons c s ih =>
    have hc : 0 < (encodeChar c).length := List.length_pos_iff.2 (encodeChar_ne_nil c)
    rw [List.flatMap_cons, List.length_append, List.length_cons]
    omega

/-- **A written string is read back, whatever follows.** -/
theorem read_encode (text : String) (rest : List Char) :
    read (text.toList.flatMap encodeChar ++ '"' :: rest) = .ok (text, rest) := by
  have hfuel : text.toList.length < (text.toList.flatMap encodeChar ++ '"' :: rest).length + 1 := by
    have := length_le_length_flatMap text.toList
    rw [List.length_append]
    omega
  rw [read, readFrom_encode hfuel]
  simp only [String.ofList_toList]

/-! ## Skipping is reading with less to look at -/

theorem skipFrom_quote : skipFrom (fuel + 1) ('"' :: s) = .ok s := by
  rw [skipFrom, if_pos rfl]

theorem skipFrom_escape (h : skipEscape s = .ok rest) :
    skipFrom (fuel + 1) ('\\' :: s) = skipFrom fuel rest := by
  rw [skipFrom, if_neg (by decide), if_pos rfl, h]

theorem length_lt_of_readUnit {n : ℕ} (h : readUnit s = .ok (n, r)) : r.length < s.length := by
  rw [readUnit.eq_def] at h
  split at h
  · split at h
    · cases h
      simp only [List.length_cons]
      omega
    · cases h
  · split_ifs at h

theorem length_lt_of_skipEscape (h : skipEscape s = .ok r) : r.length < s.length := by
  cases s with
  | nil => cases h
  | cons letter s =>
    rw [skipEscape] at h
    split_ifs at h
    · split at h
      · cases h
      · rename_i hunit
        cases h
        exact Nat.lt_succ_of_lt (length_lt_of_readUnit hunit)
    · cases h
      exact Nat.lt_succ_self _

/-- A text that is skipped has its quote at least. -/
theorem length_lt_of_skipFrom (h : skipFrom fuel s = .ok r) : r.length < s.length := by
  induction fuel generalizing s with
  | zero => cases h
  | succ fuel ih =>
    cases s with
    | nil => cases h
    | cons c s =>
      rw [skipFrom] at h
      split_ifs at h
      · cases h
        exact Nat.lt_succ_self _
      · split at h
        · cases h
        · rename_i rest hescape
          have hrest := length_lt_of_skipEscape hescape
          have hr := ih h
          exact Nat.lt_succ_of_lt (Nat.lt_trans hr hrest)
      · exact Nat.lt_succ_of_lt (ih h)

theorem length_lt_of_skip (h : skip s = .ok r) : r.length < s.length := length_lt_of_skipFrom h

/-- The second half of a pair is announced by an escape of its own. -/
theorem eq_of_readPairMark (h : readPairMark s = .ok r) : s = '\\' :: 'u' :: r := by
  rw [readPairMark.eq_def] at h
  split at h <;> cases h
  rfl

/-- The second unit of a pair is an escape of its own. -/
theorem skipFrom_of_readTrailing (fuel : ℕ) {unit : ℕ} (h : readTrailing unit s = .ok (c, r)) :
    r.length < s.length ∧ skipFrom (fuel + 1) s = skipFrom fuel r := by
  rw [readTrailing] at h
  cases hmark : readPairMark s with
  | error f => rw [hmark] at h; cases h
  | ok t =>
    obtain rfl := eq_of_readPairMark hmark
    rw [hmark] at h
    cases hunit : readUnit t with
    | error f => simp only [hunit] at h; cases h
    | ok result =>
      obtain ⟨trailing, u⟩ := result
      simp only [hunit] at h
      split at h
      · obtain ⟨-, rfl⟩ := Prod.mk.inj (Except.ok.inj h)
        have hr := length_lt_of_readUnit hunit
        refine ⟨by simp only [List.length_cons]; omega, skipFrom_escape ?_⟩
        rw [skipEscape, if_pos rfl, hunit]
      · cases h

/-- An escape that can be read can be skipped, a pair of units in two steps. -/
theorem skipFrom_of_readEscape (fuel : ℕ) (h : readEscape s = .ok (c, r))
    (hfuel : s.length < fuel) :
    ∃ n, r.length < n ∧ skipFrom (fuel + 1) ('\\' :: s) = skipFrom n r := by
  cases s with
  | nil => cases h
  | cons letter s =>
    rw [List.length_cons] at hfuel
    rw [readEscape] at h
    split_ifs at h with hu
    · subst hu
      rw [readUnits] at h
      cases hunit : readUnit s with
      | error f => rw [hunit] at h; cases h
      | ok result =>
        obtain ⟨unit, t⟩ := result
        have ht := length_lt_of_readUnit hunit
        have hfirst : skipFrom (fuel + 1) ('\\' :: 'u' :: s) = skipFrom fuel t := by
          refine skipFrom_escape ?_
          rw [skipEscape, if_pos rfl, hunit]
        simp only [hunit] at h
        split_ifs at h
        -- the first half of a pair is read with the second, which skipping takes as one more escape
        · obtain ⟨n, rfl⟩ : ∃ n, fuel = n + 1 := ⟨fuel - 1, by omega⟩
          obtain ⟨hr, hsecond⟩ := skipFrom_of_readTrailing n h
          exact ⟨n, by omega, hfirst.trans hsecond⟩
        · cases h
          exact ⟨fuel, by omega, hfirst⟩
    · cases hletter : unescape? letter with
      | none => rw [hletter] at h; cases h
      | some d =>
        rw [hletter] at h
        cases h
        refine ⟨fuel, by omega, skipFrom_escape ?_⟩
        rw [skipEscape, if_neg hu, hletter]
        rfl

/-- A text that starts with a character is that character and a text. -/
theorem consChar_eq_ok {read : Reading (List Char)} (h : consChar c read = .ok (s, r)) :
    ∃ t, s = c :: t ∧ read = .ok (t, r) := by
  cases read with
  | error f => cases h
  | ok result =>
    cases h
    exact ⟨_, rfl, rfl⟩

/-- **A text that is read is skipped to where reading it ends.** -/
theorem skipFrom_of_readFrom {n : ℕ} (h : readFrom n s = .ok (t, r)) (hfuel : s.length < fuel) :
    skipFrom fuel s = .ok r := by
  induction n generalizing s t fuel with
  | zero => cases h
  | succ n ih =>
    obtain ⟨fuel, rfl⟩ := Nat.exists_eq_add_one.2 (Nat.zero_lt_of_lt hfuel)
    cases s with
    | nil => cases h
    | cons c s =>
      rw [List.length_cons] at hfuel
      rw [readFrom] at h
      split_ifs at h with hquote hslash hcontrol
      · cases h
        rw [hquote, skipFrom_quote]
      · subst hslash
        cases hescape : readEscape s with
        | error f => rw [hescape] at h; cases h
        | ok result =>
          rw [hescape] at h
          obtain ⟨t, rfl, ht⟩ := consChar_eq_ok h
          obtain ⟨m, hm, hskip⟩ := skipFrom_of_readEscape fuel hescape (by omega)
          rw [hskip, ih ht hm]
      · obtain ⟨t, rfl, ht⟩ := consChar_eq_ok h
        rw [skipFrom, if_neg hquote, if_neg hslash, if_neg hcontrol, ih ht (by omega)]

/-- **Where a string can be read, skipping ends at the same place.** -/
theorem skip_of_read (h : read s = .ok (text, r)) : skip s = .ok r := by
  rw [read] at h
  cases hread : readFrom (s.length + 1) s with
  | error f => rw [hread] at h; cases h
  | ok result =>
    rw [hread] at h
    cases h
    exact skipFrom_of_readFrom hread (Nat.lt_succ_self _)

/-- Reading a text leaves less to read. -/
theorem length_lt_of_read (h : read s = .ok (text, r)) : r.length < s.length :=
  length_lt_of_skip (skip_of_read h)

end Exemplar.Json.Quoted
