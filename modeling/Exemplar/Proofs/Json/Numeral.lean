import Exemplar.Json.Numeral
import Exemplar.Proofs.Decimal.Shortest
import Mathlib.Data.List.Basic
import Mathlib.Tactic.SplitIfs

/-!
# Proofs/Json/Numeral — whole numbers are read back, and numbers are skipped as they are read

    -120, …   ──▸   -120   and   , …

A whole number that fits 64 bits is read back from its digits, as long as nothing follows that
would go on with a number (`read_intChars`).  Skipping looks at the shape of a number only, so where
one can be read, skipping ends at the same place (`skip_of_read`); it also ends behind the text of
every finite double, whatever that would be read as (`skipUnsigned_finiteChars`).
-/

namespace Exemplar.Json.Numeral

variable {c : Char} {s t r rest ds : List Char} {n e : ℕ} {negative minus : Bool} {m : Number}

/-- What follows a number does not go on with it. -/
def Ends (rest : List Char) : Prop :=
  ∀ c, rest.head? = some c → c.isDigit = false ∧ c ≠ '.' ∧ isExponentMark c = false

theorem ends_nil : Ends [] := nofun

theorem ends_cons (hdigit : c.isDigit = false) (hpoint : c ≠ '.')
    (hmark : isExponentMark c = false) : Ends (c :: rest) := by
  rintro d ⟨rfl⟩
  exact ⟨hdigit, hpoint, hmark⟩

/-- What follows a run of digits does not start with one. -/
def EndsDigits (rest : List Char) : Prop := ∀ c, rest.head? = some c → c.isDigit = false

/-- What does not go on with a number does not go on with digits. -/
theorem Ends.digits (h : Ends rest) : EndsDigits rest := fun c hc => (h c hc).1

/-- Digits are taken up to what ends them. -/
theorem takeWhile_digits (hds : ∀ c ∈ ds, c.isDigit = true) (h : EndsDigits rest) :
    (ds ++ rest).takeWhile Char.isDigit = ds := by
  rw [List.takeWhile_append_of_pos hds]
  cases rest with
  | nil => rw [List.takeWhile_nil, List.append_nil]
  | cons c rest =>
    rw [List.takeWhile_cons_of_neg (by simp [h c rfl]), List.append_nil]

/-- What ends digits is left over by them. -/
theorem dropWhile_digits (hds : ∀ c ∈ ds, c.isDigit = true) (h : EndsDigits rest) :
    (ds ++ rest).dropWhile Char.isDigit = rest := by
  rw [List.dropWhile_append_of_pos hds]
  cases rest with
  | nil => rfl
  | cons c rest => rw [List.dropWhile_cons_of_neg (by simp [h c rfl])]

/-! ## Reading back whole numbers -/

/-- Further digits only make a number larger. -/
theorem le_foldl_digits (ds : List Char) (n : ℕ) :
    n ≤ ds.foldl (fun n d => 10 * n + Decimal.digitValue d) n := by
  induction ds generalizing n with
  | nil => exact Nat.le_refl n
  | cons d ds ih =>
    have hrest := ih (10 * n + Decimal.digitValue d)
    rw [List.foldl_cons]
    omega

/-- Digits whose number fits are all collected. -/
theorem collect_eq (h : ds.foldl (fun n d => 10 * n + Decimal.digitValue d) n ≤ maxWord) :
    collect n ds = (ds.foldl (fun n d => 10 * n + Decimal.digitValue d) n, []) := by
  induction ds generalizing n with
  | nil => rfl
  | cons d ds ih =>
    have hle := le_foldl_digits ds (10 * n + Decimal.digitValue d)
    rw [List.foldl_cons] at h ⊢
    rw [collect, if_neg (by omega), ih h]

/-- The digits of a number that fits a word are all collected. -/
theorem collect_toDigits (h : n ≤ maxWord) : collect 0 (Nat.toDigits 10 n) = (n, []) := by
  have hn : (Nat.toDigits 10 n).foldl (fun n d => 10 * n + Decimal.digitValue d) 0 = n :=
    Decimal.ofDigits_toDigits n
  rw [collect_eq (by rw [hn]; exact h), hn]

theorem readTail_cons {dropped : ℕ} (h : c ≠ '.') :
    readTail negative n dropped (c :: s)
      = if isExponentMark c || dropped != 0 then readScale negative n dropped (c :: s)
        else .ok (ofWhole negative n, c :: s) := by
  rw [readTail]
  rintro t ⟨rfl⟩
  exact h rfl

/-- A number that ends has nothing behind it that counts. -/
theorem readTail_of_ends (h : Ends rest) :
    readTail negative n 0 rest = .ok (ofWhole negative n, rest) := by
  cases rest with
  | nil => rfl
  | cons c rest =>
    obtain ⟨-, hpoint, hmark⟩ := h c rfl
    rw [readTail_cons hpoint, hmark]
    rfl

/-- A whole number that fits a word is read back from its digits. -/
theorem readUnsigned_toDigits (hn : n ≤ maxWord) (hr : Ends rest) :
    readUnsigned negative (Nat.toDigits 10 n ++ rest) = .ok (ofWhole negative n, rest) := by
  have hl := Decimal.leading_toDigits n
  rw [readUnsigned]
  simp only [takeWhile_digits hl.digit hr.digits, dropWhile_digits hl.digit hr.digits]
  split
  · rename_i hnil
    exact absurd hnil hl.ne_nil
  · rename_i hzero
    have hds := hl.zero (by rw [hzero]; rfl)
    rw [hzero] at hds
    cases hds
  · rw [collect_toDigits hn]
    exact readTail_of_ends hr

/-- The whole numbers of 64 bits, with sign or without. -/
def IsWord (n : ℤ) : Prop := -0x8000000000000000 ≤ n ∧ n ≤ 0xFFFFFFFFFFFFFFFF

/-- **A whole number is read back from its digits.** -/
theorem read_intChars {n : ℤ} (hn : IsWord n) (hr : Ends rest) :
    read (Decimal.intChars n ++ rest) = .ok (.integer n, rest) := by
  obtain ⟨hlow, hhigh⟩ := hn
  cases n with
  | ofNat n =>
    have hword : n ≤ maxWord := by simp only [maxWord, Int.ofNat_eq_natCast] at *; omega
    obtain ⟨d, ds, hd, hdigit, -⟩ := Decimal.exists_toDigits_eq_cons n
    have hsign : d ≠ '-' := by rintro rfl; exact absurd hdigit (by decide)
    have hread : readUnsigned false (Nat.toDigits 10 n ++ rest) = .ok (ofWhole false n, rest) :=
      readUnsigned_toDigits hword hr
    rw [Decimal.intChars, read.eq_def]
    split
    · rename_i h
      rw [hd] at h
      exact absurd (List.cons.inj h).1 hsign
    · exact hread
  | negSucc n =>
    have hword : n + 1 ≤ maxWord := by simp only [maxWord]; omega
    have hfits : ¬ (n + 1 = 0 ∨ 0x8000000000000000 < n + 1) := by omega
    rw [Decimal.intChars, List.cons_append, read, readUnsigned_toDigits hword hr, ofWhole,
      if_pos rfl, if_neg hfits]
    rfl

/-! ## Skipping is reading with less to look at -/

/-- Making a real number takes no more characters. -/
theorem eq_of_toReal {exponent : ℤ} (h : toReal negative n exponent rest = .ok (m, r)) :
    r = rest := by
  rw [toReal] at h
  split at h <;> cases h
  rfl

/-- The digits of an exponent are read to their end. -/
theorem eq_of_readExponentDigits {exponent : ℤ}
    (h : readExponentDigits negative n exponent minus e s = .ok (m, r)) :
    r = s.dropWhile Char.isDigit := by
  induction s generalizing e with
  | nil =>
    rw [readExponentDigits] at h
    exact eq_of_toReal h
  | cons d s ih =>
    rw [readExponentDigits] at h
    cases hd : d.isDigit with
    | false =>
      rw [hd] at h
      rw [List.dropWhile_cons_of_neg (by simp [hd])]
      exact eq_of_toReal h
    | true =>
      rw [hd] at h
      simp only [if_true] at h
      rw [List.dropWhile_cons_of_pos hd]
      split at h
      · split at h <;> cases h
        rfl
      · exact ih h

/-- An exponent that is read is skipped to where reading it ends. -/
theorem skipExponent_of_readExponent {exponent : ℤ}
    (h : readExponent negative n exponent s = .ok (m, r)) : skipExponent s = .ok r := by
  rw [readExponent] at h
  rw [skipExponent]
  split at h
  · cases h
  · rename_i d rest hsign
    rw [hsign]
    cases hd : d.isDigit with
    | false => rw [hd] at h; cases h
    | true =>
      rw [hd] at h
      simp only [hd, if_true, eq_of_readExponentDigits h]

/-- An exponent that may be missing is skipped to where reading it ends. -/
theorem skipScale_of_readScale {exponent : ℤ}
    (h : readScale negative n exponent s = .ok (m, r)) : skipScale s = .ok r := by
  cases s with
  | nil =>
    obtain rfl := eq_of_toReal h
    rfl
  | cons c s =>
    rw [readScale] at h
    rw [skipScale]
    cases hmark : isExponentMark c with
    | true =>
      rw [hmark] at h
      exact skipExponent_of_readExponent h
    | false =>
      rw [hmark] at h
      obtain rfl := eq_of_toReal h
      rfl

/-- What does not start with a point is an exponent at most. -/
theorem skipTail_cons (h : c ≠ '.') : skipTail (c :: s) = skipScale (c :: s) := by
  rw [skipTail]
  rintro t ⟨rfl⟩
  exact h rfl

/-- A fraction is skipped to where reading it ends. -/
theorem skipTail_of_readFraction {exponent : ℤ}
    (h : readFraction negative n exponent s = .ok (m, r)) : skipTail ('.' :: s) = .ok r := by
  rw [readFraction] at h
  rw [skipTail]
  cases hds : (s.takeWhile Char.isDigit).isEmpty with
  | true => simp only [hds] at h; cases h
  | false =>
    simp only [hds] at h
    exact skipScale_of_readScale h

/-- What follows the whole part is skipped to where reading it ends. -/
theorem skipTail_of_readTail {dropped : ℕ} (h : readTail negative n dropped s = .ok (m, r)) :
    skipTail s = .ok r := by
  cases s with
  | nil =>
    have hr : r = [] := by
      rw [readTail] at h
      · split_ifs at h
        · cases h
          rfl
        · exact eq_of_toReal h
    rw [hr]
    rfl
  | cons c s =>
    by_cases hpoint : c = '.'
    · subst hpoint
      exact skipTail_of_readFraction h
    · rw [readTail_cons hpoint] at h
      rw [skipTail_cons hpoint]
      split_ifs at h with hscale
      · exact skipScale_of_readScale h
      · simp only [Bool.or_eq_true, not_or] at hscale
        cases h
        rw [skipScale, if_neg hscale.1]

/-- A number without its sign is skipped to where reading it ends. -/
theorem skipUnsigned_of_readUnsigned (h : readUnsigned negative s = .ok (m, r)) :
    skipUnsigned s = .ok r := by
  rw [readUnsigned] at h
  rw [skipUnsigned]
  simp only at h
  split at h
  · cases h
  · cases h
  · exact skipTail_of_readTail h

/-- **Where a number can be read, skipping ends at the same place.** -/
theorem skip_of_read (h : read s = .ok (m, r)) : skip s = .ok r := by
  rw [read.eq_def] at h
  rw [skip.eq_def]
  split at h <;> exact skipUnsigned_of_readUnsigned h

/-! ## Skipping ends further on -/

theorem length_dropWhile_le (s : List Char) (p : Char → Bool) : (s.dropWhile p).length ≤ s.length :=
  (List.dropWhile_sublist p).length_le

theorem length_le_of_skipExponent (h : skipExponent s = .ok r) : r.length ≤ s.length := by
  have hsign : (readSign s).2.length ≤ s.length := by
    rw [readSign.eq_def]
    split <;> simp
  rw [skipExponent] at h
  split at h
  · rename_i d rest hd
    split_ifs at h
    cases h
    have hle := length_dropWhile_le rest Char.isDigit
    rw [hd, List.length_cons] at hsign
    omega
  · cases h

theorem length_le_of_skipScale (h : skipScale s = .ok r) : r.length ≤ s.length := by
  cases s with
  | nil => cases h; exact Nat.le_refl _
  | cons c s =>
    rw [skipScale] at h
    split_ifs at h
    · exact Nat.le_succ_of_le (length_le_of_skipExponent h)
    · cases h; exact Nat.le_refl _

/-- What follows the whole part may be nothing. -/
theorem length_le_of_skipTail (h : skipTail s = .ok r) : r.length ≤ s.length := by
  cases s with
  | nil => cases h; exact Nat.le_refl _
  | cons c s =>
    by_cases hpoint : c = '.'
    · subst hpoint
      rw [skipTail] at h
      split_ifs at h
      have hr := length_le_of_skipScale h
      have hle := length_dropWhile_le s Char.isDigit
      rw [List.length_cons]
      omega
    · rw [skipTail_cons hpoint] at h
      exact length_le_of_skipScale h

/-- Skipping a number skips a digit at least. -/
theorem length_lt_of_skipUnsigned (h : skipUnsigned s = .ok r) : r.length < s.length := by
  rw [skipUnsigned] at h
  split at h
  · cases h
  · cases h
  · rename_i hnil _
    have hdigits : 0 < (s.takeWhile Char.isDigit).length := List.length_pos_iff.2 hnil
    have hsum := congrArg List.length (List.takeWhile_append_dropWhile (p := Char.isDigit) (l := s))
    have hr := length_le_of_skipTail h
    rw [List.length_append] at hsum
    omega

theorem length_lt_of_skip (h : skip s = .ok r) : r.length < s.length := by
  rw [skip.eq_def] at h
  split at h
  · exact Nat.lt_succ_of_lt (length_lt_of_skipUnsigned h)
  · exact length_lt_of_skipUnsigned h

/-! ## Skipping what was written -/

/-- Where a number ends there is no exponent to skip. -/
theorem skipScale_of_ends (h : Ends rest) : skipScale rest = .ok rest := by
  cases rest with
  | nil => rfl
  | cons c rest => rw [skipScale, (h c rfl).2.2]; rfl

/-- Where a number ends there is neither fraction nor exponent to skip. -/
theorem skipTail_of_ends (h : Ends rest) : skipTail rest = .ok rest := by
  cases rest with
  | nil => rfl
  | cons c t => rw [skipTail_cons (h c rfl).2.1, skipScale_of_ends h]

theorem endsDigits_cons (h : c.isDigit = false) : EndsDigits (c :: rest) := by
  rintro d ⟨rfl⟩
  exact h

/-- An exponent with its sign is skipped. -/
theorem skipScale_exponent {sign : Char} (hsign : sign = '+' ∨ sign = '-')
    (hds : ∀ c ∈ ds, c.isDigit = true) (hne : ds ≠ []) (hr : EndsDigits rest) :
    skipScale ('e' :: sign :: (ds ++ rest)) = .ok rest := by
  obtain ⟨d, ds, rfl⟩ := List.exists_cons_of_ne_nil hne
  obtain ⟨hd, hds⟩ := List.forall_mem_cons.1 hds
  have hread : (readSign (sign :: (d :: ds ++ rest))).2 = d :: (ds ++ rest) := by
    rcases hsign with rfl | rfl <;> rfl
  rw [skipScale, if_pos (by decide), skipExponent, hread]
  simp only [hd, if_true, dropWhile_digits hds hr]

/-- A fraction is skipped. -/
theorem skipTail_fraction (hds : ∀ c ∈ ds, c.isDigit = true) (hne : ds ≠ [])
    (hr : EndsDigits rest) : skipTail ('.' :: (ds ++ rest)) = skipScale rest := by
  rw [skipTail, takeWhile_digits hds hr, dropWhile_digits hds hr,
    List.isEmpty_eq_false_iff.2 hne]
  rfl

/-- Digits without leading zeros are skipped as the whole part. -/
theorem skipUnsigned_leading (hds : Decimal.Leading ds) (hr : EndsDigits rest) :
    skipUnsigned (ds ++ rest) = skipTail rest := by
  rw [skipUnsigned, takeWhile_digits hds.digit hr, dropWhile_digits hds.digit hr]
  split
  · exact absurd rfl hds.ne_nil
  · have hzero := hds.zero rfl
    cases hzero
  · rfl

/-- Digits, a point and digits are skipped. -/
theorem skipUnsigned_point {whole fraction : List Char} (hwhole : Decimal.Leading whole)
    (hne : fraction ≠ []) (hfraction : ∀ c ∈ fraction, c.isDigit = true) (hr : Ends rest) :
    skipUnsigned (whole ++ '.' :: fraction ++ rest) = .ok rest := by
  rw [List.append_assoc, List.cons_append,
    skipUnsigned_leading hwhole (endsDigits_cons (by decide)),
    skipTail_fraction hfraction hne hr.digits, skipScale_of_ends hr]

/-- The digits of a positive number, with zeros after them. -/
theorem leading_zeros (hn : n ≠ 0) (k : ℕ) :
    Decimal.Leading (Nat.toDigits 10 n ++ List.replicate k '0') where
  digit c hc := by
    rcases List.mem_append.1 hc with hc | hc
    · exact Decimal.isDigit_of_mem_toDigits hc
    · rw [List.eq_of_mem_replicate hc]
      decide
  ne_nil h := Nat.toDigits_ne_nil (List.append_eq_nil_iff.1 h).1
  zero h := by
    rw [List.head?_append_of_ne_nil _ Nat.toDigits_ne_nil] at h
    exact absurd h (Decimal.head_toDigits_ne_zero hn)

/-- The digits of a positive number with a point after the first, an exponent behind them. -/
theorem skipUnsigned_scientific {sign : Char} (hn : n ≠ 0) (hsign : sign = '+' ∨ sign = '-')
    (hr : Ends rest) :
    skipUnsigned ((Nat.toDigits 10 n).take 1
      ++ (if (Nat.toDigits 10 n).length = 1 then [] else '.' :: (Nat.toDigits 10 n).drop 1)
      ++ 'e' :: sign :: Nat.toDigits 10 e ++ rest) = .ok rest := by
  obtain ⟨d, ds, hd, hdigit, hdigits⟩ := Decimal.exists_toDigits_eq_cons n
  have hfirst : Decimal.Leading [d] := by
    refine ⟨List.forall_mem_singleton.2 hdigit, List.cons_ne_nil d [], fun h => ?_⟩
    rw [List.head?_cons] at h
    exact absurd (by rw [hd, List.head?_cons, h]) (Decimal.head_toDigits_ne_zero hn)
  have hexponent : skipScale ('e' :: sign :: (Nat.toDigits 10 e ++ rest)) = .ok rest :=
    skipScale_exponent hsign (fun c hc => Decimal.isDigit_of_mem_toDigits hc)
      Nat.toDigits_ne_nil hr.digits
  rw [hd]
  cases ds with
  | nil =>
    have htext : skipUnsigned ([d] ++ ('e' :: sign :: (Nat.toDigits 10 e ++ rest))) = .ok rest := by
      rw [skipUnsigned_leading hfirst (endsDigits_cons (by decide)), skipTail_cons (by decide),
        hexponent]
    simpa using htext
  | cons b bs =>
    have htext : skipUnsigned ([d] ++ '.' :: (b :: bs ++ 'e' :: sign
        :: (Nat.toDigits 10 e ++ rest))) = .ok rest := by
      rw [skipUnsigned_leading hfirst (endsDigits_cons (by decide)),
        skipTail_fraction hdigits (List.cons_ne_nil b bs) (endsDigits_cons (by decide)), hexponent]
    simpa using htext

/-- The text of a finite double without its sign is skipped. -/
theorem skipUnsigned_finiteChars (x : Binary64) (hr : Ends rest) :
    skipUnsigned (Number.finiteChars x ++ rest) = .ok rest := by
  rw [Number.finiteChars]
  split
  · have hzero : Decimal.Leading ['0'] := Decimal.leading_toDigits 0
    have hdigit : ∀ c ∈ ['0'], c.isDigit = true := List.forall_mem_singleton.2 rfl
    exact skipUnsigned_point hzero (List.cons_ne_nil '0' []) hdigit hr
  · rename_i hm
    have hn := Decimal.digits_shortest_ne_zero .toEven hm
    generalize Decimal.shortest .toEven x.magnitude = d at hn
    have hhead := Decimal.head_toDigits_ne_zero hn
    simp only
    split
    · split
      · rename_i hexponent
        rw [Decimal.positional, if_pos hexponent]
        exact skipUnsigned_point (leading_zeros hn _) (List.cons_ne_nil '0' [])
          (List.forall_mem_singleton.2 rfl) hr
      · rename_i hexponent
        have hplaces : 0 < (-d.exponent).toNat := by omega
        obtain ⟨whole, fraction, htext, hwhole, hne, hfraction⟩ :=
          Decimal.exists_withPoint_eq (Decimal.leading_toDigits d.digits) hhead hplaces
        rw [Decimal.positional, if_neg hexponent, htext]
        exact skipUnsigned_point hwhole hne hfraction hr
    · refine skipUnsigned_scientific hn ?_ hr
      split
      · exact .inr rfl
      · exact .inl rfl

end Exemplar.Json.Numeral
