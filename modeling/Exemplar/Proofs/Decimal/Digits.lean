import Exemplar.Decimal.Digits
import Mathlib.Data.Nat.Digits.Defs

/-!
# Proofs/Decimal/Digits — a whole number's text reads back

    intChars (-120)  =  "-120"          ofDigits "120"  =  120

The text of a whole number is digits, with no zero in front of others, after a dash if it is
negative; reading it as a signed number gives the number (`readSigned?_intChars`).
-/

namespace Exemplar.Decimal

variable {n : ℕ} {c : Char}

/-- The digits of a number have its value. -/
theorem ofDigits_toDigits (n : ℕ) : ofDigits (Nat.toDigits 10 n) = n := by
  have h : ofDigits (Nat.toDigits 10 n) = Nat.ofDigitChars 10 (Nat.toDigits 10 n) 0 :=
    Nat.ofDigitChars_eq_foldl.symm
  rw [h, Nat.ofDigitChars_ten_toDigits]

theorem isDigit_of_mem_toDigits (h : c ∈ Nat.toDigits 10 n) : c.isDigit = true :=
  Nat.isDigit_of_mem_toDigits (by omega) (by omega) h

/-- There is a first digit, also for zero. -/
theorem exists_toDigits_eq_cons (n : ℕ) :
    ∃ d ds, Nat.toDigits 10 n = d :: ds ∧ d.isDigit = true ∧ ∀ c ∈ ds, c.isDigit = true := by
  obtain ⟨d, ds, h⟩ := List.exists_cons_of_ne_nil (Nat.toDigits_ne_nil (b := 10) (n := n))
  have hmem : ∀ c ∈ d :: ds, c.isDigit = true := fun c hc => isDigit_of_mem_toDigits (h ▸ hc)
  exact ⟨d, ds, h, hmem d List.mem_cons_self, fun c hc => hmem c (List.mem_cons_of_mem d hc)⟩

theorem digitChar_ne_zero : ∀ n < 10, n ≠ 0 → n.digitChar ≠ '0' := by decide

/-- Only zero starts with a zero. -/
theorem head_toDigits_ne_zero (hn : n ≠ 0) : (Nat.toDigits 10 n).head? ≠ some '0' := by
  induction n using Nat.strongRecOn with
  | ind n ih =>
    rcases Nat.lt_or_ge n 10 with h | h
    · simpa [Nat.toDigits_of_lt_base h] using digitChar_ne_zero n h hn
    · have hstart : (Nat.toDigits 10 (n / 10)).head? ≠ some '0' :=
        ih (n / 10) (by omega) (by omega)
      obtain ⟨d, ds, hd, -⟩ := exists_toDigits_eq_cons (n / 10)
      rw [Nat.toDigits_of_base_le (by omega) h, hd]
      simpa [hd] using hstart

/-- Digits that a number may start with: no zero stands before another digit. -/
structure Leading (ds : List Char) : Prop where
  digit : ∀ c ∈ ds, c.isDigit = true
  ne_nil : ds ≠ []
  zero : ds.head? = some '0' → ds = ['0']

/-- The digits of a number do not start with a zero, unless it is the only one. -/
theorem leading_toDigits (n : ℕ) : Leading (Nat.toDigits 10 n) where
  digit _ hc := isDigit_of_mem_toDigits hc
  ne_nil := Nat.toDigits_ne_nil
  zero h := by
    rcases Nat.eq_zero_or_pos n with rfl | hn
    · rfl
    · exact absurd h (head_toDigits_ne_zero (Nat.ne_of_gt hn))

/-- A number is read back from its digits. -/
theorem readNat?_toDigits (n : ℕ) : readNat? (Nat.toDigits 10 n) = some n := by
  have hdigits : (Nat.toDigits 10 n).all Char.isDigit = true :=
    List.all_eq_true.2 fun c hc => isDigit_of_mem_toDigits hc
  rw [readNat?, hdigits, List.isEmpty_eq_false_iff.2 Nat.toDigits_ne_nil, ofDigits_toDigits]
  rfl

/-- **The text of a whole number reads back as the number.** -/
theorem readSigned?_intChars : ∀ n : ℤ, readSigned? (intChars n) = some n
  | .ofNat n => by
    obtain ⟨d, ds, h, hd, -⟩ := exists_toDigits_eq_cons n
    have hplus : d ≠ '+' := by rintro rfl; exact absurd hd (by decide)
    have hminus : d ≠ '-' := by rintro rfl; exact absurd hd (by decide)
    have hread := readNat?_toDigits n
    rw [h] at hread
    simp [intChars, h, readSigned?, readUnsigned?, hplus, hminus, hread]
  | .negSucc n => by
    rw [intChars, readSigned?, readNat?_toDigits]
    rfl

/-- A character that is neither a digit nor a sign keeps a text from being a number. -/
theorem readSigned?_eq_none {s : List Char} (h : c ∈ s) (hdigit : c.isDigit = false)
    (hminus : c ≠ '-') (hplus : c ≠ '+') : readSigned? s = none := by
  have hread : ∀ t, c ∈ t → readNat? t = none := by
    intro t ht
    have hall : t.all Char.isDigit = false :=
      List.all_eq_false.2 ⟨c, ht, by simp [hdigit]⟩
    simp [readNat?, hall]
  rw [readSigned?.eq_def]
  split
  · rw [hread _ (List.mem_of_ne_of_mem hminus h)]
    rfl
  · rw [readUnsigned?.eq_def]
    split
    · rw [hread _ (List.mem_of_ne_of_mem hplus h)]
      rfl
    · rw [hread _ h]
      rfl

/-- A whole number's text is made of digits and a dash. -/
theorem isDigit_of_mem_intChars {n : ℤ} (h : c ∈ intChars n) : c.isDigit = true ∨ c = '-' := by
  cases n with
  | ofNat n => exact .inl (isDigit_of_mem_toDigits h)
  | negSucc n => exact (List.mem_cons.1 h).symm.imp_left isDigit_of_mem_toDigits

theorem intChars_ne_nil (n : ℤ) : intChars n ≠ [] := by
  cases n with
  | ofNat n => exact Nat.toDigits_ne_nil
  | negSucc n => exact List.cons_ne_nil _ _

/-! ## How a whole number may be written -/

/-- One or more digits, which stand for `n` by their places. -/
structure Digits (ds : List Char) (n : ℕ) : Prop where
  digit : ∀ c ∈ ds, c.isDigit = true
  ne_nil : ds ≠ []
  value : Nat.ofDigits 10 (ds.reverse.map digitValue) = n

/-- Digits, on their own or after a sign, are the text of a whole number. Zeros may stand in
front. -/
inductive Numeral : List Char → ℤ → Prop
  | bare {ds : List Char} {n : ℕ} (h : Digits ds n) : Numeral ds n
  | plus {ds : List Char} {n : ℕ} (h : Digits ds n) : Numeral ('+' :: ds) n
  | minus {ds : List Char} {n : ℕ} (h : Digits ds n) : Numeral ('-' :: ds) (-n)

/-- The value of digits in Mathlib's order, from the last one on. -/
theorem ofDigits_eq (ds : List Char) :
    ofDigits ds = Nat.ofDigits 10 (ds.reverse.map digitValue) := by
  rw [Nat.ofDigits_eq_foldr, List.foldr_map, List.foldr_reverse, ofDigits]
  exact congrArg (ds.foldl · 0) (funext₂ fun _ _ => Nat.add_comm _ _)

/-- What is read as a number are digits with its value, and nothing else is. -/
theorem readNat?_eq_some_iff {s : List Char} : readNat? s = some n ↔ Digits s n := by
  rw [readNat?, ofDigits_eq]
  constructor
  · intro h
    split at h
    · rename_i hdigits
      obtain ⟨hne, hall⟩ := Bool.and_eq_true_iff.1 hdigits
      exact ⟨List.all_eq_true.1 hall, by simpa using hne, Option.some.inj h⟩
    · cases h
  · intro h
    have hdigits : (!s.isEmpty && s.all Char.isDigit) = true :=
      Bool.and_eq_true_iff.2 ⟨by simpa using h.ne_nil, List.all_eq_true.2 h.digit⟩
    rw [if_pos hdigits, h.value]

variable {s ds : List Char} {z : ℤ}

theorem readSigned?_minus (ds : List Char) :
    readSigned? ('-' :: ds) = (readNat? ds).map fun n : ℕ => -(n : ℤ) := by
  rw [readSigned?]
  cases readNat? ds <;> rfl

theorem readSigned?_plus (ds : List Char) :
    readSigned? ('+' :: ds) = (readNat? ds).map fun n : ℕ => (n : ℤ) := by
  rw [readSigned?, readUnsigned?]
  · cases readNat? ds <;> rfl
  · nofun

/-- Without a sign a text is read as its digits. -/
theorem readSigned?_bare (hminus : s.head? ≠ some '-') (hplus : s.head? ≠ some '+') :
    readSigned? s = (readNat? s).map fun n : ℕ => (n : ℤ) := by
  have hunsigned : readUnsigned? s = readNat? s := by
    rw [readUnsigned?]
    rintro t rfl
    exact hplus rfl
  rw [readSigned?, hunsigned]
  · cases readNat? s <;> rfl
  · rintro t rfl
    exact hminus rfl

/-- Digits do not start with a sign. -/
theorem Digits.head?_ne (h : Digits ds n) (hc : c.isDigit = false) : ds.head? ≠ some c := by
  intro hhead
  have hdigit := h.digit c (List.mem_of_head? hhead)
  rw [hc] at hdigit
  cases hdigit

/-- Behind a minus there are digits only: a second sign is none of them. -/
theorem numeral_minus_iff : Numeral ('-' :: ds) z ↔ ∃ n, Digits ds n ∧ -(n : ℤ) = z := by
  constructor
  · intro h
    cases h with
    | bare h => exact absurd rfl (h.head?_ne (c := '-') (by decide))
    | minus h => exact ⟨_, h, rfl⟩
  · rintro ⟨n, h, rfl⟩
    exact .minus h

theorem numeral_plus_iff : Numeral ('+' :: ds) z ↔ ∃ n, Digits ds n ∧ (n : ℤ) = z := by
  constructor
  · intro h
    cases h with
    | bare h => exact absurd rfl (h.head?_ne (c := '+') (by decide))
    | plus h => exact ⟨_, h, rfl⟩
  · rintro ⟨n, h, rfl⟩
    exact .plus h

/-- A whole number without a sign is not negative. -/
theorem numeral_bare_iff (hminus : s.head? ≠ some '-') (hplus : s.head? ≠ some '+') :
    Numeral s z ↔ ∃ n, Digits s n ∧ (n : ℤ) = z := by
  constructor
  · intro h
    cases h with
    | bare h => exact ⟨_, h, rfl⟩
    | plus => exact absurd rfl hplus
    | minus => exact absurd rfl hminus
  · rintro ⟨n, h, rfl⟩
    exact .bare h

/-- **A text reads as a number exactly where it is written as one.** -/
theorem readSigned?_eq_some_iff : readSigned? s = some z ↔ Numeral s z := by
  by_cases hminus : s.head? = some '-'
  · obtain ⟨ds, rfl⟩ := List.head?_eq_some_iff.1 hminus
    rw [readSigned?_minus, numeral_minus_iff, Option.map_eq_some_iff]
    simp only [readNat?_eq_some_iff]
  by_cases hplus : s.head? = some '+'
  · obtain ⟨ds, rfl⟩ := List.head?_eq_some_iff.1 hplus
    rw [readSigned?_plus, numeral_plus_iff, Option.map_eq_some_iff]
    simp only [readNat?_eq_some_iff]
  · rw [readSigned?_bare hminus hplus, numeral_bare_iff hminus hplus, Option.map_eq_some_iff]
    simp only [readNat?_eq_some_iff]

end Exemplar.Decimal
