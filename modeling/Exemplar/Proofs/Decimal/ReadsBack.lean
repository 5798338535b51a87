import Exemplar.Proofs.Decimal.Nearest
import Exemplar.Proofs.Decimal.Shortest
import Mathlib.Algebra.Order.Field.Power
import Mathlib.Data.Nat.Digits.Lemmas

/-!
# Proofs/Decimal/ReadsBack — the digits of a double stand for a number that rounds to it

    0.30000000000000004   ──▸   30000000000000004 / 10¹⁷   ──▸   the double

The decimal found for a double rounds to it, whether it was taken from a grid or is the exact value
(`roundsTo_shortest`).  A decimal without places would be a whole number, which no double rounds to
that is not whole itself (`exponent_shortest_neg`), so the text of such a double has its point and
digits behind it, and reads as the decimal (`pointNumeral_positional`).
-/

namespace Exemplar.Decimal

open Binary64 (RoundsTo units unit)

variable {m n d k places : ℕ} {s : ℤ} {tie : Tie} {x : Decimal} {ds : List Char}

/-! ## The decimal rounds to the double -/

/-- The number that a decimal is. -/
def value (x : Decimal) : ℚ := x.digits * 10 ^ x.exponent

/-- The value of a decimal as one fraction of whole numbers, whatever the sign of its exponent. -/
theorem value_eq_div (d : ℕ) (s : ℤ) :
    value ⟨d, s⟩ = (d * scaleUp s : ℕ) / (scaleDown s : ℕ) := by
  rw [value, scaleUp, scaleDown]
  obtain ⟨k, rfl | rfl⟩ := s.eq_nat_or_neg
  · have hdown : (-(k : ℤ)).toNat = 0 := by omega
    rw [hdown, Int.toNat_natCast, zpow_natCast]
    simp
  · have hup : (-(k : ℤ)).toNat = 0 := by omega
    rw [hup, neg_neg, Int.toNat_natCast, zpow_neg, zpow_natCast]
    simp [div_eq_mul_inv]

/-- A decimal that is accepted for a double rounds to it. -/
theorem roundsTo_of_readsBack (h : readsBack m d s = true) : RoundsTo (value ⟨d, s⟩) m := by
  have hpoint : 2 * d * scaleUp s * unit = 2 * (d * scaleUp s) * unit := by
    rw [Nat.mul_assoc 2 d]
  rw [value_eq_div]
  simp only [readsBack, hpoint] at h
  split_ifs at h with heven
  · obtain ⟨hlow, hhigh⟩ := of_decide_eq_true h
    exact Binary64.roundsTo_of_between (scaleDown_pos s) hlow hhigh (.inl heven)
  · obtain ⟨hlow, hhigh⟩ := of_decide_eq_true h
    exact Binary64.roundsTo_of_between (scaleDown_pos s) hlow.le hhigh.le (.inr ⟨hlow, hhigh⟩)

/-- A decimal that is found among those with so many places rounds to the double. -/
theorem roundsTo_of_onGrid? (h : onGrid? tie m s = some x) : RoundsTo x.value m := by
  rw [onGrid?] at h
  split at h
  · rename_i hbelow habove
    cases h
    split
    · exact roundsTo_of_readsBack habove
    · exact roundsTo_of_readsBack hbelow
  · rename_i hbelow _
    cases h
    exact roundsTo_of_readsBack hbelow
  · rename_i _ habove
    cases h
    exact roundsTo_of_readsBack habove
  · cases h

/-- Dividing by two is moving the point after multiplying by five. -/
theorem value_five_pow (n k : ℕ) : value ⟨n * 5 ^ k, -k⟩ = n / 2 ^ k := by
  have hten : (10 : ℚ) ^ k = 2 ^ k * 5 ^ k := by rw [← mul_pow]; norm_num
  rw [value, zpow_neg, zpow_natCast, hten]
  push_cast
  field_simp

/-- The decimal with all places is the double itself. -/
theorem value_exact (m : ℕ) : (exact m).value = Binary64.value m := by
  have hunit : (unit : ℚ) = 2 ^ 1074 := by
    rw [Binary64.unit_eq, Nat.cast_pow, Nat.cast_ofNat]
  rw [Binary64.value, hunit]
  change value ⟨units m * Nat.pow 5 1074, -(1074 : ℕ)⟩ = _
  generalize 1074 = k
  exact value_five_pow (units m) k

/-- Zeros at the end of the digits are told by the exponent instead. -/
theorem value_stripZeros (fuel : ℕ) (x : Decimal) : (stripZeros fuel x).value = x.value := by
  induction fuel generalizing x with
  | zero => rfl
  | succ fuel ih =>
    rw [stripZeros]
    split_ifs with hzero
    · have hdigits : ((x.digits / 10 : ℕ) : ℚ) * 10 = x.digits := by
        exact_mod_cast Nat.div_mul_cancel (Nat.dvd_of_mod_eq_zero hzero)
      rw [ih, value, value, zpow_add_one₀ (by norm_num), ← hdigits]
      ring
    · rfl

/-- **The decimal found for a double rounds to it.** -/
theorem roundsTo_shortest (tie : Tie) (m : ℕ) : RoundsTo (shortest tie m).value m := by
  rw [shortest, value_stripZeros]
  cases hfound : (List.range 17).findSome? fun (i : ℕ) =>
      onGrid? tie m (pointPlace m - (i + 1)) with
  | none =>
    rw [Option.getD_none, value_exact]
    exact Binary64.roundsTo_value m
  | some y =>
    obtain ⟨i, -, hi⟩ := List.exists_of_findSome?_eq_some hfound
    exact roundsTo_of_onGrid? hi

/-- **A double that is not whole needs places behind the point.** -/
theorem exponent_shortest_neg (tie : Tie) (h : ¬ unit ∣ units m) :
    (shortest tie m).exponent < 0 := by
  by_contra hexponent
  have hround := roundsTo_shortest tie m
  obtain ⟨k, hk⟩ := Int.eq_ofNat_of_zero_le (not_lt.1 hexponent)
  have hwhole : (shortest tie m).value = ((shortest tie m).digits * 10 ^ k : ℕ) := by
    rw [value, hk, zpow_natCast]
    push_cast
    rfl
  rw [hwhole] at hround
  exact Binary64.not_roundsTo_natCast h _ hround

/-! ## Digits around a point -/

/-- `PointNumeral s n k`: the text `s` has digits on both sides of a point, `k` of them behind it,
and all together they stand for `n`. -/
inductive PointNumeral : List Char → ℕ → ℕ → Prop
  | mk {whole fraction : List Char} {n : ℕ} (hwhole : whole ≠ []) (hfraction : fraction ≠ [])
      (h : Digits (whole ++ fraction) n) :
      PointNumeral (whole ++ '.' :: fraction) n fraction.length

/-- A number has digits in the sense of the reader. -/
theorem digits_toDigits (n : ℕ) : Digits (Nat.toDigits 10 n) n :=
  readNat?_eq_some_iff.1 (readNat?_toDigits n)

/-- A zero in front changes nothing. -/
theorem Digits.cons_zero (h : Digits ds n) : Digits ('0' :: ds) n where
  digit := List.forall_mem_cons.2 ⟨rfl, h.digit⟩
  ne_nil := List.cons_ne_nil _ _
  value := by
    rw [List.reverse_cons, List.map_append, ← h.value]
    exact Nat.ofDigits_append_zero _

/-- Zeros in front do not count. -/
theorem Digits.zeros_append (h : Digits ds n) (k : ℕ) : Digits (List.replicate k '0' ++ ds) n := by
  induction k with
  | zero => exact h
  | succ k ih => exact ih.cons_zero

/-- A zero behind makes ten times the number. -/
theorem Digits.concat_zero (h : Digits ds n) : Digits (ds ++ ['0']) (10 * n) where
  digit c hc := (List.mem_append.1 hc).elim (h.digit c) fun hc => by
    rw [List.mem_singleton.1 hc]
    rfl
  ne_nil := List.append_ne_nil_of_right_ne_nil _ (List.cons_ne_nil _ _)
  value := by
    have hzero : digitValue '0' = 0 := rfl
    rw [List.reverse_concat, List.map_cons, Nat.ofDigits_cons, h.value, hzero, Nat.zero_add]

/-- A point among digits leaves their value and tells how many of them are places. -/
theorem pointNumeral_withPoint (h : Digits ds n) (hplaces : 0 < places) :
    PointNumeral (withPoint ds places) n places := by
  have hpadded := h.zeros_append (places + 1 - ds.length)
  rw [withPoint]
  generalize hlength : List.replicate (places + 1 - ds.length) '0' ++ ds = padded at hpadded
  have hlong : places < padded.length := by
    rw [← hlength, List.length_append, List.length_replicate]
    omega
  have hbehind : (padded.drop (padded.length - places)).length = places := by
    rw [List.length_drop]
    omega
  have hwhole : padded.take (padded.length - places) ≠ [] := by
    rw [← List.length_pos_iff, List.length_take]
    omega
  have hfraction : padded.drop (padded.length - places) ≠ [] := by
    rw [← List.length_pos_iff, hbehind]
    exact hplaces
  have hdigits : Digits
      (padded.take (padded.length - places) ++ padded.drop (padded.length - places)) n := by
    rwa [List.take_append_drop]
  have hpoint := PointNumeral.mk hwhole hfraction hdigits
  rwa [hbehind] at hpoint

/-- **The text of a decimal with places** reads as its digits over the power of ten. -/
theorem pointNumeral_positional (h : x.exponent < 0) :
    ∃ k, PointNumeral x.positional x.digits k ∧ x.value = x.digits / 10 ^ k := by
  have hplaces : x.exponent = -((-x.exponent).toNat : ℤ) := by omega
  refine ⟨(-x.exponent).toNat, ?_, ?_⟩
  · rw [positional]
    simp only [if_neg (not_le.2 h)]
    exact pointNumeral_withPoint (digits_toDigits x.digits) (by omega)
  · rw [value, hplaces, zpow_neg, zpow_natCast, neg_neg, Int.toNat_natCast, div_eq_mul_inv]

/-- A text with a point starts with a digit. -/
theorem PointNumeral.head?_ne {t : List Char} {c : Char} (h : PointNumeral t n k)
    (hc : c.isDigit = false) : t.head? ≠ some c := by
  obtain ⟨hwhole, -, hdigits⟩ := h
  intro hhead
  rw [List.head?_append_of_ne_nil _ hwhole] at hhead
  have hdigit := hdigits.digit c (List.mem_append_left _ (List.mem_of_head? hhead))
  rw [hc] at hdigit
  cases hdigit

/-- A text with a point reads in one way. -/
theorem PointNumeral.unique {n' k' : ℕ} {t : List Char} (h : PointNumeral t n k)
    (h' : PointNumeral t n' k') : n = n' ∧ k = k' := by
  have hpoint : ∀ {ds n}, Digits ds n → '.' ∉ ds := fun h hmem =>
    absurd (h.digit '.' hmem) (by decide)
  obtain ⟨-, -, h⟩ := h
  generalize ht : _ ++ '.' :: _ = t at h'
  obtain ⟨-, -, h'⟩ := h'
  have hdigits := hpoint h
  rw [List.mem_append, not_or] at hdigits
  obtain ⟨rfl, -, rfl⟩ := (List.append_cons_inj_of_notMem hdigits.1 hdigits.2).1 ht
  exact ⟨h.value.symm.trans h'.value, rfl⟩

end Exemplar.Decimal
