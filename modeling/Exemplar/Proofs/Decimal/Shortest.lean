import Exemplar.Decimal.Shortest
import Exemplar.Proofs.Decimal.Digits

/-!
# Proofs/Decimal/Shortest — the shape of a printed double

    0.001        120.5        1200

The digits found for a positive double are those of a positive number (`digits_shortest_ne_zero`),
so they do not start with a zero.  With a point set among them they are digits that a number may
start with, the point, and at least one digit behind it (`exists_withPoint_eq`).
-/

namespace Exemplar

namespace Binary64

/-- Only zero has no units. -/
theorem units_pos {m : ℕ} (hm : m ≠ 0) : 0 < units m := by
  rw [units]
  split
  · exact Nat.pos_of_ne_zero hm
  · have hfraction : 0 < fractionSize + m % fractionSize :=
      Nat.add_pos_left (Nat.pow_pos (by omega)) _
    exact Nat.mul_pos hfraction (Nat.pow_pos (by omega))

end Binary64

namespace Decimal

variable {m d : ℕ} {s : ℤ} {tie : Tie} {x : Decimal} {ds : List Char} {places : ℕ}

theorem scaleDown_pos (s : ℤ) : 0 < scaleDown s := Nat.pow_pos (by omega)

/-- Zero reads back as no positive double. -/
theorem ne_zero_of_readsBack (hm : m ≠ 0) (h : readsBack m d s = true) : d ≠ 0 := by
  rintro rfl
  have hlow : 0 < (Binary64.units m + Binary64.units (m - 1)) * scaleDown s :=
    Nat.mul_pos (Nat.add_pos_left (Binary64.units_pos hm) _) (scaleDown_pos s)
  simp only [readsBack, Nat.mul_zero, Nat.zero_mul] at h
  split at h <;> simp only [decide_eq_true_eq] at h <;> omega

/-- A double that is not zero is not written with zeros alone, as it would read back as zero. -/
theorem digits_ne_zero_of_onGrid? (hm : m ≠ 0) (h : onGrid? tie m s = some x) : x.digits ≠ 0 := by
  rw [onGrid?] at h
  split at h
  · rename_i hbelow habove
    cases h
    split
    · exact Nat.succ_ne_zero _
    · exact ne_zero_of_readsBack hm hbelow
  · rename_i hbelow _
    cases h
    exact ne_zero_of_readsBack hm hbelow
  · cases h
    exact Nat.succ_ne_zero _
  · cases h

/-- A double that is not zero has digits when it is written with all places. -/
theorem digits_exact_ne_zero (hm : m ≠ 0) : (exact m).digits ≠ 0 := by
  rw [exact]
  generalize 1074 = n
  exact Nat.mul_ne_zero (Nat.ne_of_gt (Binary64.units_pos hm))
    (Nat.ne_of_gt (Nat.pow_pos (by omega)))

/-- Stripping stops at the last digit that counts. -/
theorem digits_stripZeros_ne_zero (fuel : ℕ) (hx : x.digits ≠ 0) :
    (stripZeros fuel x).digits ≠ 0 := by
  induction fuel generalizing x with
  | zero => exact hx
  | succ fuel ih =>
    rw [stripZeros]
    split
    · exact ih (by simp only; omega)
    · exact hx

/-- **The shortest decimal of a positive double is positive.** -/
theorem digits_shortest_ne_zero (tie : Tie) (hm : m ≠ 0) : (shortest tie m).digits ≠ 0 := by
  rw [shortest]
  apply digits_stripZeros_ne_zero
  cases hfound : (List.range 17).findSome? fun (i : ℕ) =>
      onGrid? tie m (pointPlace m - (i + 1)) with
  | none =>
    exact digits_exact_ne_zero hm
  | some y =>
    obtain ⟨i, -, hi⟩ := List.exists_of_findSome?_eq_some hfound
    exact digits_ne_zero_of_onGrid? hm hi

/-- **A point among digits** has digits before it, with no zero in front of others, and at least one
digit behind it. -/
theorem exists_withPoint_eq (hds : Leading ds) (hzero : ds.head? ≠ some '0')
    (hplaces : 0 < places) :
    ∃ whole fraction, withPoint ds places = whole ++ '.' :: fraction ∧ Leading whole
      ∧ fraction ≠ [] ∧ ∀ c ∈ fraction, c.isDigit = true := by
  have hdigits : ∀ c ∈ List.replicate (places + 1 - ds.length) '0' ++ ds, c.isDigit = true := by
    intro c hc
    rcases List.mem_append.1 hc with hc | hc
    · rw [List.eq_of_mem_replicate hc]
      decide
    · exact hds.digit c hc
  have hlength : (List.replicate (places + 1 - ds.length) '0' ++ ds).length
      = (places + 1 - ds.length) + ds.length := by
    rw [List.length_append, List.length_replicate]
  refine ⟨_, _, rfl, ⟨fun c hc => hdigits c (List.mem_of_mem_take hc), ?_, ?_⟩, ?_,
    fun c hc => hdigits c (List.mem_of_mem_drop hc)⟩
  · rw [← List.length_pos_iff, List.length_take]
    omega
  · -- the digits before the point start with a zero only if they are padded to just one
    intro hhead
    rcases Nat.lt_or_ge places ds.length with hlong | hshort
    · have hpad : places + 1 - ds.length = 0 := by omega
      rw [hpad, List.replicate_zero, List.nil_append, List.head?_take, if_neg (by omega)] at hhead
      exact absurd hhead hzero
    · have hpad : places + 1 - ds.length = (places - ds.length) + 1 := by omega
      have hone : (places - ds.length + 1) + ds.length - places = 1 := by omega
      rw [hlength, hpad, hone, List.replicate_succ]
      rfl
  · rw [← List.length_pos_iff, List.length_drop]
    omega

/-! ## What positional notation is made of -/

/-- Setting a point adds nothing but zeros and the point. -/
theorem mem_withPoint {c : Char} (h : c ∈ withPoint ds places) : c ∈ ds ∨ c = '0' ∨ c = '.' := by
  have hpadded : ∀ d ∈ List.replicate (places + 1 - ds.length) '0' ++ ds, d ∈ ds ∨ d = '0' :=
    fun d hd => (List.mem_append.1 hd).symm.imp_right List.eq_of_mem_replicate
  have hdigit : c ∈ List.replicate (places + 1 - ds.length) '0' ++ ds →
      c ∈ ds ∨ c = '0' ∨ c = '.' := fun hc => (hpadded c hc).imp_right .inl
  rcases List.mem_append.1 h with hwhole | hrest
  · exact hdigit (List.mem_of_mem_take hwhole)
  · rcases List.mem_cons.1 hrest with rfl | hfraction
    · exact .inr (.inr rfl)
    · exact hdigit (List.mem_of_mem_drop hfraction)

/-- **Positional notation** is digits and a point. -/
theorem isDigit_of_mem_positional {c : Char} (h : c ∈ x.positional) :
    c.isDigit = true ∨ c = '.' := by
  have hzero : '0'.isDigit = true := by decide
  rw [positional] at h
  split at h
  · rcases List.mem_append.1 h with h | h
    · exact .inl (isDigit_of_mem_toDigits h)
    · exact .inl (List.eq_of_mem_replicate h ▸ hzero)
  · rcases mem_withPoint h with h | rfl | rfl
    · exact .inl (isDigit_of_mem_toDigits h)
    · exact .inl hzero
    · exact .inr rfl

end Decimal

end Exemplar
