import Exemplar.Decimal.Binary64
import Mathlib.Data.Rat.Cast.Order
import Mathlib.Order.Monotone.Basic
import Mathlib.Tactic.FieldSimp
import Mathlib.Tactic.Linarith
import Mathlib.Tactic.Ring

/-!
# Proofs/Decimal/Nearest — which double a rational number rounds to

    … ── units (m - 1) ──┆── units m ──┆── units (m + 1) ── …

The values of the magnitudes ascend (`strictMono_units`), so a number rounds to the double between
whose two midpoints it lies (`roundsTo_of_between`), and to no other (`RoundsTo.unique`).  `nearest`
finds that double (`roundsTo_iff_nearest`).  Below 2⁵³ every whole number is the value of a double,
and from 2⁵² on every double is whole, so **no whole number rounds to a double that is not**
(`not_roundsTo_natCast`).
-/

namespace Exemplar.Binary64

variable {m n t a num den : ℕ} {q : ℚ}

theorem fractionSize_pos : 0 < fractionSize := Nat.pow_pos (by omega)

/-- Halving the number of fractions leaves nothing over, so a magnitude is even as its fraction
is. -/
theorem even_fractionSize : fractionSize % 2 = 0 := by decide

/-- One in units: the least positive double is 2⁻¹⁰⁷⁴. -/
theorem unit_eq : unit = 2 ^ 1074 := by
  unfold unit
  generalize 1074 = k
  rfl

theorem unit_pos : 0 < unit := Nat.lt_of_lt_of_eq (Nat.two_pow_pos _) unit_eq.symm

theorem cast_unit_pos : (0 : ℚ) < unit := Nat.cast_pos.2 unit_pos

theorem cast_unit_ne_zero : (unit : ℚ) ≠ 0 := cast_unit_pos.ne'

/-! ## Magnitudes by significand and exponent -/

/-- A significand of full width at the exponent `t`, or any at the exponent 0.  The power of two
behind the greatest one is counted in, since adding 1 carries into the exponent. -/
structure Significand (t a : ℕ) : Prop where
  full : t = 0 ∨ fractionSize ≤ a
  le : a ≤ 2 * fractionSize

/-- Without an exponent a magnitude counts units. -/
theorem units_of_lt (h : a < fractionSize) : units a = a := if_pos h

/-- A magnitude with an exponent has the hidden bit in front of its fraction. -/
theorem units_full (h : a < fractionSize) :
    units ((t + 1) * fractionSize + a) = (fractionSize + a) * 2 ^ t := by
  have hdiv : ((t + 1) * fractionSize + a) / fractionSize = t + 1 := by
    rw [Nat.mul_comm, Nat.mul_add_div fractionSize_pos, Nat.div_eq_of_lt h, Nat.add_zero]
  have hmod : ((t + 1) * fractionSize + a) % fractionSize = a := by
    rw [Nat.mul_comm, Nat.mul_add_mod, Nat.mod_eq_of_lt h]
  have hle : ¬ (t + 1) * fractionSize + a < fractionSize := by
    rw [Nat.succ_mul]
    omega
  rw [units, if_neg hle, hdiv, hmod]
  rfl

/-- **The value of a magnitude** is its significand times the power of two of its exponent. -/
theorem Significand.units_eq (h : Significand t a) :
    units (t * fractionSize + a) = a * 2 ^ t := by
  rcases Nat.lt_or_ge a fractionSize with hlt | hge
  · obtain rfl : t = 0 := h.full.resolve_right (Nat.not_le.2 hlt)
    rw [Nat.zero_mul, Nat.zero_add, units_of_lt hlt, Nat.pow_zero, Nat.mul_one]
  · obtain ⟨f, rfl⟩ := Nat.exists_eq_add_of_le hge
    have hle := h.le
    rw [← Nat.add_assoc, ← Nat.succ_mul]
    rcases Nat.lt_or_ge f fractionSize with hf | hf
    · exact units_full hf
    · obtain rfl : f = fractionSize := by omega
      have hnext := units_full (t := t + 1) fractionSize_pos
      rw [← Nat.succ_mul, ← Nat.add_zero ((t + 1 + 1) * fractionSize), hnext, Nat.pow_succ]
      ring

/-- **Every magnitude has an exponent and a significand**, which leaves room for one more. -/
theorem exists_significand (m : ℕ) :
    ∃ t a, m = t * fractionSize + a ∧ Significand t a ∧ a < 2 * fractionSize := by
  rcases Nat.lt_or_ge m fractionSize with hlt | hge
  · exact ⟨0, m, by rw [Nat.zero_mul, Nat.zero_add], ⟨.inl rfl, by omega⟩, by omega⟩
  · have hmod := Nat.mod_lt m fractionSize_pos
    have hsplit := Nat.div_add_mod' m fractionSize
    obtain ⟨t, ht⟩ := Nat.exists_eq_add_one.2 (Nat.div_pos hge fractionSize_pos)
    refine ⟨t, fractionSize + m % fractionSize, ?_, ⟨.inr (Nat.le_add_right _ _), ?_⟩, ?_⟩
    · rw [ht, Nat.succ_mul] at hsplit
      omega
    · omega
    · omega

/-- The next magnitude is larger. -/
theorem units_lt_succ (m : ℕ) : units m < units (m + 1) := by
  obtain ⟨t, a, rfl, ha, hlt⟩ := exists_significand m
  have hsucc : Significand t (a + 1) := ⟨ha.full.imp_right Nat.le_succ_of_le, hlt⟩
  rw [ha.units_eq, Nat.add_assoc, hsucc.units_eq]
  exact Nat.mul_lt_mul_of_pos_right (Nat.lt_succ_self a) (Nat.two_pow_pos t)

/-- **Greater magnitudes have greater values.** -/
theorem strictMono_units : StrictMono units := strictMono_nat_of_lt_succ units_lt_succ

/-! ## Rounding -/

/-- The value of magnitude bits. Those behind the greatest finite double go on counting, from 2¹⁰²⁴
for infinity. -/
def value (m : ℕ) : ℚ := units m / unit

/-- Doubles are ordered as their bits. -/
theorem strictMono_value : StrictMono value := fun _ _ h =>
  div_lt_div_of_pos_right (Nat.cast_lt.2 (strictMono_units h)) cast_unit_pos

/-- `RoundsTo q m`: no double is closer to `q` than the one with magnitude bits `m`, and `m` is even
if another one is as close. -/
structure RoundsTo (q : ℚ) (m : ℕ) : Prop where
  nearest : ∀ n, |q - value m| ≤ |q - value n|
  even : ∀ n, n ≠ m → |q - value n| = |q - value m| → m % 2 = 0

/-- A double rounds to itself. -/
theorem roundsTo_value (m : ℕ) : RoundsTo (value m) m where
  nearest n := by
    rw [sub_self, abs_zero]
    exact abs_nonneg _
  even n hn h := by
    rw [sub_self, abs_zero, abs_eq_zero, sub_eq_zero] at h
    exact absurd (strictMono_value.injective h).symm hn

/-- Two doubles as close as each other are neighbours, and not both even. -/
theorem RoundsTo.le (hm : RoundsTo q m) (hn : RoundsTo q n) : n ≤ m := by
  by_contra hlt
  rw [Nat.not_le] at hlt
  have hdistance : |q - value m| = |q - value n| := le_antisymm (hm.nearest n) (hn.nearest m)
  have hmeven := hm.even n (Nat.ne_of_gt hlt) hdistance.symm
  have hneven := hn.even m (Nat.ne_of_lt hlt) hdistance
  have hbetween : m + 1 < n := by omega
  -- the double between the two would be closer than both
  have hlow := strictMono_value (Nat.lt_succ_self m)
  have hhigh := strictMono_value hbetween
  have hnearest := hm.nearest (m + 1)
  rcases abs_cases (q - value m) with ⟨h₁, h₁'⟩ | ⟨h₁, h₁'⟩ <;>
    rcases abs_cases (q - value n) with ⟨h₂, h₂'⟩ | ⟨h₂, h₂'⟩ <;>
    rcases abs_cases (q - value (m + 1)) with ⟨h₃, h₃'⟩ | ⟨h₃, h₃'⟩ <;>
    linarith

/-- **A number rounds to one double only.** -/
theorem RoundsTo.unique (hm : RoundsTo q m) (hn : RoundsTo q n) : m = n :=
  Nat.le_antisymm (hn.le hm) (hm.le hn)

/-- A number on the far side of the midpoint is closer to that end. -/
theorem abs_sub_le_of_add_le {x y : ℚ} (hxy : x < y) (h : y + x ≤ 2 * q) : |q - y| ≤ |q - x| := by
  rw [abs_of_nonneg (show 0 ≤ q - x by linarith), abs_le]
  constructor <;> linarith

/-- What lies past the midpoint of two values is nearer to the larger one. -/
theorem abs_sub_le_of_le_add {x y : ℚ} (hxy : x < y) (h : 2 * q ≤ x + y) : |q - x| ≤ |q - y| := by
  rw [abs_of_nonpos (show q - y ≤ 0 by linarith), abs_le]
  constructor <;> linarith

/-- Only the midpoint is as close to one end as to the other. -/
theorem add_eq_of_abs_sub_eq {x y : ℚ} (hxy : x ≠ y) (h : |q - x| = |q - y|) : x + y = 2 * q := by
  rcases abs_eq_abs.1 h with h | h
  · exact absurd (sub_right_injective h) hxy
  · linarith

/-- **A number between the midpoints to both neighbours rounds to the double.** A midpoint belongs
to the double if it is even. -/
theorem roundsTo_of_midpoints (hlow : value m + value (m - 1) ≤ 2 * q)
    (hhigh : 2 * q ≤ value m + value (m + 1))
    (heven : m % 2 = 0 ∨ value m + value (m - 1) < 2 * q ∧ 2 * q < value m + value (m + 1)) :
    RoundsTo q m := by
  have hbelow : ∀ n, n < m → value n ≤ value (m - 1) := fun n hn =>
    strictMono_value.monotone (by omega)
  have habove : ∀ n, m < n → value (m + 1) ≤ value n := fun n hn =>
    strictMono_value.monotone hn
  constructor
  · intro n
    rcases Nat.lt_trichotomy n m with hn | rfl | hn
    · exact abs_sub_le_of_add_le (strictMono_value hn) (by linarith [hbelow n hn])
    · exact le_rfl
    · exact abs_sub_le_of_le_add (strictMono_value hn) (by linarith [habove n hn])
  · intro n hn h
    refine heven.resolve_right fun ⟨hlow, hhigh⟩ => ?_
    have hmid := add_eq_of_abs_sub_eq (fun h => hn (strictMono_value.injective h)) h
    rcases Nat.lt_or_gt_of_ne hn with hn | hn
    · linarith [hbelow n hn]
    · linarith [habove n hn]

/-- The same with the midpoints brought over one denominator. -/
theorem roundsTo_of_between (hden : 0 < den)
    (hlow : (units m + units (m - 1)) * den ≤ 2 * num * unit)
    (hhigh : 2 * num * unit ≤ (units m + units (m + 1)) * den)
    (heven : m % 2 = 0 ∨ (units m + units (m - 1)) * den < 2 * num * unit ∧
      2 * num * unit < (units m + units (m + 1)) * den) :
    RoundsTo (num / den) m := by
  have hpos : (0 : ℚ) < den * unit := mul_pos (Nat.cast_pos.2 hden) cast_unit_pos
  have hmid : ∀ n, value m + value n = ((units m + units n) * den : ℕ) / (den * unit : ℚ) := by
    intro n
    have hd : (den : ℚ) ≠ 0 := Nat.cast_ne_zero.2 (Nat.ne_of_gt hden)
    rw [value, value, ← add_div, Nat.cast_mul, Nat.cast_add, mul_comm (den : ℚ),
      mul_div_mul_right _ _ hd]
  have htwice : 2 * ((num : ℚ) / den) = (2 * num * unit : ℕ) / (den * unit : ℚ) := by
    rw [Nat.cast_mul, mul_div_mul_right _ _ cast_unit_ne_zero, Nat.cast_mul, Nat.cast_two,
      mul_div_assoc]
  apply roundsTo_of_midpoints
  · rw [hmid, htwice, div_le_div_iff_of_pos_right hpos]
    exact Nat.cast_le.2 hlow
  · rw [hmid, htwice, div_le_div_iff_of_pos_right hpos]
    exact Nat.cast_le.2 hhigh
  · refine heven.imp_right fun ⟨hlow, hhigh⟩ => ?_
    rw [hmid, hmid, htwice, div_lt_div_iff_of_pos_right hpos, div_lt_div_iff_of_pos_right hpos]
    exact ⟨Nat.cast_lt.2 hlow, Nat.cast_lt.2 hhigh⟩

/-! ## Finding the nearest double -/

/-- Rounding a quotient to a whole number: it ends up at most a half away, and even if it is a half
away. -/
theorem roundHalfEven_spec (num : ℕ) (hden : 0 < den) :
    2 * num ≤ 2 * (roundHalfEven num den * den) + den ∧
      2 * (roundHalfEven num den * den) ≤ 2 * num + den ∧
      (roundHalfEven num den % 2 = 0 ∨ 2 * num < 2 * (roundHalfEven num den * den) + den ∧
        2 * (roundHalfEven num den * den) < 2 * num + den) := by
  have hsplit := Nat.div_add_mod' num den
  have hmod := Nat.mod_lt num hden
  rw [roundHalfEven]
  generalize num / den = floor at hsplit
  generalize num % den = rest at hsplit hmod
  split_ifs with hless hmore
  · omega
  · rw [Nat.succ_mul floor den]
    omega
  · rcases Nat.mod_two_eq_zero_or_one floor with h | h
    · rw [h, Nat.add_zero]
      omega
    · rw [h, Nat.succ_mul floor den]
      omega

/-- Rounding a quotient keeps it or adds one. -/
theorem div_le_roundHalfEven (num den : ℕ) :
    num / den ≤ roundHalfEven num den ∧ roundHalfEven num den ≤ num / den + 1 := by
  rw [roundHalfEven]
  generalize num / den = floor
  split_ifs <;> omega

/-- A number of units has 53 bits in front of the exponent's, or fewer at the exponent 0. -/
theorem scaled_bounds (x : ℕ) :
    (x.log2 - 52 = 0 ∨ fractionSize ≤ x / 2 ^ (x.log2 - 52)) ∧
      x / 2 ^ (x.log2 - 52) < 2 * fractionSize := by
  have hsize : fractionSize = 2 ^ 52 := rfl
  have hpos : 0 < 2 ^ (x.log2 - 52) := Nat.two_pow_pos _
  rw [hsize, Nat.div_lt_iff_lt_mul hpos, Nat.le_div_iff_mul_le hpos, ← Nat.pow_succ', ← Nat.pow_add,
    ← Nat.pow_add]
  constructor
  · refine or_iff_not_imp_left.2 fun hexponent => ?_
    have hlog : 52 + (x.log2 - 52) = x.log2 := by omega
    have hx : x ≠ 0 := by
      rintro rfl
      exact hexponent rfl
    rw [hlog]
    exact Nat.log2_self_le hx
  · calc x < 2 ^ (x.log2 + 1) := Nat.lt_log2_self
      _ ≤ 2 ^ (52 + 1 + (x.log2 - 52)) := Nat.pow_le_pow_right (by omega) (by omega)

/-- The next value lies at least one step of the exponent's grid further on. -/
theorem Significand.succ_le (h : Significand t a) :
    (a + 1) * 2 ^ t ≤ units (t * fractionSize + a + 1) := by
  rcases Nat.lt_or_eq_of_le h.le with hlt | rfl
  · have hsucc : Significand t (a + 1) := ⟨h.full.imp_right Nat.le_succ_of_le, hlt⟩
    rw [Nat.add_assoc, hsucc.units_eq]
  · have hone := fractionSize_pos
    have hsucc : Significand (t + 1) (fractionSize + 1) := ⟨.inr (Nat.le_succ _), by omega⟩
    have hsplit : t * fractionSize + 2 * fractionSize + 1
        = (t + 1) * fractionSize + (fractionSize + 1) := by ring
    rw [hsplit, hsucc.units_eq, Nat.pow_succ', ← Nat.mul_assoc]
    exact Nat.mul_le_mul_right _ (by omega)

/-- The value before lies one step further back, except where the exponent goes down with it. -/
theorem Significand.pred_cases (h : Significand t a) :
    units (t * fractionSize + a - 1) + 2 ^ t = a * 2 ^ t ∨ t * fractionSize + a = 0 ∨
      t ≠ 0 ∧ a = fractionSize ∧ units (t * fractionSize + a - 1) < a * 2 ^ t := by
  have hsize := fractionSize_pos
  rcases Nat.eq_zero_or_pos a with rfl | hpos
  · obtain rfl : t = 0 := h.full.resolve_right (by omega)
    exact .inr (.inl (by omega))
  · obtain ⟨b, rfl⟩ := Nat.exists_eq_add_one.2 hpos
    by_cases hfull : t = 0 ∨ fractionSize ≤ b
    · have hpred : Significand t b := ⟨hfull, Nat.le_of_succ_le h.le⟩
      left
      rw [← Nat.add_assoc, Nat.add_sub_cancel, hpred.units_eq, Nat.succ_mul]
    · rw [not_or] at hfull
      have hfirst : b + 1 = fractionSize := by
        have := h.full.resolve_left hfull.1
        omega
      refine .inr (.inr ⟨hfull.1, hfirst, ?_⟩)
      rw [← h.units_eq]
      exact strictMono_units (by omega)

/-- Whether a magnitude is even is told by its significand. -/
theorem mod_two_mul_fractionSize_add (t a : ℕ) : (t * fractionSize + a) % 2 = a % 2 := by
  rw [Nat.add_mod, Nat.mul_mod, even_fractionSize, Nat.mul_zero, Nat.zero_mod, Nat.zero_add,
    Nat.mod_mod]

/-- Where a number is rounded to `a` steps of the exponent's grid, the midpoint to the double before
lies half a step back.  There is no such double for zero; and where the exponent goes down, the
number was not rounded up, and lies above that midpoint. -/
theorem Significand.pred_mul_cases (h : Significand t a) {scaled : ℕ} (hden : 0 < den)
    (hfirst : t ≠ 0 → a = fractionSize → a * (den * 2 ^ t) ≤ scaled) :
    units (t * fractionSize + a - 1) * den + den * 2 ^ t = a * (den * 2 ^ t) ∨
      t * fractionSize + a = 0 ∨
      units (t * fractionSize + a - 1) * den + a * (den * 2 ^ t) < 2 * scaled := by
  refine h.pred_cases.imp (fun h => ?_) (Or.imp_right fun ⟨ht, ha, h⟩ => ?_)
  · calc units (t * fractionSize + a - 1) * den + den * 2 ^ t
        = (units (t * fractionSize + a - 1) + 2 ^ t) * den := by ring
      _ = a * (den * 2 ^ t) := by rw [h]; ring
  · have hle := hfirst ht ha
    have hlt : units (t * fractionSize + a - 1) * den < a * (den * 2 ^ t) :=
      calc units (t * fractionSize + a - 1) * den < a * 2 ^ t * den :=
            Nat.mul_lt_mul_of_pos_right h hden
        _ = a * (den * 2 ^ t) := by ring
    omega

/-- **Rounding on the exponent's grid is rounding to a double**, if the significand fits. -/
theorem Significand.roundsTo (h : Significand t a) (hden : 0 < den)
    (hfirst : t ≠ 0 → a = fractionSize → a * (den * 2 ^ t) ≤ num * unit)
    (hup : 2 * (num * unit) ≤ 2 * (a * (den * 2 ^ t)) + den * 2 ^ t)
    (hdown : 2 * (a * (den * 2 ^ t)) ≤ 2 * (num * unit) + den * 2 ^ t)
    (htie : a % 2 = 0 ∨ 2 * (num * unit) < 2 * (a * (den * 2 ^ t)) + den * 2 ^ t ∧
      2 * (a * (den * 2 ^ t)) < 2 * (num * unit) + den * 2 ^ t) :
    RoundsTo (num / den) (t * fractionSize + a) := by
  have hprev := h.pred_mul_cases hden hfirst
  have hvalue : units (t * fractionSize + a) * den = a * (den * 2 ^ t) := by
    rw [h.units_eq]
    ring
  have hnext : a * (den * 2 ^ t) + den * 2 ^ t ≤ units (t * fractionSize + a + 1) * den :=
    calc a * (den * 2 ^ t) + den * 2 ^ t = (a + 1) * 2 ^ t * den := by ring
      _ ≤ _ := Nat.mul_le_mul_right den h.succ_le
  have hzero : t * fractionSize + a = 0 → a % 2 = 0 ∧
      (units (t * fractionSize + a) + units (t * fractionSize + a - 1)) * den = 0 := fun h => by
    rw [h, ← mod_two_mul_fractionSize_add t a, h]
    exact ⟨rfl, Nat.zero_mul den⟩
  apply roundsTo_of_between hden
  -- the value before is a step away, or there is none, or it is nearer as the exponent goes down
  · rw [Nat.mul_assoc]
    rcases hprev with h | h | h
    · rw [Nat.add_mul, hvalue]
      omega
    · rw [(hzero h).2]
      exact Nat.zero_le _
    · rw [Nat.add_mul, hvalue]
      omega
  · rw [Nat.mul_assoc, Nat.add_mul, hvalue]
    omega
  · rw [mod_two_mul_fractionSize_add]
    refine or_iff_not_imp_left.2 fun hodd => ?_
    have hstrict := htie.resolve_left hodd
    have hprev := hprev.imp_right fun h => h.resolve_left fun h => hodd (hzero h).1
    rw [Nat.mul_assoc, Nat.add_mul, Nat.add_mul, hvalue]
    omega

/-- **The nearest double is found.** -/
theorem roundsTo_nearest (num : ℕ) (hden : 0 < den) : RoundsTo (num / den) (nearest num den) := by
  rw [nearest]
  obtain ⟨hfull, hlt⟩ := scaled_bounds (num * unit / den)
  generalize (num * unit / den).log2 - 52 = t at hfull hlt
  have hpow : den * Nat.pow 2 t = den * 2 ^ t := rfl
  have hstep : 0 < den * 2 ^ t := Nat.mul_pos hden (Nat.two_pow_pos t)
  rw [Nat.div_div_eq_div_mul] at hfull hlt
  obtain ⟨hup, hdown, htie⟩ := roundHalfEven_spec (num * unit) hstep
  obtain ⟨hfloor, hceil⟩ := div_le_roundHalfEven (num * unit) (den * 2 ^ t)
  simp only [hpow]
  generalize roundHalfEven (num * unit) (den * 2 ^ t) = r at *
  have hr : Significand t r := ⟨hfull.imp_right fun h => h.trans hfloor, by omega⟩
  refine hr.roundsTo hden (fun ht hfirst => ?_) hup hdown htie
  calc r * (den * 2 ^ t) ≤ num * unit / (den * 2 ^ t) * (den * 2 ^ t) :=
        Nat.mul_le_mul_right _ (hfirst ▸ hfull.resolve_left ht)
    _ ≤ num * unit := Nat.div_mul_le_self _ _

/-- **A number rounds to the double that is found, and to no other.** -/
theorem roundsTo_iff_nearest (hden : 0 < den) :
    RoundsTo (num / den) m ↔ nearest num den = m := by
  constructor
  · exact (roundsTo_nearest num hden).unique
  · rintro rfl
    exact roundsTo_nearest num hden

/-! ## Whole numbers -/

/-- From 2⁵² on every double is whole. -/
theorem units_lt_of_not_dvd (h : ¬ unit ∣ units m) : units m < fractionSize * unit := by
  by_contra hge
  rw [Nat.not_lt] at hge
  obtain ⟨t, a, rfl, ha, hlt⟩ := exists_significand m
  rw [ha.units_eq, unit_eq] at h hge
  generalize 1074 = k at h hge
  refine h ?_
  have hk : k ≤ t := by
    by_contra ht
    have hpow : 2 ^ (t + 1) ≤ 2 ^ k := Nat.pow_le_pow_right (by omega) (by omega)
    have hbound := calc a * 2 ^ t < 2 * fractionSize * 2 ^ t :=
            Nat.mul_lt_mul_of_pos_right hlt (Nat.two_pow_pos t)
      _ = fractionSize * 2 ^ (t + 1) := by ring
      _ ≤ fractionSize * 2 ^ k := Nat.mul_le_mul_left _ hpow
    omega
  exact (Nat.pow_dvd_pow 2 hk).mul_left a

/-- Below 2⁵³ every whole number is the value of a double. -/
theorem exists_units_eq (h : n < 2 * fractionSize) : ∃ m, units m = n * unit := by
  rcases Nat.eq_zero_or_pos n with rfl | hpos
  · exact ⟨0, by rw [units_of_lt fractionSize_pos, Nat.zero_mul]⟩
  · -- the digits of `n` in base 2, moved up to fill a significand
    have hsize : fractionSize = 2 ^ 52 := rfl
    have hne := Nat.ne_of_gt hpos
    have hlog : n.log2 < 53 := (Nat.log2_lt hne).2 (by rwa [hsize, ← Nat.pow_succ'] at h)
    have hlow : 2 ^ n.log2 ≤ n := Nat.log2_self_le hne
    have hhigh : n < 2 ^ (n.log2 + 1) := Nat.lt_log2_self
    have ha : Significand (1022 + n.log2) (n * 2 ^ (52 - n.log2)) := by
      constructor
      · right
        calc fractionSize = 2 ^ n.log2 * 2 ^ (52 - n.log2) := by
              rw [hsize, ← Nat.pow_add]
              congr 1
              omega
          _ ≤ n * 2 ^ (52 - n.log2) := Nat.mul_le_mul_right _ hlow
      · calc n * 2 ^ (52 - n.log2) ≤ 2 ^ (n.log2 + 1) * 2 ^ (52 - n.log2) :=
              Nat.mul_le_mul_right _ hhigh.le
          _ = 2 * fractionSize := by
              rw [hsize, ← Nat.pow_add, ← Nat.pow_succ']
              congr 1
              omega
    refine ⟨_, ha.units_eq.trans ?_⟩
    rw [unit_eq, Nat.mul_assoc, ← Nat.pow_add]
    congr 2
    omega

/-- **Only a whole double is what a whole number rounds to.** Either the number is the value of a
double, or 2⁵² is closer to it than every double that is not whole. -/
theorem not_roundsTo_natCast (h : ¬ unit ∣ units m) (n : ℕ) : ¬ RoundsTo n m := by
  intro hround
  have hvalue : ∀ {k n : ℕ}, units k = n * unit → value k = n := fun {k n} hk => by
    rw [value, hk, Nat.cast_mul, mul_div_cancel_right₀ _ cast_unit_ne_zero]
  rcases Nat.lt_or_ge n (2 * fractionSize) with hn | hn
  · obtain ⟨k, hk⟩ := exists_units_eq hn
    rw [← hvalue hk] at hround
    obtain rfl := hround.unique (roundsTo_value k)
    exact h ⟨n, by rw [hk, Nat.mul_comm]⟩
  · obtain ⟨k, hk⟩ := exists_units_eq (n := fractionSize) (by have := fractionSize_pos; omega)
    have hm : value m < fractionSize := by
      rw [value, div_lt_iff₀ cast_unit_pos]
      exact_mod_cast units_lt_of_not_dvd h
    have hle : (fractionSize : ℚ) ≤ n := Nat.cast_le.2 (by omega)
    have hnearest := hround.nearest k
    rw [hvalue hk, abs_of_nonneg (by linarith), abs_of_nonneg (by linarith)] at hnearest
    linarith

end Exemplar.Binary64
