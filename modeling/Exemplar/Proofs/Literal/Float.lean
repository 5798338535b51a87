import Exemplar.Literal.Render
import Exemplar.Proofs.Decimal.ReadsBack

/-!
# Proofs/Literal/Float — a float is written with a point, and read back from what is written

    0x3FE0000000000000   ──▸   "0.5"   ──▸   5 / 10   ──▸   0x3FE0000000000000

The text of a finite double is a dash if the sign bit is set, and digits on both sides of a point
(`exists_floatChars`).  The number that the digits stand for rounds to the double and to no other,
so the text tells the bits (`render_float`).
-/

namespace Exemplar

open Decimal (PointNumeral)

namespace Binary64

variable {x y : Binary64}

/-- The bits of a double are its sign and its magnitude. -/
theorem toNat_bits (x : Binary64) :
    x.bits.toNat = (if x.isNegative then signWeight else 0) + x.magnitude := by
  have hbound : x.bits.toNat < 2 * signWeight := x.bits.toNat_lt
  rw [isNegative, magnitude]
  by_cases h : signWeight ≤ x.bits.toNat
  · rw [decide_eq_true h, if_pos rfl, Nat.mod_eq_sub_mod h, Nat.mod_eq_of_lt (by omega)]
    omega
  · rw [decide_eq_false h, Nat.mod_eq_of_lt (by omega)]
    simp

/-- A double is its sign and its magnitude. -/
theorem eq_of_magnitude_eq (hsign : x.isNegative = y.isNegative)
    (hmagnitude : x.magnitude = y.magnitude) : x = y := by
  have hbits : x.bits.toNat = y.bits.toNat := by
    rw [toNat_bits, toNat_bits, hsign, hmagnitude]
  cases x
  cases y
  exact congrArg Binary64.mk (UInt64.toNat_inj.1 hbits)

theorem isNaN_of_isFinite (h : x.isFinite = true) : x.isNaN = false := by
  have hlt : x.magnitude < infinityMagnitude := of_decide_eq_true h
  exact decide_eq_false (by omega)

/-- A double is a whole number exactly if its units make up whole ones. -/
theorem isIntegral_iff (h : x.isFinite = true) :
    x.isIntegral = true ↔ unit ∣ units x.magnitude := by
  rw [isIntegral, h, Bool.true_and, decide_eq_true_iff, Nat.dvd_iff_mod_eq_zero]

/-- A double is whole if its value is a whole number. -/
theorem dvd_of_value_eq {m n : ℕ} (h : value m = n) : unit ∣ units m := by
  rw [value, div_eq_iff cast_unit_ne_zero] at h
  exact ⟨n, by rw [Nat.mul_comm]; exact_mod_cast h⟩

end Binary64

namespace Literal

variable {x y : Binary64}

/-- `WritesMagnitude ds n k m`: the digits `ds` around a point stand for `n / 10 ^ k`.  That number
rounds to the double with magnitude bits `m`, and is its value if the double is whole. -/
structure WritesMagnitude (ds : List Char) (n k m : ℕ) : Prop where
  numeral : PointNumeral ds n k
  rounds : Binary64.RoundsTo (n / 10 ^ k) m
  exact_of_dvd : Binary64.unit ∣ Binary64.units m → (n / 10 ^ k : ℚ) = Binary64.value m

/-- What is written for a magnitude rounds to it, in each of the ways to write one. -/
theorem exists_finiteChars (h : x.isFinite = true) :
    ∃ n k, WritesMagnitude (finiteChars x) n k x.magnitude := by
  rw [finiteChars]
  by_cases hwhole : Binary64.unit ∣ Binary64.units x.magnitude
  · obtain ⟨n, hn⟩ := hwhole
    have hunit := Binary64.cast_unit_ne_zero
    have hvalue : ((10 * n : ℕ) / 10 ^ 1 : ℚ) = Binary64.value x.magnitude := by
      rw [Binary64.value, hn]
      push_cast
      field_simp
    rw [if_pos ((Binary64.isIntegral_iff h).2 ⟨n, hn⟩), hn,
      Nat.mul_div_cancel_left _ Binary64.unit_pos]
    have htext : PointNumeral (Nat.toDigits 10 n ++ ['.', '0']) (10 * n) 1 :=
      .mk Nat.toDigits_ne_nil (List.cons_ne_nil '0' []) (Decimal.digits_toDigits n).concat_zero
    exact ⟨10 * n, 1, htext, hvalue ▸ Binary64.roundsTo_value _, fun _ => hvalue⟩
  · obtain ⟨k, htext, hvalue⟩ := Decimal.pointNumeral_positional
      (Decimal.exponent_shortest_neg .toGreater hwhole)
    rw [if_neg (mt (Binary64.isIntegral_iff h).1 hwhole)]
    have hround := Decimal.roundsTo_shortest .toGreater x.magnitude
    exact ⟨_, k, htext, hvalue ▸ hround, fun h => absurd h hwhole⟩

theorem floatChars_of_isFinite (h : x.isFinite = true) :
    floatChars x = (if x.isNegative then ['-'] else []) ++ finiteChars x := by
  rw [floatChars, Binary64.isNaN_of_isFinite h, h]
  rfl

/-- A finite double is written by its sign and its magnitude. -/
theorem exists_floatChars (h : x.isFinite = true) :
    ∃ ds n k, floatChars x = (if x.isNegative then ['-'] else []) ++ ds ∧
      WritesMagnitude ds n k x.magnitude := by
  obtain ⟨n, k, hwrites⟩ := exists_finiteChars h
  exact ⟨_, n, k, floatChars_of_isFinite h, hwrites⟩

/-- A sign and what follows it are told by the text. -/
theorem signed_inj {a b : Bool} {s t : List Char} (hs : s.head? ≠ some '-')
    (ht : t.head? ≠ some '-')
    (h : (if a then ['-'] else []) ++ s = (if b then ['-'] else []) ++ t) : a = b ∧ s = t := by
  cases a with
  | false =>
    cases b with
    | false => exact ⟨rfl, h⟩
    | true => exact absurd (congrArg List.head? h) hs
  | true =>
    cases b with
    | false => exact absurd (congrArg List.head? h).symm ht
    | true => exact ⟨rfl, (List.cons.inj h).2⟩

/-- **No two finite doubles are written alike**, as each text rounds to one of them only. -/
theorem eq_of_floatChars_eq (hx : x.isFinite = true) (hy : y.isFinite = true)
    (h : floatChars x = floatChars y) : x = y := by
  obtain ⟨ds, n, k, hxtext, ⟨hds, hxround, -⟩⟩ := exists_floatChars hx
  obtain ⟨ds', n', k', hytext, ⟨hds', hyround, -⟩⟩ := exists_floatChars hy
  rw [hxtext, hytext] at h
  have hdash : '-'.isDigit = false := by decide
  obtain ⟨hsign, rfl⟩ := signed_inj (hds.head?_ne hdash) (hds'.head?_ne hdash) h
  obtain ⟨rfl, rfl⟩ := hds.unique hds'
  exact Binary64.eq_of_magnitude_eq hsign (hxround.unique hyround)

/-- A float has a point, so it is no integer. -/
theorem mem_floatChars (h : x.isFinite = true) : '.' ∈ floatChars x := by
  obtain ⟨ds, n, k, htext, hwrites⟩ := exists_floatChars h
  obtain ⟨-, -, -⟩ := hwrites.numeral
  rw [htext]
  simp

theorem toList_render (l : Literal) (accessor : String) :
    (l.render accessor).toList = l.chars accessor.toList := by
  rw [render, String.toList_ofList]

/-- **A finite float is written with a point and without an exponent, and its text tells its bits.**
The text is a dash if the sign bit is set, and digits on both sides of a point.  The number that
these stand for rounds to the magnitude bits and to no others, and it is the exact value if that is
whole.  No other finite float has the text, and no whole number has it. -/
theorem render_float (x : Binary64) (hx : x.isFinite = true) (accessor : String) :
    (∃ (ds : List Char) (n k : ℕ),
      ((float x).render accessor).toList = (if x.isNegative then ['-'] else []) ++ ds ∧
        PointNumeral ds n k ∧
        (∀ m, Binary64.RoundsTo (n / 10 ^ k) m ↔ m = x.magnitude) ∧
        Binary64.nearest n (10 ^ k) = x.magnitude ∧
        ((∃ z : ℕ, Binary64.value x.magnitude = z) →
          (n / 10 ^ k : ℚ) = Binary64.value x.magnitude)) ∧
      (∀ (y : Binary64) (accessor' : String), y.isFinite = true →
        (float y).render accessor' = (float x).render accessor → y = x) ∧
      ∀ (z : Int64) (accessor' : String),
        (integer z).render accessor' ≠ (float x).render accessor := by
  refine ⟨?_, fun y accessor' hy h => ?_, fun z accessor' h => ?_⟩
  · obtain ⟨ds, n, k, htext, ⟨hds, hround, hwhole⟩⟩ := exists_floatChars hx
    refine ⟨ds, n, k, ?_, hds, fun m => ⟨fun h => h.unique hround, ?_⟩, ?_, ?_⟩
    · rw [toList_render, chars, htext]
    · rintro rfl
      exact hround
    · refine (Binary64.roundsTo_iff_nearest (Nat.pow_pos (by omega))).1 ?_
      exact_mod_cast hround
    · rintro ⟨z, hz⟩
      exact hwhole (Binary64.dvd_of_value_eq hz)
  · have hchars := congrArg String.toList h
    rw [toList_render, toList_render, chars, chars] at hchars
    exact eq_of_floatChars_eq hy hx hchars
  · have hchars := congrArg String.toList h
    rw [toList_render, toList_render, chars, chars] at hchars
    rcases Decimal.isDigit_of_mem_intChars (hchars ▸ mem_floatChars hx) with h | h
    · exact absurd h (by decide)
    · exact absurd h (by decide)

/-- A tenth and two tenths added up as doubles, with the sign bit set: the decimal is the shortest,
not the exact value. -/
theorem render_float_of_inexact_sum :
    (⟨0xBFD3333333333334⟩ : Binary64).isFinite = true ∧
      (float ⟨0xBFD3333333333334⟩).render "sample" = "-0.30000000000000004" ∧
      Binary64.nearest 30000000000000004 (10 ^ 17)
        = (⟨0xBFD3333333333334⟩ : Binary64).magnitude := by
  have hfinite : (⟨0xBFD3333333333334⟩ : Binary64).isFinite = true := by decide
  have htext : (float ⟨0xBFD3333333333334⟩).render "sample" = "-0.30000000000000004" :=
    congrArg String.ofList (by decide +kernel :
      floatChars ⟨0xBFD3333333333334⟩ = "-0.30000000000000004".toList)
  have hfraction : "30000000000000004".toList ≠ [] := by decide
  have hdigits : PointNumeral "0.30000000000000004".toList 30000000000000004 17 :=
    .mk (List.cons_ne_nil '0' []) hfraction ⟨List.all_eq_true.1 rfl, by decide, by decide⟩
  obtain ⟨⟨ds, n, k, hrender, hds, -, hnearest, -⟩, -⟩ := render_float _ hfinite "sample"
  rw [htext] at hrender
  obtain rfl : ds = "0.30000000000000004".toList := (List.cons.inj hrender).2.symm
  obtain ⟨rfl, rfl⟩ := hds.unique hdigits
  exact ⟨hfinite, htext, hnearest⟩

end Literal

end Exemplar
