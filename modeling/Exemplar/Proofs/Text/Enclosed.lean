import Exemplar.Proofs.Text.Depth

/-!
# Proofs/Text/Enclosed — what stands between two brackets that belong together

The inside of an enclosed text is balanced, and a balanced text is what stands inside the brackets
put around it (`enclosed_eq_some_iff`).  A square bracket always closes (`enclosed_square_iff`); an
angle bracket does not where it would end an arrow (`enclosed_angle_iff`).
-/

namespace Exemplar.Text

variable {x : Place} {c e first last prev : Char} {s t : List Char}

namespace Place

/-- From `x` on, `t` is `s` and then the character that first takes the depth below 0. -/
structure Closes (x : Place) (t s : List Char) (c : Char) : Prop where
  eq_concat : t = s ++ [c]
  nonneg : ∀ p, p <+: s → 0 ≤ (x.after p).depth
  depth_eq : (x.after s).depth = 0
  tilt_eq : tilt (x.after s).prev c = .closes

theorem closes_nil_iff : x.Closes (e :: t) [] c
    ↔ t = [] ∧ e = c ∧ x.depth = 0 ∧ tilt x.prev e = .closes := by
  constructor
  · rintro ⟨h, -, hd, ht⟩
    obtain ⟨rfl, rfl⟩ := List.cons.inj h
    exact ⟨rfl, rfl, hd, ht⟩
  · rintro ⟨rfl, rfl, hd, ht⟩
    exact ⟨rfl, fun p hp => by rw [List.prefix_nil.1 hp]; exact Int.le_of_eq hd.symm, hd, ht⟩

/-- Closing is looked for one character further on. -/
theorem closes_cons_iff (hx : 0 ≤ x.depth) :
    x.Closes (e :: t) (e :: s) c ↔ (x.step e).Closes t s c := by
  constructor
  · rintro ⟨h, hn, hd, ht⟩
    exact ⟨(List.cons.inj h).2, fun p hp => hn (e :: p) (List.cons_prefix_cons.2 ⟨rfl, hp⟩), hd, ht⟩
  · rintro ⟨rfl, hn, hd, ht⟩
    refine ⟨rfl, fun p hp => ?_, hd, ht⟩
    rcases List.prefix_cons_iff.1 hp with rfl | ⟨q, rfl, hq⟩
    · exact hx
    · exact hn q hq

/-- Where the first character does not close, it is the first of the inside. -/
theorem exists_closes_iff (hx : 0 ≤ x.depth) (h : ¬ (x.depth = 0 ∧ tilt x.prev e = .closes)) :
    (∃ c, x.Closes (e :: t) s c) ↔ ∃ s', (∃ c, (x.step e).Closes t s' c) ∧ e :: s' = s := by
  constructor
  · rintro ⟨c, hc⟩
    cases s with
    | nil => exact absurd (closes_nil_iff.1 hc).2.2 h
    | cons e' s =>
      obtain rfl : e = e' := (List.cons.inj hc.eq_concat).1
      exact ⟨s, ⟨c, (closes_cons_iff hx).1 hc⟩, rfl⟩
  · rintro ⟨s', ⟨c, hc⟩, rfl⟩
    exact ⟨c, (closes_cons_iff hx).2 hc⟩

/-- Below depth 0 nothing closes any more. -/
theorem not_closes (hx : x.depth < 0) : ¬ x.Closes t s c :=
  fun h => absurd (h.nonneg [] List.nil_prefix) (by simpa using hx)

/-- Where the first character does close, it is the whole text. -/
theorem exists_closes_iff_of_closing (hx : x.depth = 0) (h : tilt x.prev e = .closes) :
    (∃ c, x.Closes (e :: t) s c) ↔ t = [] ∧ s = [] := by
  constructor
  · rintro ⟨c, hc⟩
    cases s with
    | nil => exact ⟨(closes_nil_iff.1 hc).1, rfl⟩
    | cons e' s =>
      obtain rfl : e = e' := (List.cons.inj hc.eq_concat).1
      refine absurd ((closes_cons_iff (Int.le_of_eq hx.symm)).1 hc) (not_closes ?_)
      simp [step, h, Tilt.shift, hx]
  · rintro ⟨rfl, rfl⟩
    exact ⟨e, closes_nil_iff.2 ⟨rfl, rfl, hx, h⟩⟩

end Place

/-- The recursion follows the scan from one below the depth of the text. -/
theorem closedAtEnd_eq_some_iff {d : Nat} :
    closedAtEnd d prev t = some s ↔ ∃ c, Place.Closes ⟨d, prev⟩ t s c := by
  induction t generalizing d prev s with
  | nil =>
    simp only [closedAtEnd, reduceCtorEq, false_iff, not_exists]
    exact fun c h => by simpa using h.eq_concat
  | cons e t ih =>
    have hd : (0 : Int) ≤ (⟨d, prev⟩ : Place).depth := Int.natCast_nonneg d
    cases ht : tilt prev e with
    | opens =>
      rw [Place.exists_closes_iff hd (by simp [ht])]
      simp only [closedAtEnd, ht, Option.map_eq_some_iff, ih, Place.step, Tilt.shift]
      push_cast
      rfl
    | flat =>
      rw [Place.exists_closes_iff hd (by simp [ht])]
      simp only [closedAtEnd, ht, Option.map_eq_some_iff, ih, Place.step, Tilt.shift]
    | closes =>
      cases d with
      | succ d =>
        rw [Place.exists_closes_iff hd (by simp only; omega)]
        simp only [closedAtEnd, ht, Option.map_eq_some_iff, ih, Place.step, Tilt.shift]
        push_cast
        simp only [Int.add_sub_cancel]
      | zero =>
        rw [Place.exists_closes_iff_of_closing rfl ht]
        cases t <;> simp [closedAtEnd, ht, eq_comm]

/-- Behind a character that begins no arrow, the inside is a balanced text. -/
theorem closes_iff_balanced (h : first ≠ '-') : Place.Closes ⟨0, first⟩ t s c
    ↔ t = s ++ [c] ∧ Balanced s ∧ tilt (s.getLastD first) c = .closes := by
  have hd : ∀ p, (Place.after ⟨0, first⟩ p).depth = depth p := fun p => by
    rw [depth_after fun h' => absurd h' h, Int.zero_add]
  constructor
  · rintro ⟨ht, hn, h0, hc⟩
    rw [Place.prev_after] at hc
    exact ⟨ht, ⟨fun p hp => hd p ▸ hn p hp, hd s ▸ h0⟩, hc⟩
  · rintro ⟨ht, hb, hc⟩
    refine ⟨ht, fun p hp => (hd p).symm ▸ hb.grounded p hp, (hd s).trans hb.depth_eq, ?_⟩
    rwa [Place.prev_after]

/-- **The inside of an enclosed text is balanced**, and a balanced text is the inside of the text
that encloses it. -/
theorem enclosed_eq_some_iff (h : first ≠ '-') : enclosed first last t = some s
    ↔ t = first :: s ++ [last] ∧ Balanced s ∧ tilt (s.getLastD first) last = .closes := by
  cases t with
  | nil => simp [enclosed]
  | cons e t =>
    by_cases hc : e = first ∧ t.getLast? = some last
    · obtain ⟨rfl, hl⟩ := hc
      rw [enclosed, if_pos ⟨rfl, hl⟩, closedAtEnd_eq_some_iff]
      simp only [Int.ofNat_zero, closes_iff_balanced h, List.cons_append, List.cons.injEq, true_and]
      constructor
      · rintro ⟨c, rfl, hb, hc⟩
        obtain rfl : c = last := by simpa using hl
        exact ⟨rfl, hb, hc⟩
      · exact fun hr => ⟨last, hr⟩
    · rw [enclosed, if_neg hc]
      simp only [reduceCtorEq, false_iff]
      rintro ⟨ht, -⟩
      obtain ⟨rfl, rfl⟩ := List.cons.inj ht
      exact hc ⟨rfl, by simp⟩

/-- A square bracket at the end closes whatever stands before it. -/
theorem enclosed_square_iff : enclosed '[' ']' t = some s ↔ t = '[' :: s ++ [']'] ∧ Balanced s := by
  rw [enclosed_eq_some_iff (by decide), and_iff_left tilt_square_close]

/-- An angle bracket at the end must not be the end of an arrow. -/
theorem enclosed_angle_iff : enclosed '<' '>' t = some s
    ↔ t = '<' :: s ++ ['>'] ∧ Balanced s ∧ s.getLast? ≠ some '-' := by
  rw [enclosed_eq_some_iff (by decide), tilt_angle_close_iff (by decide)]

end Exemplar.Text
