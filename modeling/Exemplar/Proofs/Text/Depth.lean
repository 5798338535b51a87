import Exemplar.Proofs.Text.Trim
import Exemplar.Text.Bracket
import Mathlib.Data.List.Infix

/-!
# Proofs/Text/Depth — the bracket depth of a text

    depth "a[b"  = 1        depth "() -> [b]" = 0        depth "]" = -1

`depth` is where one scan of a text ends.  It adds up over texts that do not meet in an arrow
(`depth_append`), so a scan can be cut anywhere else and its parts taken on their own.  A text is
`Grounded` when the scan never falls below 0 and `Balanced` when it also ends there; both are closed
under the ways in which texts are put between brackets and side by side.
-/

namespace Exemplar.Text

variable {a b p s l r : List Char} {c o prev prev' : Char}

/-! ## One character -/

theorem tilt_of_not_bracket (h : isBracket c = false) : tilt prev c = .flat := by
  simp only [isBracket, Bool.or_eq_false_iff, decide_eq_false_iff_not] at h
  simp [tilt, h]

/-- Only the end of an arrow depends on what stands before it. -/
theorem tilt_congr (h : c = '>' → (prev = '-' ↔ prev' = '-')) : tilt prev c = tilt prev' c := by
  by_cases hc : c = '>'
  · simp [tilt, hc, h hc]
  · simp [tilt, hc]

@[simp] theorem tilt_square_close : tilt prev ']' = .closes := by simp [tilt]

theorem noChar_ne_dash : noChar ≠ '-' := by decide

/-- An angle bracket at the end closes unless it ends an arrow. -/
theorem tilt_angle_close_iff (h : prev ≠ '-') :
    tilt (s.getLastD prev) '>' = .closes ↔ s.getLast? ≠ some '-' := by
  cases s using List.reverseRecOn with
  | nil => simp [tilt, h]
  | append_singleton s c => by_cases hc : c = '-' <;> simp [tilt, hc]

theorem Tilt.shift_add (t : Tilt) (d e : Int) : t.shift (d + e) = t.shift d + e := by
  cases t <;> simp only [Tilt.shift] <;> omega

theorem Tilt.le_shift (t : Tilt) (d : Int) : d - 1 ≤ t.shift d := by
  cases t <;> simp only [Tilt.shift] <;> omega

/-! ## The scan -/

/-- Where a scan stands: the depth, and the character it has just passed. -/
structure Place where
  depth : Int
  prev : Char

namespace Place

/-- Where the scan of a text starts. -/
def start : Place := ⟨0, noChar⟩

def step (x : Place) (c : Char) : Place := ⟨(tilt x.prev c).shift x.depth, c⟩

/-- Where a scan stands after a text. -/
def after (x : Place) (s : List Char) : Place := s.foldl step x

variable {x : Place}

@[simp] theorem after_nil : x.after [] = x := rfl

@[simp] theorem after_cons : x.after (c :: s) = (x.step c).after s := rfl

@[simp] theorem after_append : x.after (a ++ b) = (x.after a).after b := List.foldl_append

theorem step_of_not_bracket (h : isBracket c = false) : x.step c = ⟨x.depth, c⟩ := by
  rw [step, tilt_of_not_bracket h, Tilt.shift]

/-- The last character of a text is what the next one comes after. -/
theorem prev_after (x : Place) (s : List Char) : (x.after s).prev = s.getLastD x.prev := by
  induction s generalizing x with
  | nil => rfl
  | cons c s ih => rw [after_cons, ih, List.getLastD_cons]; rfl

/-- A scan that starts higher stays higher by as much. -/
theorem depth_after_add (d e : Int) (prev : Char) (s : List Char) :
    (after ⟨d + e, prev⟩ s).depth = (after ⟨d, prev⟩ s).depth + e := by
  induction s generalizing d prev with
  | nil => rfl
  | cons c s ih => simp only [after_cons, step, Tilt.shift_add, ih]

end Place

/-- The depth at the end of a text. -/
def depth (s : List Char) : Int := (Place.start.after s).depth

/-- No arrow begins in `a` and ends in `b`. -/
def Apart (a b : List Char) : Prop := a.getLast? = some '-' → b.head? ≠ some '>'

@[simp] theorem depth_nil : depth [] = 0 := rfl

/-- A scan that does not enter `s` inside an arrow adds the depth of `s`. -/
theorem depth_after {x : Place} (h : x.prev = '-' → s.head? ≠ some '>') :
    (x.after s).depth = x.depth + depth s := by
  cases s with
  | nil => simp
  | cons c s =>
    have ht : tilt x.prev c = tilt noChar c :=
      tilt_congr fun hc =>
        ⟨fun hx => absurd (by simp [hc]) (h hx), fun hn => absurd hn noChar_ne_dash⟩
    have hs : x.step c = ⟨(tilt noChar c).shift 0 + x.depth, c⟩ := by
      rw [Place.step, ht, ← Tilt.shift_add, Int.zero_add]
    rw [Place.after_cons, hs, Place.depth_after_add, Int.add_comm]
    rfl

/-- **Depths add up.** -/
theorem depth_append (h : Apart a b) : depth (a ++ b) = depth a + depth b := by
  have hprev : (Place.start.after a).prev = '-' → b.head? ≠ some '>' := by
    rw [Place.prev_after]
    cases a using List.reverseRecOn with
    | nil => exact fun h' => absurd h' noChar_ne_dash
    | append_singleton a c => simpa [Apart] using h
  rw [depth, Place.after_append, depth_after hprev]
  rfl

theorem apart_concat (h : c ≠ '-') : Apart (a ++ [c]) b := fun h' => by simp_all

theorem apart_of_head (h : b.head? ≠ some '>') : Apart a b := fun _ => h

theorem apart_blank (h : Blank a) : Apart a b := fun h' =>
  absurd (h _ (List.mem_of_getLast? h')) (by decide)

theorem depth_cons (h : c ≠ '-') : depth (c :: s) = depth [c] + depth s :=
  depth_append (a := [c]) (apart_concat (a := []) h)

/-- The last character moves the depth by its own tilt. -/
theorem depth_concat (s : List Char) (c : Char) :
    depth (s ++ [c]) = (tilt (s.getLastD noChar) c).shift (depth s) := by
  rw [depth, Place.after_append, Place.after_cons, Place.after_nil, Place.step, Place.prev_after]
  rfl

/-! ## Texts without brackets -/

/-- A text without brackets. -/
def Flat (s : List Char) : Prop := ∀ c ∈ s, isBracket c = false

instance (s : List Char) : Decidable (Flat s) := List.decidableBAll (fun c => isBracket c = false) s

theorem Blank.flat (h : Blank s) : Flat s := by
  intro c hc
  by_contra hb
  simp only [isBracket, Bool.not_eq_false, Bool.or_eq_true, decide_eq_true_eq] at hb
  rcases hb with ((((rfl | rfl) | rfl) | rfl) | rfl) | rfl <;> exact absurd (h _ hc) (by decide)

/-- A text without brackets cannot turn a dash before it into an arrow. -/
theorem Flat.apart (h : Flat b) : Apart a b :=
  apart_of_head fun h' => absurd (h _ (List.mem_of_head? h')) (by decide)

theorem Flat.depth_eq (h : Flat s) : depth s = 0 := by
  have key : ∀ x : Place, (x.after s).depth = x.depth := by
    induction s with
    | nil => exact fun _ => rfl
    | cons c s ih =>
      intro x
      rw [Place.after_cons, ih (fun d hd => h d (List.mem_cons_of_mem c hd)),
        Place.step_of_not_bracket (h c List.mem_cons_self)]
  exact key Place.start

theorem Flat.of_prefix (h : Flat s) (hp : p <+: s) : Flat p := fun c hc => h c (hp.subset hc)

/-! ## Texts that stay above the ground -/

/-- The scan never falls below depth 0. -/
def Grounded (s : List Char) : Prop := ∀ p, p <+: s → 0 ≤ depth p

/-- Brackets are closed no sooner than opened, and all of them are. -/
structure Balanced (s : List Char) : Prop where
  grounded : Grounded s
  depth_eq : depth s = 0

instance (s : List Char) : Decidable (Balanced s) :=
  decidable_of_iff ((∀ p ∈ s.inits, 0 ≤ depth p) ∧ depth s = 0)
    ⟨fun h => ⟨fun p hp => h.1 p ((List.mem_inits p s).2 hp), h.2⟩,
      fun h => ⟨fun p hp => h.1 p ((List.mem_inits p s).1 hp), h.2⟩⟩

theorem prefix_append_iff : p <+: a ++ b ↔ p <+: a ∨ ∃ q, q <+: b ∧ p = a ++ q := by
  constructor
  · intro h
    rcases List.prefix_or_prefix_of_prefix h (List.prefix_append a b) with h' | ⟨q, rfl⟩
    · exact Or.inl h'
    · exact Or.inr ⟨q, (List.prefix_append_right_inj a).1 h, rfl⟩
  · rintro (h | ⟨q, hq, rfl⟩)
    · exact h.trans (List.prefix_append a b)
    · exact (List.prefix_append_right_inj a).2 hq

theorem Apart.of_prefix (h : Apart a b) (hp : p <+: b) : Apart a p := by
  obtain ⟨q, rfl⟩ := hp
  cases p with
  | nil => exact fun _ => by simp
  | cons c p => exact h

/-- The scan of a text put behind another one starts at the depth reached there. -/
theorem grounded_append_iff (h : Apart a b) :
    Grounded (a ++ b) ↔ Grounded a ∧ ∀ p, p <+: b → 0 ≤ depth a + depth p := by
  constructor
  · refine fun hg => ⟨fun p hp => hg p (hp.trans (List.prefix_append a b)), fun p hp => ?_⟩
    rw [← depth_append (h.of_prefix hp)]
    exact hg _ ((List.prefix_append_right_inj a).2 hp)
  · rintro ⟨ha, hb⟩ p hp
    rcases prefix_append_iff.1 hp with hp | ⟨q, hq, rfl⟩
    · exact ha p hp
    · rw [depth_append (h.of_prefix hq)]
      exact hb q hq

theorem Grounded.depth_nonneg (h : Grounded s) : 0 ≤ depth s := h s List.prefix_rfl

/-- What starts with a closing bracket goes below the ground. -/
theorem Grounded.head (h : Grounded s) : s.head? ≠ some '>' := by
  cases s with
  | nil => simp
  | cons c s =>
    rintro ⟨rfl⟩
    exact absurd (h ['>'] (by simp)) (by decide)

theorem Flat.grounded (h : Flat s) : Grounded s := fun _ hp =>
  Int.le_of_eq (h.of_prefix hp).depth_eq.symm

theorem Flat.balanced (h : Flat s) : Balanced s := ⟨h.grounded, h.depth_eq⟩

/-- A text put behind a grounded one stays above the ground if it does so on its own. -/
theorem Grounded.append (ha : Grounded a) (hb : Grounded b) : Grounded (a ++ b) := by
  rw [grounded_append_iff (apart_of_head hb.head)]
  exact ⟨ha, fun p hp => Int.add_nonneg ha.depth_nonneg (hb p hp)⟩

theorem Balanced.append (ha : Balanced a) (hb : Balanced b) : Balanced (a ++ b) :=
  ⟨ha.grounded.append hb.grounded, by
    rw [depth_append (apart_of_head hb.grounded.head), ha.depth_eq, hb.depth_eq]
    rfl⟩

/-! ## Putting texts between brackets, blanks and separators -/

theorem depth_square_open : depth ['['] = 1 := rfl

theorem depth_angle_open : depth ['<'] = 1 := rfl

theorem ne_dash_of_opens (ho : depth [o] = 1) : o ≠ '-' := by
  rintro rfl
  exact absurd ho (by decide)

theorem apart_singleton (h : c ≠ '-') : Apart [c] b := apart_concat (a := []) h

theorem grounded_singleton (h : 0 ≤ depth [c]) : Grounded [c] := by
  intro p hp
  rcases List.prefix_cons_iff.1 hp with rfl | ⟨q, rfl, hq⟩
  · exact Int.le_refl 0
  · rwa [List.prefix_nil.1 hq]

/-- A grounded text between an opening bracket and any one character. -/
theorem Grounded.wrap (ho : depth [o] = 1) (hs : Grounded s) (c : Char) :
    Grounded (o :: s ++ [c]) := by
  change Grounded ([o] ++ (s ++ [c]))
  rw [grounded_append_iff (apart_singleton (ne_dash_of_opens ho)), ho]
  refine ⟨grounded_singleton (by omega), fun p hp => ?_⟩
  rcases List.prefix_concat_iff.1 hp with rfl | hp
  · have hle := (tilt (s.getLastD noChar) c).le_shift (depth s)
    have hnn := hs.depth_nonneg
    rw [depth_concat]
    omega
  · have hnn := hs p hp
    omega

/-- Between brackets a text keeps its depth, if the last one closes. -/
theorem depth_wrap (ho : depth [o] = 1) (hc : tilt (s.getLastD noChar) c = .closes) :
    depth (o :: s ++ [c]) = depth s := by
  rw [List.cons_append, depth_cons (ne_dash_of_opens ho), ho, depth_concat, hc, Tilt.shift]
  omega

/-- **A balanced text stays balanced between brackets**, if the last one closes. -/
theorem Balanced.wrap (ho : depth [o] = 1) (hc : tilt (s.getLastD noChar) c = .closes)
    (hs : Balanced s) : Balanced (o :: s ++ [c]) :=
  ⟨hs.grounded.wrap ho c, by rw [depth_wrap ho hc, hs.depth_eq]⟩

/-- What has no brackets adds nothing to the balance. -/
theorem balanced_append_flat_iff (hr : Flat r) : Balanced (s ++ r) ↔ Balanced s := by
  refine ⟨fun h => ⟨fun p hp => h.grounded p (hp.trans (List.prefix_append s r)), ?_⟩,
    fun h => h.append hr.balanced⟩
  have hd := h.depth_eq
  rw [depth_append hr.apart, hr.depth_eq] at hd
  omega

/-- A text behind one of depth 0 is balanced if the two together are. -/
theorem balanced_of_append (ha : depth a = 0) (h : Apart a b) (hab : Balanced (a ++ b)) :
    Balanced b := by
  refine ⟨fun p hp => ?_, ?_⟩
  · have := ((grounded_append_iff h).1 hab.grounded).2 p hp
    omega
  · have := hab.depth_eq
    rw [depth_append h] at this
    omega

/-- **Trimming keeps the balance of a text, and blanks around it do not disturb it.** -/
theorem balanced_trim_iff : Balanced (trim s) ↔ Balanced s := by
  obtain ⟨l, r, hl, hr, h⟩ := exists_eq_append_trim s
  have hiff : Balanced (l ++ trim s) ↔ Balanced (trim s) :=
    ⟨balanced_of_append hl.flat.depth_eq (apart_blank hl), hl.flat.balanced.append⟩
  conv_rhs => rw [h, balanced_append_flat_iff hr.flat, hiff]

/-- A character that the scan passes as if it were not there. -/
structure Separator (c : Char) : Prop where
  not_bracket : isBracket c = false
  ne_dash : c ≠ '-'

theorem separator_colon : Separator ':' := ⟨by decide, by decide⟩

theorem separator_comma : Separator ',' := ⟨by decide, by decide⟩

theorem Separator.flat (h : Separator c) : Flat [c] := fun d hd => by
  rw [List.mem_singleton.1 hd, h.not_bracket]

theorem Separator.ne_bracket (h : Separator c) (ho : isBracket o = true) : c ≠ o := by
  rintro rfl
  exact Bool.false_ne_true (h.not_bracket.symm.trans ho)

/-- **A separator at depth 0 divides a balanced text into balanced ones.** -/
theorem balanced_append_cons_iff (hc : Separator c) (ha : depth a = 0) :
    Balanced (a ++ c :: b) ↔ Balanced a ∧ Balanced b := by
  have hflat := hc.flat
  have hapart : Apart a (c :: b) := apart_of_head fun h =>
    hc.ne_bracket (o := '>') rfl (by simpa using h)
  constructor
  · intro h
    have hg := (grounded_append_iff hapart).1 h.grounded
    have hcb : Balanced ([c] ++ b) := balanced_of_append ha hapart h
    exact ⟨⟨hg.1, ha⟩, balanced_of_append hflat.depth_eq (apart_singleton hc.ne_dash) hcb⟩
  · rintro ⟨ha, hb⟩
    exact ha.append (hflat.balanced.append hb)

end Exemplar.Text
