import Exemplar.Proofs.Text.Depth

/-!
# Proofs/Text/Split — where a text is split, and where it stays whole

Joining the parts of a split gives the text back (`intercalate_splitTop`).  A text is left whole
exactly when the separator never stands at depth 0 in it (`splitTop_eq_singleton_iff`), and a
separator that does stand there splits what is before it and what is behind it independently
(`splitTop_append_cons`).  So the split is the only way to take a text apart at depth 0
(`splitTop_decomposition`).
-/

namespace Exemplar.Text

variable {sep c o : Char} {a b p q s l r : List Char}

/-- The separator never stands at depth 0. -/
def TopFree (sep : Char) (s : List Char) : Prop := ∀ p q, s = p ++ sep :: q → depth p ≠ 0

instance (sep : Char) (s : List Char) : Decidable (TopFree sep s) :=
  decidable_of_iff (∀ p ∈ s.inits, p ++ [sep] <+: s → depth p ≠ 0)
    ⟨fun h p q hpq => h p ((List.mem_inits p s).2 ⟨_, hpq.symm⟩) ⟨q, by simp [hpq]⟩,
      fun h p _ ⟨q, hq⟩ => h p q (by simp [← hq])⟩

/-! ## Joining the parts -/

theorem intercalate_cons (sep item : List Char) (items : List (List Char)) :
    sep.intercalate (item :: items) = item ++ items.flatMap (sep ++ ·) := by
  induction items generalizing item with
  | nil => simp
  | cons next items ih =>
    rw [List.intercalate_cons_cons, ih, List.flatMap_cons, List.append_assoc, List.append_assoc]

theorem consPart_ne_nil (c : Char) (ps : List (List Char)) : consPart c ps ≠ [] := by
  cases ps <;> simp [consPart]

theorem consPart_append {ps : List (List Char)} (h : ps ≠ []) (qs : List (List Char)) :
    consPart c (ps ++ qs) = consPart c ps ++ qs := by
  cases ps with
  | nil => exact absurd rfl h
  | cons p ps => rfl

theorem intercalate_consPart {ps : List (List Char)} (h : ps ≠ []) :
    [sep].intercalate (consPart c ps) = c :: [sep].intercalate ps := by
  match ps, h with
  | [p], _ => simp [consPart]
  | p :: q :: ps, _ => simp [consPart, List.intercalate_cons_cons]

theorem splitTopFrom_ne_nil (sep : Char) (d : Int) (prev : Char) (s : List Char) :
    splitTopFrom sep d prev s ≠ [] := by
  cases s with
  | nil => simp [splitTopFrom]
  | cons c s =>
    rw [splitTopFrom]
    split
    · simp
    · exact consPart_ne_nil c _

theorem splitTop_ne_nil (sep : Char) (s : List Char) : splitTop sep s ≠ [] :=
  splitTopFrom_ne_nil sep 0 noChar s

/-- **The parts make up the text**, whatever the depth it is split from. -/
theorem intercalate_splitTopFrom (sep : Char) (d : Int) (prev : Char) (s : List Char) :
    [sep].intercalate (splitTopFrom sep d prev s) = s := by
  induction s generalizing d prev with
  | nil => simp [splitTopFrom]
  | cons c s ih =>
    have hne := splitTopFrom_ne_nil sep
    rw [splitTopFrom]
    split
    case isTrue h =>
      obtain ⟨p, ps, hp⟩ := List.exists_cons_of_ne_nil (hne d c s)
      rw [hp, List.intercalate_cons_cons, ← hp, ih, h.1]
      rfl
    case isFalse => rw [intercalate_consPart (hne _ c s), ih]

/-- **Joining the parts of a split gives the text back.** -/
theorem intercalate_splitTop (sep : Char) (s : List Char) :
    [sep].intercalate (splitTop sep s) = s := intercalate_splitTopFrom sep 0 noChar s

/-! ## One step of the split -/

section Step

variable {x : Place}

/-- A separator at depth 0 starts a part. -/
theorem splitTopFrom_cons_sep (hs : isBracket sep = false) (hx : x.depth = 0) :
    splitTopFrom sep x.depth x.prev (sep :: s)
      = [] :: splitTopFrom sep (x.step sep).depth (x.step sep).prev s := by
  rw [splitTopFrom, if_pos ⟨rfl, hs, hx⟩, Place.step_of_not_bracket hs]

/-- Any other character belongs to the part that it stands in. -/
theorem splitTopFrom_cons_of_not (h : ¬ (c = sep ∧ isBracket c = false ∧ x.depth = 0)) :
    splitTopFrom sep x.depth x.prev (c :: s)
      = consPart c (splitTopFrom sep (x.step c).depth (x.step c).prev s) := by
  rw [splitTopFrom, if_neg h]
  rfl

/-- A separator at depth 0 ends a part, and the rest is split as if it stood alone. -/
theorem splitTopFrom_append_cons (hs : isBracket sep = false) (ha : (x.after a).depth = 0) :
    splitTopFrom sep x.depth x.prev (a ++ sep :: b)
      = splitTopFrom sep x.depth x.prev a ++ splitTopFrom sep 0 sep b := by
  induction a generalizing x with
  | nil =>
    have hx : x.depth = 0 := ha
    rw [List.nil_append, splitTopFrom_cons_sep hs hx, Place.step_of_not_bracket hs, hx]
    rfl
  | cons c a ih =>
    rw [Place.after_cons] at ha
    by_cases h : c = sep ∧ isBracket c = false ∧ x.depth = 0
    · obtain ⟨rfl, -, hx⟩ := h
      rw [List.cons_append, splitTopFrom_cons_sep hs hx, ih ha, splitTopFrom_cons_sep hs hx]
      rfl
    · rw [List.cons_append, splitTopFrom_cons_of_not h, ih ha,
        consPart_append (splitTopFrom_ne_nil sep _ _ a), splitTopFrom_cons_of_not h]

/-- A text is not split where the separator never stands at depth 0. -/
theorem splitTopFrom_eq_singleton (h : ∀ p q, s = p ++ sep :: q → (x.after p).depth ≠ 0) :
    splitTopFrom sep x.depth x.prev s = [s] := by
  induction s generalizing x with
  | nil => rfl
  | cons c s ih =>
    have hc : ¬ (c = sep ∧ isBracket c = false ∧ x.depth = 0) :=
      fun hc => h [] s (by rw [hc.1]; rfl) hc.2.2
    rw [splitTopFrom_cons_of_not hc, ih fun p q hp => h (c :: p) q (by rw [hp]; rfl), consPart]

end Step

/-! ## Whole texts and pairs -/

theorem splitTop_of_topFree (h : TopFree sep s) : splitTop sep s = [s] :=
  splitTopFrom_eq_singleton (x := Place.start) h

/-- Behind the separator the split starts afresh, for a separator that begins no arrow. -/
theorem splitTopFrom_after_sep (hs : Separator sep) (b : List Char) :
    splitTopFrom sep 0 sep b = splitTop sep b := by
  cases b with
  | nil => rfl
  | cons c b =>
    have ht : tilt sep c = tilt noChar c :=
      tilt_congr fun _ => ⟨fun h => absurd h hs.ne_dash, fun h => absurd h noChar_ne_dash⟩
    rw [splitTop, splitTopFrom, splitTopFrom, ht]

/-- **A separator at depth 0 splits what is before it and what is behind it independently.** -/
theorem splitTop_append_cons (hs : Separator sep) (ha : depth a = 0) :
    splitTop sep (a ++ sep :: b) = splitTop sep a ++ splitTop sep b :=
  (splitTopFrom_append_cons (x := Place.start) hs.not_bracket ha).trans
    (congrArg (splitTop sep a ++ ·) (splitTopFrom_after_sep hs b))

/-- **A text is left whole exactly when the separator never stands at depth 0.** -/
theorem splitTop_eq_singleton_iff (hs : isBracket sep = false) :
    splitTop sep s = [s] ↔ TopFree sep s := by
  refine ⟨?_, splitTop_of_topFree⟩
  rintro h p q rfl hp
  have hsplit : splitTop sep (p ++ sep :: q) = splitTop sep p ++ splitTopFrom sep 0 sep q :=
    splitTopFrom_append_cons (x := Place.start) hs hp
  have hlen := congrArg List.length (h.symm.trans hsplit)
  have hp' := List.length_pos_of_ne_nil (splitTop_ne_nil sep p)
  have hq' := List.length_pos_of_ne_nil (splitTopFrom_ne_nil sep 0 sep q)
  rw [List.length_append, List.length_singleton] at hlen
  omega

/-- The one part of a text is the text. -/
theorem eq_of_splitTop_eq_singleton (h : splitTop sep s = [a]) : a = s := by
  have hj := intercalate_splitTop sep s
  rwa [h, List.intercalate_singleton] at hj

/-- A split in two is made at any separator at depth 0, so there is only one. -/
theorem eq_of_splitTop_eq_pair (hs : Separator sep) (hp : depth p = 0)
    (h : splitTop sep (p ++ sep :: q) = [a, b]) : splitTop sep p = [a] ∧ splitTop sep q = [b] := by
  have hp' := List.length_pos_of_ne_nil (splitTop_ne_nil sep p)
  have hq' := List.length_pos_of_ne_nil (splitTop_ne_nil sep q)
  rw [splitTop_append_cons hs hp] at h
  have hlen := congrArg List.length h
  rw [List.length_append, List.length_cons, List.length_singleton] at hlen
  exact List.append_inj h (by rw [List.length_singleton]; omega)

/-- **A split in two is made at the only separator at depth 0.** -/
theorem splitTop_eq_pair_iff (hs : Separator sep) :
    splitTop sep s = [a, b]
      ↔ s = a ++ sep :: b ∧ depth a = 0 ∧ TopFree sep a ∧ TopFree sep b := by
  constructor
  · intro h
    have hnot : ¬ TopFree sep s := fun hf => by
      rw [splitTop_of_topFree hf] at h
      simp at h
    simp only [TopFree, not_forall, not_not] at hnot
    obtain ⟨p, q, rfl, hp⟩ := hnot
    obtain ⟨ha, hb⟩ := eq_of_splitTop_eq_pair hs hp h
    obtain rfl := eq_of_splitTop_eq_singleton ha
    obtain rfl := eq_of_splitTop_eq_singleton hb
    refine ⟨rfl, hp, ?_, ?_⟩
    · exact (splitTop_eq_singleton_iff hs.not_bracket).1 ha
    · exact (splitTop_eq_singleton_iff hs.not_bracket).1 hb
  · rintro ⟨rfl, ha, hfa, hfb⟩
    rw [splitTop_append_cons hs ha, splitTop_of_topFree hfa, splitTop_of_topFree hfb]
    rfl

/-! ## Texts in which the separator never stands at depth 0 -/

theorem topFree_of_not_mem (h : sep ∉ s) : TopFree sep s := by
  rintro p q rfl
  simp at h

/-- A text put behind another one meets its separators at the depth reached there. -/
theorem topFree_append (h : Apart a b) (ha : TopFree sep a)
    (hb : ∀ p q, b = p ++ sep :: q → depth a + depth p ≠ 0) : TopFree sep (a ++ b) := by
  intro p q hpq
  rcases List.append_eq_append_iff.1 hpq with ⟨p', rfl, hp'⟩ | ⟨r, hr, hq⟩
  · rw [depth_append (h.of_prefix ⟨_, hp'.symm⟩)]
    exact hb p' q hp'
  · cases r with
    | nil =>
      rw [List.append_nil] at hr
      rw [← hr]
      simpa using hb [] q hq.symm
    | cons c r =>
      obtain ⟨rfl, rfl⟩ := List.cons.inj hq
      exact ha p r hr

/-- Two texts that are free of the separator are so together, if the first ends at depth 0. -/
theorem TopFree.append (h : Apart a b) (ha : TopFree sep a) (h0 : depth a = 0)
    (hb : TopFree sep b) : TopFree sep (a ++ b) :=
  topFree_append h ha fun p q hpq => by simpa [h0] using hb p q hpq

theorem TopFree.of_append (h : Apart a b) (h0 : depth a = 0) (hab : TopFree sep (a ++ b)) :
    TopFree sep b := by
  intro p q hpq
  have hp := hab (a ++ p) q (by rw [hpq, List.append_assoc])
  rwa [depth_append (h.of_prefix ⟨_, hpq.symm⟩), h0, Int.zero_add] at hp

/-- Between an opening bracket and one more character no separator stands at depth 0. -/
theorem Grounded.topFree_wrap (hs : Grounded s) (ho : depth [o] = 1) (hso : sep ≠ o) :
    TopFree sep (o :: s ++ [c]) := by
  change TopFree sep ([o] ++ (s ++ [c]))
  refine topFree_append (apart_singleton (ne_dash_of_opens ho)) ?_ fun p q hpq => ?_
  · exact topFree_of_not_mem (by simpa using hso)
  · have hp : p <+: s := by
      rcases List.prefix_concat_iff.1 ⟨_, hpq.symm⟩ with rfl | hp
      · simp at hpq
      · exact hp
    have := hs p hp
    omega

/-! ## The only decomposition -/

/-- The first separator at depth 0. -/
theorem exists_first_of_not_topFree (h : ¬ TopFree sep s) :
    ∃ p q, s = p ++ sep :: q ∧ depth p = 0 ∧ TopFree sep p := by
  induction hn : s.length using Nat.strongRecOn generalizing s with
  | ind n ih =>
    simp only [TopFree, not_forall, not_not] at h
    obtain ⟨p, q, rfl, hp⟩ := h
    by_cases hfree : TopFree sep p
    · exact ⟨p, q, rfl, hp, hfree⟩
    · obtain ⟨p', q', rfl, hp', hfree'⟩ := ih p.length (by simp [← hn]) hfree rfl
      exact ⟨p', q' ++ sep :: q, by simp, hp', hfree'⟩

/-- Induction along a split: a text is left whole, or it is cut at its first separator at
depth 0. -/
theorem split_induct (sep : Char) {motive : List Char → Prop}
    (whole : ∀ s, TopFree sep s → motive s)
    (cut : ∀ p q, depth p = 0 → TopFree sep p → motive q → motive (p ++ sep :: q))
    (s : List Char) : motive s := by
  induction hn : s.length using Nat.strongRecOn generalizing s with
  | ind n ih =>
    by_cases h : TopFree sep s
    · exact whole s h
    · obtain ⟨p, q, rfl, hp, hfree⟩ := exists_first_of_not_topFree h
      have hlt : q.length < n := by
        rw [← hn, List.length_append, List.length_cons]
        omega
      exact cut p q hp hfree (ih q.length hlt q rfl)

/-- The texts `ps`, a last one and those in front of it, are `s` cut at depth 0: joined by the
separator they give `s`, none of them can be cut again, and the depth is 0 at each cut.  No texts at
all would join to the empty text too, but then there is no last one. -/
structure Decomposes (sep : Char) (s : List Char) (ps : List (List Char)) : Prop where
  joined : [sep].intercalate ps = s
  whole : ∀ p ∈ ps, splitTop sep p = [p]
  level : ∃ front last, ps = front ++ [last] ∧ ∀ p ∈ front, depth p = 0

/-- **A split is a decomposition of the text.** -/
theorem decomposes_splitTop (hs : Separator sep) (s : List Char) :
    Decomposes sep s (splitTop sep s) := by
  induction s using split_induct sep with
  | whole s h =>
    have hsplit : splitTop sep s = [s] := splitTop_of_topFree h
    rw [hsplit]
    exact ⟨List.intercalate_singleton, by simpa using hsplit, [], s, rfl, nofun⟩
  | cut p q hp hfree ih =>
    have hwhole : splitTop sep p = [p] := splitTop_of_topFree hfree
    refine ⟨intercalate_splitTop sep _, ?_, ?_⟩
    · rw [splitTop_append_cons hs hp, hwhole]
      exact List.forall_mem_cons.2 ⟨hwhole, ih.whole⟩
    · obtain ⟨front, last, hq, hfront⟩ := ih.level
      rw [splitTop_append_cons hs hp, hwhole, hq]
      exact ⟨p :: front, last, rfl, List.forall_mem_cons.2 ⟨hp, hfront⟩⟩

/-- Parts that are whole are found again, if all but the last end at depth 0. -/
theorem splitTop_intercalate (hs : Separator sep) {front : List (List Char)} {last : List Char}
    (hwhole : ∀ p ∈ front ++ [last], splitTop sep p = [p]) (hfront : ∀ p ∈ front, depth p = 0) :
    splitTop sep ([sep].intercalate (front ++ [last])) = front ++ [last] := by
  induction front with
  | nil =>
    rw [List.nil_append, List.intercalate_singleton]
    exact hwhole last (by simp)
  | cons p front ih =>
    obtain ⟨hp, hrest⟩ := List.forall_mem_cons.1 hfront
    obtain ⟨hpwhole, hmore⟩ := List.forall_mem_cons.1 hwhole
    have hne : front ++ [last] ≠ [] := by simp
    obtain ⟨q, qs, hq⟩ := List.exists_cons_of_ne_nil hne
    have hjoin : [sep].intercalate (p :: (front ++ [last]))
        = p ++ sep :: [sep].intercalate (front ++ [last]) := by
      rw [hq, List.intercalate_cons_cons, List.append_assoc]
      rfl
    rw [List.cons_append, hjoin, splitTop_append_cons hs hp, hpwhole, ih hmore hrest]
    rfl

/-- **There is no other decomposition.** -/
theorem decomposes_iff (hs : Separator sep) {ps : List (List Char)} :
    Decomposes sep s ps ↔ ps = splitTop sep s := by
  constructor
  · rintro ⟨rfl, hwhole, front, last, rfl, hfront⟩
    exact (splitTop_intercalate hs hwhole hfront).symm
  · rintro rfl
    exact decomposes_splitTop hs s

/-- **The split at depth 0 is the only one.** -/
theorem splitTop_decomposition (sep : Char) (s : List Char) :
    [sep].intercalate (splitTop sep s) = s ∧
      (Separator sep → (∀ ps, Decomposes sep s ps ↔ ps = splitTop sep s) ∧
        ∀ a b, depth a = 0 → splitTop sep (a ++ sep :: b) = splitTop sep a ++ splitTop sep b) :=
  ⟨intercalate_splitTop sep s, fun hs =>
    ⟨fun _ => decomposes_iff hs, fun _ _ ha => splitTop_append_cons hs ha⟩⟩

/-- Brackets of different kinds, an arrow, and a part that goes below depth 0 on its way. -/
theorem splitTop_decomposition_of_mixed :
    Separator ':' ∧
      Decomposes ':' "a[b:c)->:é]:[d:e".toList
        ["a[b:c)->".toList, "é]:[d".toList, "e".toList] ∧
      depth "é]:[d".toList = 0 ∧
      splitTop ':' ("é]:[d".toList ++ ':' :: "->:<".toList)
        = splitTop ':' "é]:[d".toList ++ splitTop ':' "->:<".toList :=
  have h := (splitTop_decomposition ':' "a[b:c)->:é]:[d:e".toList).2 separator_colon
  ⟨separator_colon, (h.1 _).2 (by decide), by decide, h.2 _ _ (by decide)⟩

end Exemplar.Text
