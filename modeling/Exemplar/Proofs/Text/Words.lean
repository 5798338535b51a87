import Exemplar.Proofs.Text.Trim
import Mathlib.Data.List.Chain

/-!
# Proofs/Text/Words — what collapsing blanks keeps of a text

    "  a {\n    b\n}\n"   ──▸   "a { b }"

The words of a text are its maximal runs of visible characters (`runs_iff`), and a collapsed text is
its words with one space between neighbours (`collapse_eq`).  The words of that are the same ones
(`words_collapse`), so collapsing keeps the words and nothing else.
-/

namespace Exemplar.Text

variable {s l r w : List Char} {c d : Char} {ws : List (List Char)}

/-- A text without blanks. -/
def Solid (s : List Char) : Prop := ∀ c ∈ s, isBlank c = false

instance (s : List Char) : Decidable (Solid s) :=
  List.decidableBAll (fun c => isBlank c = false) s

/-- A run of visible characters cannot go on into the text: it is empty or starts with a blank. -/
def EndsRun (s : List Char) : Prop := ∀ c, s.head? = some c → isBlank c = true

/-- `Runs s ws`: the maximal runs of visible characters of `s`, from left to right, are `ws`. -/
inductive Runs : List Char → List (List Char) → Prop
  | blank {s : List Char} (h : Blank s) : Runs s []
  | run {l w r : List Char} {ws : List (List Char)} (hl : Blank l) (hw : Solid w) (hne : w ≠ [])
      (hr : EndsRun r) (h : Runs r ws) : Runs (l ++ (w ++ r)) (w :: ws)

/-- Words with one space between neighbours. -/
def spaced (ws : List (List Char)) : List Char := [' '].intercalate ws

/-! ## The words of a text are its runs -/

theorem words_cons_of_blank (hc : isBlank c = true) : words (c :: s) = words s := by
  rw [words.eq_def]
  simp only [hc, if_true]

theorem words_blank_append (hl : Blank l) : words (l ++ s) = words s := by
  induction l with
  | nil => rfl
  | cons c l ih =>
    obtain ⟨hc, hl⟩ := List.forall_mem_cons.1 hl
    rw [List.cons_append, words_cons_of_blank hc, ih hl]

/-- The last character of a run is a word of its own, so far. -/
theorem words_cons_of_endsRun (hc : isBlank c = false) (hr : EndsRun r) :
    words (c :: r) = [c] :: words r := by
  cases r with
  | nil => simp [words, hc]
  | cons d r =>
    have hd : isBlank d = true := hr d rfl
    rw [words]
    simp only [hc, hd, Bool.false_eq_true, if_false, if_true]

theorem words_cons_cons (hc : isBlank c = false) (hd : isBlank d = false) :
    words (c :: d :: s) = consWord c (words (d :: s)) := by
  rw [words]
  simp only [hc, hd, Bool.false_eq_true, if_false]

/-- A run is the first word where it ends. -/
theorem words_run_append (hw : Solid w) (hne : w ≠ []) (hr : EndsRun r) :
    words (w ++ r) = w :: words r := by
  induction w with
  | nil => exact absurd rfl hne
  | cons c w ih =>
    obtain ⟨hc, hw⟩ := List.forall_mem_cons.1 hw
    cases w with
    | nil => exact words_cons_of_endsRun hc hr
    | cons d w =>
      have hd : isBlank d = false := hw d List.mem_cons_self
      have hrest := ih hw (List.cons_ne_nil d w)
      rw [List.cons_append] at hrest
      rw [List.cons_append, List.cons_append, words_cons_cons hc hd, hrest, consWord]

/-- **The runs of a text are its words.** -/
theorem words_eq_of_runs (h : Runs s ws) : words s = ws := by
  induction h with
  | @blank s h =>
    have hnil := words_blank_append (s := []) h
    rwa [List.append_nil] at hnil
  | run hl hw hne hr _ ih => rw [words_blank_append hl, words_run_append hw hne hr, ih]

theorem Runs.cons_blank (hc : isBlank c = true) (h : Runs s ws) : Runs (c :: s) ws := by
  cases h with
  | blank hs => exact .blank (List.forall_mem_cons.2 ⟨hc, hs⟩)
  | run hl hw hne hr h =>
    rw [← List.cons_append]
    exact .run (List.forall_mem_cons.2 ⟨hc, hl⟩) hw hne hr h

/-- A visible character in front of a run makes it longer. -/
theorem Runs.cons_visible (hc : isBlank c = false) (hd : isBlank d = false)
    (h : Runs (d :: s) ws) : Runs (c :: d :: s) (consWord c ws) := by
  generalize ht : d :: s = t at h
  cases h with
  | blank hs =>
    subst ht
    exact absurd hs (not_blank_of_mem List.mem_cons_self hd)
  | @run l w r ws hl hw hne hr h =>
    cases l with
    | nil => exact .run blank_nil (List.forall_mem_cons.2 ⟨hc, hw⟩) (List.cons_ne_nil c w) hr h
    | cons e l =>
      obtain ⟨rfl, -⟩ := List.cons.inj ht
      exact absurd hl (not_blank_of_mem List.mem_cons_self hd)

/-- **The words of a text are its runs.** -/
theorem runs_words (s : List Char) : Runs s (words s) := by
  induction s with
  | nil => exact .blank blank_nil
  | cons c s ih =>
    cases hc : isBlank c with
    | true =>
      rw [words_cons_of_blank hc]
      exact ih.cons_blank hc
    | false =>
      by_cases hr : EndsRun s
      · rw [words_cons_of_endsRun hc hr]
        exact .run blank_nil (List.forall_mem_singleton.2 hc) (List.cons_ne_nil c []) hr ih
      · cases s with
        | nil => exact absurd (fun _ h => nomatch h) hr
        | cons d s =>
          have hd : isBlank d = false := by
            by_contra hblank
            refine hr fun e he => ?_
            rw [← Option.some.inj he]
            simpa using hblank
          rw [words_cons_cons hc hd]
          exact ih.cons_visible hc hd

/-- **The words of a text are its maximal runs of visible characters.** -/
theorem runs_iff : Runs s ws ↔ ws = words s := by
  refine ⟨fun h => (words_eq_of_runs h).symm, ?_⟩
  rintro rfl
  exact runs_words s

/-! ## A run, and the space behind it -/

theorem squeeze_solid_append (hw : Solid w) : squeeze (w ++ r) = w ++ squeeze r := by
  induction w with
  | nil => rfl
  | cons c w ih =>
    obtain ⟨hc, hw⟩ := List.forall_mem_cons.1 hw
    rw [List.cons_append, squeeze, hc, ih hw]
    rfl

/-- Blanks in front of a visible character are squeezed into one space. -/
theorem squeeze_blank_append (hl : Blank l) (hne : l ≠ []) (hc : isBlank c = false) :
    squeeze (l ++ c :: s) = ' ' :: squeeze (c :: s) := by
  induction l with
  | nil => exact absurd rfl hne
  | cons b l ih =>
    obtain ⟨hb, hl⟩ := List.forall_mem_cons.1 hl
    rw [List.cons_append, squeeze, if_pos hb]
    cases l with
    | nil => simp [hc]
    | cons d l =>
      have hd : isBlank d = true := hl d List.mem_cons_self
      simpa [hd] using ih hl (List.cons_ne_nil d l)

theorem exists_trimStart_eq_cons (h : ¬ Blank s) :
    ∃ c t, trimStart s = c :: t ∧ isBlank c = false := by
  obtain ⟨c, t, ht⟩ := List.exists_cons_of_ne_nil fun hnil => h (trimStart_eq_nil_iff.1 hnil)
  have hhead := List.head?_dropWhile_not isBlank s
  rw [← trimStart, ht] at hhead
  exact ⟨c, t, ht, by simpa using hhead⟩

/-- A trimmed text starts and ends with a visible character. -/
theorem exists_trim_eq (h : ¬ Blank s) :
    (∃ c t, trim s = c :: t ∧ isBlank c = false) ∧
      ∃ t d, trim s = t ++ [d] ∧ isBlank d = false := by
  obtain ⟨c, t, ht, hc⟩ := exists_trimStart_eq_cons h
  have hreverse : ¬ Blank (trimStart s).reverse :=
    not_blank_of_mem (List.mem_reverse.2 (ht ▸ List.mem_cons_self)) hc
  obtain ⟨d, u, hu, hd⟩ := exists_trimStart_eq_cons hreverse
  refine ⟨?_, u.reverse, d, by rw [trim, trimEnd, hu, List.reverse_cons], hd⟩
  obtain ⟨r, hr, hsplit⟩ := exists_eq_trimEnd_append (trimStart s)
  rw [← trim, ht] at hsplit
  rcases List.cons_eq_append_iff.1 hsplit with ⟨-, rfl⟩ | ⟨v, hv, -⟩
  · exact absurd hr (not_blank_of_mem List.mem_cons_self hc)
  · exact ⟨c, v, hv, hc⟩

/-- Between a run and what is visible behind it there are blanks. -/
theorem exists_trim_run (hl : Blank l) (hw : Solid w) (hne : w ≠ []) (hr : EndsRun r)
    (h : ¬ Blank r) : ∃ g, Blank g ∧ g ≠ [] ∧ trim (l ++ (w ++ r)) = w ++ (g ++ trim r) := by
  obtain ⟨g, g', hg, hg', hsplit⟩ := exists_eq_append_trim r
  obtain ⟨⟨c, t, ht, hc⟩, u, d, hu, hd⟩ := exists_trim_eq h
  obtain ⟨b, w, rfl⟩ := List.exists_cons_of_ne_nil hne
  refine ⟨g, hg, ?_, ?_⟩
  · rintro rfl
    have hblank : isBlank c = true := hr c (by rw [hsplit, ht]; rfl)
    rw [hc] at hblank
    cases hblank
  · have hb : isBlank b = false := hw b List.mem_cons_self
    have htext : l ++ (b :: w ++ r) = l ++ (b :: (w ++ g ++ u) ++ [d]) ++ g' := by
      rw [hsplit, hu]
      simp
    rw [htext, trim_pad hl hg', trim_between hb hd, hu]
    simp

/-! ## The words with single spaces between them -/

theorem spaced_singleton (w : List Char) : spaced [w] = w := List.intercalate_singleton

theorem spaced_cons (hne : ws ≠ []) : spaced (w :: ws) = w ++ ' ' :: spaced ws := by
  obtain ⟨v, ws, rfl⟩ := List.exists_cons_of_ne_nil hne
  rw [spaced, List.intercalate_cons_cons, List.append_assoc]
  rfl

theorem Runs.eq_nil_iff (h : Runs s ws) : ws = [] ↔ Blank s := by
  constructor
  · rintro rfl
    cases h with
    | blank h => exact h
  · intro hs
    rw [runs_iff.1 h, ← runs_iff.1 (.blank hs)]

/-- A collapsed text has single spaces between the runs. -/
theorem collapse_eq_of_runs (h : Runs s ws) : collapse s = spaced ws := by
  induction h with
  | @blank s h =>
    rw [collapse, trim_of_blank h]
    rfl
  | @run l w r ws hl hw hne hr h ih =>
    by_cases hblank : Blank r
    · obtain rfl := h.eq_nil_iff.2 hblank
      rw [collapse, ← List.append_assoc, trim_pad hl hblank, trim_of_forall_visible hw,
        spaced_singleton]
      simpa [squeeze] using squeeze_solid_append (r := []) hw
    · obtain ⟨g, hg, hgap, htrim⟩ := exists_trim_run hl hw hne hr hblank
      obtain ⟨⟨c, t, ht, hc⟩, -⟩ := exists_trim_eq hblank
      rw [collapse, htrim, squeeze_solid_append hw, ht, squeeze_blank_append hg hgap hc, ← ht,
        ← collapse, ih, spaced_cons fun hnil => hblank (h.eq_nil_iff.1 hnil)]

/-- **A collapsed text is its words with single spaces between them.** -/
theorem collapse_eq (s : List Char) : collapse s = spaced (words s) :=
  collapse_eq_of_runs (runs_words s)

/-- One or more visible characters. -/
structure IsWord (w : List Char) : Prop where
  solid : Solid w
  ne_nil : w ≠ []

theorem word_of_mem_words (h : w ∈ words s) : IsWord w := by
  have key : ∀ {s ws}, Runs s ws → ∀ w ∈ ws, IsWord w := by
    intro s ws h
    induction h with
    | blank => nofun
    | run _ hw hne _ _ ih => exact List.forall_mem_cons.2 ⟨⟨hw, hne⟩, ih⟩
  exact key (runs_words s) w h

/-- Words with single spaces between them are the runs again. -/
theorem runs_spaced (h : ∀ w ∈ ws, IsWord w) : Runs (spaced ws) ws := by
  induction ws with
  | nil => exact .blank blank_nil
  | cons w ws ih =>
    obtain ⟨hw, hws⟩ := List.forall_mem_cons.1 h
    cases hnil : ws with
    | nil =>
      have hrun : Runs ([] ++ (w ++ [])) [w] :=
        .run blank_nil hw.solid hw.ne_nil (fun _ h => nomatch h) (.blank blank_nil)
      rw [spaced_singleton]
      simpa using hrun
    | cons v vs =>
      have hspace : isBlank ' ' = true := by decide
      have hrest : EndsRun (' ' :: spaced ws) := fun c hc => by rwa [← Option.some.inj hc]
      rw [← hnil, spaced_cons (by simp [hnil])]
      exact .run blank_nil hw.solid hw.ne_nil hrest ((ih hws).cons_blank hspace)

/-- **The words come back from the text in which they stand with single spaces.** -/
theorem words_collapse (s : List Char) : words (collapse s) = words s := by
  rw [collapse_eq]
  exact (runs_iff.1 (runs_spaced fun _ => word_of_mem_words)).symm

/-- No blank could be left out of the text, and each one is a space. -/
structure Neat (s : List Char) : Prop where
  space : ∀ c ∈ s, isBlank c = true → c = ' '
  head : ∀ c, s.head? = some c → isBlank c = false
  last : ∀ c, s.getLast? = some c → isBlank c = false
  apart : s.IsChain fun c d => isBlank c = false ∨ isBlank d = false

theorem Solid.neat (h : Solid s) : Neat s where
  space c hc hblank := absurd hblank (by simp [h c hc])
  head c hc := h c (List.mem_of_head? hc)
  last c hc := h c (List.mem_of_getLast? hc)
  apart := List.Pairwise.isChain (List.pairwise_of_forall_mem_list fun c hc _ _ => .inl (h c hc))

theorem spaced_ne_nil (h : ∀ w ∈ ws, IsWord w) (hne : ws ≠ []) : spaced ws ≠ [] := by
  intro hnil
  have hwords := runs_iff.1 (runs_spaced h)
  rw [hnil] at hwords
  exact hne hwords

/-- A word, a space and a neat text that is not empty. -/
theorem Neat.cons_word (hw : IsWord w) (hne : s ≠ []) (h : Neat s) : Neat (w ++ ' ' :: s) where
  space c hc hblank := by
    rcases List.mem_append.1 hc with hc | hc
    · exact absurd hblank (by simp [hw.solid c hc])
    · rcases List.mem_cons.1 hc with rfl | hc
      · rfl
      · exact h.space c hc hblank
  head c hc := by
    rw [List.head?_append_of_ne_nil _ hw.ne_nil] at hc
    exact hw.solid.neat.head c hc
  last c hc := by
    obtain ⟨d, t, rfl⟩ := List.exists_cons_of_ne_nil hne
    rw [List.getLast?_append_cons, List.getLast?_cons_cons] at hc
    exact h.last c hc
  apart := by
    refine List.isChain_append.2 ⟨hw.solid.neat.apart, List.isChain_cons.2 ⟨?_, h.apart⟩, ?_⟩
    · exact fun c hc => .inr (h.head c hc)
    · exact fun c hc _ _ => .inl (hw.solid.neat.last c hc)

/-- There are no blanks around them and none in a row. -/
theorem neat_spaced (h : ∀ w ∈ ws, IsWord w) : Neat (spaced ws) := by
  induction ws with
  | nil => exact Solid.neat (s := []) nofun
  | cons w ws ih =>
    obtain ⟨hw, hws⟩ := List.forall_mem_cons.1 h
    by_cases hnil : ws = []
    · rw [hnil, spaced_singleton]
      exact hw.solid.neat
    · rw [spaced_cons hnil]
      exact (ih hws).cons_word hw (spaced_ne_nil hws hnil)

/-- What is collapsed is told by the words. -/
theorem toList_collapsed (s : String) : (collapsed s).toList = spaced (words s.toList) := by
  rw [collapsed, String.toList_ofList, collapse_eq]

/-- Collapsing loses the blanks of a text and nothing else. -/
theorem collapsed_eq_collapsed_iff {a b : String} :
    collapsed a = collapsed b ↔ words a.toList = words b.toList := by
  have hwords : ∀ s : String, words (collapsed s).toList = words s.toList := fun s => by
    rw [collapsed, String.toList_ofList, words_collapse]
  constructor
  · intro h
    rw [← hwords a, h, hwords b]
  · intro h
    rw [collapsed, collapsed, collapse_eq, collapse_eq, h]

/-- **Two texts collapse alike exactly when they have the same words.** What is left of a text is
its maximal runs of visible characters with single spaces between them, and collapsing that again
changes nothing. -/
theorem collapsed_eq_iff_words (a b : String) :
    (collapsed a = collapsed b ↔ words a.toList = words b.toList) ∧
      (∀ ws, Runs a.toList ws ↔ ws = words a.toList) ∧
      collapsed a = String.ofList ([' '].intercalate (words a.toList)) ∧
      collapsed (collapsed a) = collapsed a ∧
      Neat (collapsed a).toList := by
  refine ⟨collapsed_eq_collapsed_iff, fun ws => runs_iff, ?_, ?_, ?_⟩
  · rw [collapsed, collapse_eq, spaced]
  · rw [collapsed_eq_collapsed_iff, collapsed, String.toList_ofList, words_collapse]
  · rw [toList_collapsed]
    exact neat_spaced fun _ => word_of_mem_words

end Exemplar.Text
