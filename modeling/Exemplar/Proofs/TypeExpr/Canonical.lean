import Exemplar.Proofs.TypeExpr.Form
import Exemplar.TypeExpr.Print

/-!
# Proofs/TypeExpr/Canonical — when the canonical text of a type reads back

    Array<a:b>  ──parse──▸  array a:b  ──text──▸  [a:b]  ──parse──▸  dictionary a b

Printing turns generic spellings into brackets, which shows a colon that an angle bracket had
hidden, and drops blanks, which can make an arrow of a dash and the bracket behind it.  Nothing else
goes wrong: `parse_text_parse_iff` says that the canonical text of what was read reads back exactly
when every node is `Legible`.
-/

namespace Exemplar.TypeExpr

open Exemplar.Text

/-- What a node asks of the canonical texts inside it: no colon at depth 0 in an array or a
dictionary, and no dash at the end of what a set holds. -/
def Legible : TypeExpr → Prop
  | array t => splitTop ':' t.chars = [t.chars]
  | dictionary k v => splitTop ':' k.chars = [k.chars] ∧ splitTop ':' v.chars = [v.chars]
  | set t => t.chars.getLast? ≠ some '-'
  | named _ | unsplit _ | optional _ => True

/-- The node itself and all below it. -/
def nodes : TypeExpr → List TypeExpr
  | named text => [named text]
  | unsplit text => [unsplit text]
  | optional t => optional t :: t.nodes
  | array t => array t :: t.nodes
  | set t => set t :: t.nodes
  | dictionary k v => dictionary k v :: (k.nodes ++ v.nodes)

/-- Every node is legible. -/
def AllLegible (u : TypeExpr) : Prop := ∀ w ∈ u.nodes, w.Legible

variable {s : List Char} {t u k v w : TypeExpr} {a b c : List Char} {n : ℕ}

theorem allLegible_named (text : String) : AllLegible (named text) := by
  simp [AllLegible, nodes, Legible]

theorem allLegible_unsplit (text : String) : AllLegible (unsplit text) := by
  simp [AllLegible, nodes, Legible]

theorem allLegible_optional_iff : AllLegible (optional t) ↔ AllLegible t := by
  rw [AllLegible, nodes, List.forall_mem_cons, Legible, true_and]
  rfl

theorem allLegible_array_iff : AllLegible (array t) ↔ TopFree ':' t.chars ∧ AllLegible t := by
  rw [AllLegible, nodes, List.forall_mem_cons, Legible,
    splitTop_eq_singleton_iff separator_colon.not_bracket]
  rfl

theorem allLegible_set_iff :
    AllLegible (set t) ↔ t.chars.getLast? ≠ some '-' ∧ AllLegible t := by
  rw [AllLegible, nodes, List.forall_mem_cons, Legible]
  rfl

theorem allLegible_dictionary_iff : AllLegible (dictionary k v)
    ↔ (TopFree ':' k.chars ∧ TopFree ':' v.chars) ∧ AllLegible k ∧ AllLegible v := by
  rw [AllLegible, nodes, List.forall_mem_cons, Legible, List.forall_mem_append,
    splitTop_eq_singleton_iff separator_colon.not_bracket,
    splitTop_eq_singleton_iff separator_colon.not_bracket]
  rfl

/-! ## The canonical text of each node -/

theorem chars_array (t : TypeExpr) : (array t).chars = bracketed t.chars := rfl

theorem chars_set (t : TypeExpr) : (set t).chars = generic "Set" t.chars := rfl

theorem chars_dictionary (k v : TypeExpr) :
    (dictionary k v).chars = bracketed (k.chars ++ ':' :: ' ' :: v.chars) := by
  simp [chars, bracketed]

/-! ## What the canonical text keeps of the text that was read

A visible text stays visible.  A balanced one stays above the ground, and comes back to it unless a
dash met the bracket of a set. -/

/-- What is not blank has a canonical text that is not. -/
theorem visible_chars (n : ℕ) (s : List Char) : ¬ Blank s → ¬ Blank (parseWithin n s).chars := by
  refine parseWithin_induct (P := fun _ u s => ¬ Blank s → ¬ Blank u.chars)
    (fun n t _ _ h => by simpa [chars] using h) (fun n t _ _ h => by simpa [chars] using h)
    (fun n t l h _ _ => ?_) (fun n u s h hs => h (mt blank_trim_iff.1 hs)) n s
  cases h with
  | question _ | optional _ =>
    exact not_blank_of_mem (c := '?') (by simp [Layer.map, Layer.toType, chars]) (by decide)
  | brackets _ _ | colon _ | dictionary _ _ | array _ =>
    exact not_blank_of_mem (c := '[') (by simp [Layer.map, Layer.toType, chars]) (by decide)
  | set _ =>
    exact not_blank_of_mem (c := 'S') (by simp [Layer.map, Layer.toType, chars]) (by decide)

/-- A canonical text that never falls below the ground, and is back on it if all nodes of its type
are legible. -/
structure Settled (u : TypeExpr) : Prop where
  grounded : Grounded u.chars
  depth_eq : AllLegible u → depth u.chars = 0

/-- A settled text is balanced if what is in it can be read. -/
theorem Settled.balanced (h : Settled u) (hu : AllLegible u) : Balanced u.chars :=
  ⟨h.grounded, h.depth_eq hu⟩

theorem settled_of_chars (h : Balanced u.chars) : Settled u := ⟨h.grounded, fun _ => h.depth_eq⟩

theorem depth_entry (a b : List Char) : depth (a ++ ':' :: ' ' :: b) = depth a + depth b := by
  have hcolon : depth (':' :: ' ' :: b) = depth b := by
    rw [depth_cons (by decide), depth_cons (c := ' ') (by decide)]
    exact (Int.zero_add _).trans (Int.zero_add _)
  rw [depth_append (apart_of_head (by simp)), hcolon]

theorem grounded_entry (ha : Grounded a) (hb : Grounded b) : Grounded (a ++ ':' :: ' ' :: b) :=
  ha.append (Grounded.append (a := ": ".toList) (Flat.grounded (by decide)) hb)

/-- A question mark unsettles nothing. -/
theorem settled_optional (h : Settled t) : Settled (optional t) where
  grounded := h.grounded.append (Flat.grounded (by decide))
  depth_eq hu := by
    rw [chars, depth_append (Flat.apart (by decide)), h.depth_eq (allLegible_optional_iff.1 hu)]
    rfl

theorem settled_array (h : Settled t) : Settled (array t) where
  grounded := grounded_bracketed h.grounded
  depth_eq hu := by
    rw [chars_array, depth_bracketed, h.depth_eq (allLegible_array_iff.1 hu).2]

/-- A dash before the last bracket would make an arrow of it; a legible set has none there. -/
theorem settled_set (h : Settled t) : Settled (set t) where
  grounded := by
    rw [chars_set]
    exact grounded_generic word_set h.grounded
  depth_eq hu := by
    obtain ⟨hlast, hu⟩ := allLegible_set_iff.1 hu
    rw [chars_set, depth_generic word_set hlast, h.depth_eq hu]

theorem settled_dictionary (hk : Settled k) (hv : Settled v) : Settled (dictionary k v) where
  grounded := chars_dictionary k v ▸ grounded_bracketed (grounded_entry hk.grounded hv.grounded)
  depth_eq hu := by
    obtain ⟨-, hku, hvu⟩ := allLegible_dictionary_iff.1 hu
    rw [chars_dictionary, depth_bracketed, depth_entry, hk.depth_eq hku, hv.depth_eq hvu]
    rfl

/-- **What is read from a balanced text has a settled canonical text.** -/
theorem settled_parseWithin (n : ℕ) (s : List Char) : Balanced s → Settled (parseWithin n s) := by
  refine parseWithin_induct (P := fun _ u s => Balanced s → Settled u)
    (fun n t _ _ h => settled_of_chars (by simpa [chars] using h))
    (fun n t _ _ h => settled_of_chars (by simpa [chars] using h))
    (fun n t l h ih hb => ?_) (fun n u s h hs => h (balanced_trim_iff.2 hs)) n s
  cases h with
  | question s => exact settled_optional (ih s ((balanced_append_flat_iff (by decide)).1 hb))
  | optional h => exact settled_optional (ih _ h.balanced)
  | brackets h _ => exact settled_array (ih _ h)
  | array h => exact settled_array (ih _ h.balanced)
  | set h => exact settled_set (ih _ h.balanced)
  | colon h => exact settled_dictionary (ih _ h.key_balanced) (ih _ h.value_balanced)
  | dictionary h _ => exact settled_dictionary (ih _ h.key_balanced) (ih _ h.value_balanced)

/-! ## One level of reading the canonical text -/

/-- The canonical text of `u` reads as `u` again. -/
def ReadsBack (n : ℕ) (u : TypeExpr) : Prop := parseWithin n u.chars = u

theorem readsBack_optional_iff : ReadsBack (n + 1) (optional t) ↔ ReadsBack n t := by
  rw [ReadsBack, chars, parseWithin_question, optional.injEq, ReadsBack]

/-- An array is read back if its element is balanced, shows no colon at its top and is read back. -/
theorem readsBack_array_iff : ReadsBack (n + 1) (array t)
    ↔ Balanced t.chars ∧ TopFree ':' t.chars ∧ ReadsBack n t := by
  rw [ReadsBack, chars_array]
  constructor
  · intro h
    obtain ⟨l, hform, hl⟩ := exists_form h nofun nofun
    rw [trim_bracketed] at hform
    generalize hb : bracketed t.chars = b at hform
    cases hform with
    | brackets hbal hc =>
      obtain rfl := bracketed_inj.1 hb
      exact ⟨hbal, hc, array.inj hl⟩
    | array => simp [bracketed, generic] at hb
    | question | optional | colon | dictionary | set => cases hl
  · rintro ⟨hb, hc, ht⟩
    rw [parseWithin_brackets hb hc, ht]

/-- A set is read back if its element is balanced, does not end in the dash of an arrow and is read
back. -/
theorem readsBack_set_iff :
    ReadsBack (n + 1) (set t) ↔ Argument t.chars ∧ ReadsBack n t := by
  rw [ReadsBack, chars_set]
  constructor
  · intro h
    obtain ⟨l, hform, hl⟩ := exists_form h nofun nofun
    rw [trim_generic word_set] at hform
    generalize hb : generic "Set" t.chars = b at hform
    cases hform with
    | set harg =>
      obtain rfl := generic_inj.1 hb
      exact ⟨harg, set.inj hl⟩
    | question | optional | brackets | colon | dictionary | array => cases hl
  · rintro ⟨harg, ht⟩
    rw [parseWithin_set harg, ht]

theorem parseWithin_space (n : ℕ) (s : List Char) :
    parseWithin n (' ' :: s) = parseWithin n s := by
  have hpad := parseWithin_pad (n := n) (s := s) (l := [' ']) (by decide) blank_nil
  simpa using hpad

/-- Between the brackets the text is cut at the printed colon: that one stands at depth 0, since
neither side falls below the ground and both together come back to it. -/
theorem readsBack_dictionary_iff (hk : Grounded k.chars) (hv : Grounded v.chars) :
    ReadsBack (n + 1) (dictionary k v)
      ↔ Entry ':' k.chars (' ' :: v.chars) ∧ ReadsBack n k ∧ ReadsBack n v := by
  rw [ReadsBack, chars_dictionary]
  constructor
  · intro h
    obtain ⟨l, hform, hl⟩ := exists_form h nofun nofun
    rw [trim_bracketed] at hform
    generalize hc : bracketed (k.chars ++ ':' :: ' ' :: v.chars) = c at hform
    cases hform with
    | @colon a b he =>
      have hc := bracketed_inj.1 hc
      -- the two depths add up to 0 and neither is negative
      have hdepth : depth k.chars = 0 := by
        have hsum := (he.balanced separator_colon).depth_eq
        have hk0 := hk.depth_nonneg
        have hv0 := hv.depth_nonneg
        rw [← hc, depth_entry] at hsum
        omega
      have hsplit : splitTop ':' (k.chars ++ ':' :: ' ' :: v.chars) = [a, b] := by
        rw [hc, splitTop_eq_pair_iff separator_colon]
        exact ⟨rfl, he.key_balanced.depth_eq, he.key_topFree, he.value_topFree⟩
      obtain ⟨hka, hvb⟩ := eq_of_splitTop_eq_pair separator_colon hdepth hsplit
      obtain rfl := eq_of_splitTop_eq_singleton hka
      obtain rfl := eq_of_splitTop_eq_singleton hvb
      obtain ⟨hkr, hvr⟩ := dictionary.inj hl
      exact ⟨he, hkr, (parseWithin_space n _).symm.trans hvr⟩
    | dictionary => simp [bracketed, generic] at hc
    | question | optional | brackets | array | set => cases hl
  · rintro ⟨he, hkr, hvr⟩
    rw [parseWithin_colon he, parseWithin_space, hkr, hvr]

/-! ## The whole text

Going up a level, the nodes below are legible on either side of the equivalence.  Their canonical
texts are then balanced, so that only the colons and the dash of the level itself remain. -/

theorem readsBack_array (ht : Settled t) (ih : ReadsBack n t ↔ AllLegible t) :
    ReadsBack (n + 1) (array t) ↔ AllLegible (array t) := by
  rw [readsBack_array_iff, allLegible_array_iff, ih]
  exact ⟨fun h => h.2, fun h => ⟨ht.balanced h.2, h⟩⟩

theorem readsBack_set (ht : Settled t) (ih : ReadsBack n t ↔ AllLegible t) :
    ReadsBack (n + 1) (set t) ↔ AllLegible (set t) := by
  rw [readsBack_set_iff, allLegible_set_iff, ih]
  exact ⟨fun h => ⟨h.1.last, h.2⟩, fun h => ⟨⟨ht.balanced h.2, h.1⟩, h.2⟩⟩

/-- A dictionary is read back exactly if it is legible, where its key and its value are so. -/
theorem readsBack_dictionary (hk : Settled k) (hv : Settled v) (hkb : ¬ Blank k.chars)
    (hvb : ¬ Blank v.chars) (ihk : ReadsBack n k ↔ AllLegible k)
    (ihv : ReadsBack n v ↔ AllLegible v) :
    ReadsBack (n + 1) (dictionary k v) ↔ AllLegible (dictionary k v) := by
  have hspace : Flat [' '] := by decide
  have hapart : Apart [' '] v.chars := apart_singleton (by decide)
  rw [readsBack_dictionary_iff hk.grounded hv.grounded, allLegible_dictionary_iff, ihk, ihv]
  constructor
  · rintro ⟨he, hku, hvu⟩
    exact ⟨⟨he.key_topFree, he.value_topFree.of_append hapart hspace.depth_eq⟩, hku, hvu⟩
  · rintro ⟨⟨hkc, hvc⟩, hku, hvu⟩
    refine ⟨⟨hk.balanced hku, hspace.balanced.append (hv.balanced hvu), hkc, ?_, hkb, ?_⟩, hku, hvu⟩
    · exact (topFree_of_not_mem (by decide)).append hapart hspace.depth_eq hvc
    · exact fun h => hvb fun c hc => h c (List.mem_cons_of_mem _ hc)

/-- **What is read within `n` levels reads back within `n` levels exactly if all is legible.** -/
theorem readsBack_parseWithin (n : ℕ) (s : List Char) :
    ReadsBack n (parseWithin n s) ↔ AllLegible (parseWithin n s) := by
  refine parseWithin_induct (P := fun n u _ => ReadsBack n u ↔ AllLegible u)
    (fun n t _ h => ?_) (fun n t _ h => ?_) (fun n t l h ih => ?_) (fun n u s h => h) n s
  · simpa [ReadsBack, chars, h] using allLegible_named _
  · simpa [ReadsBack, chars, h] using allLegible_unsplit _
  have hentry : ∀ sep a b, Entry sep a b →
      (ReadsBack (n + 1) (dictionary (parseWithin n a) (parseWithin n b))
        ↔ AllLegible (dictionary (parseWithin n a) (parseWithin n b))) := fun sep a b he =>
    readsBack_dictionary (settled_parseWithin n a he.key_balanced)
      (settled_parseWithin n b he.value_balanced) (visible_chars n a he.key_visible)
      (visible_chars n b he.value_visible) (ih a) (ih b)
  cases h with
  | question s => exact readsBack_optional_iff.trans ((ih s).trans allLegible_optional_iff.symm)
  | optional _ => exact readsBack_optional_iff.trans ((ih _).trans allLegible_optional_iff.symm)
  | brackets h _ => exact readsBack_array (settled_parseWithin n _ h) (ih _)
  | array h => exact readsBack_array (settled_parseWithin n _ h.balanced) (ih _)
  | set h => exact readsBack_set (settled_parseWithin n _ h.balanced) (ih _)
  | colon he => exact hentry ':' _ _ he
  | dictionary he _ => exact hentry ',' _ _ he

/-- **The canonical text of what was read reads back exactly if every node is legible**: no array
and no dictionary shows a colon at depth 0 in the canonical text of what it holds, and what a set
holds does not end in a dash. -/
theorem parse_text_parse_iff (s : String) :
    parse (parse s).text = parse s ↔ ∀ u ∈ (parse s).nodes, u.Legible := by
  have h := readsBack_parseWithin maxLevels s.toList
  rwa [ReadsBack, ← String.toList_ofList (l := (parseWithin maxLevels s.toList).chars)] at h

example : parse (parse "Array<a:b>").text = .dictionary (.named "a") (.named "b") := by decide

example : parse (parse "Set<x- >").text = .named "Set<x->" := by decide

end Exemplar.TypeExpr
