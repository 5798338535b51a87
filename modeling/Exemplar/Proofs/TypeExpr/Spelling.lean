import Exemplar.Proofs.TypeExpr.Height

/-!
# Proofs/TypeExpr/Spelling — the ways to spell a type, and reading them back

    [Int]?     Optional< [Int] >     Array<Int>?     Optional<Array< Int>>     …

`Spelling t s` gives each level of a type its sugar and its generic form, with blanks around every
node.  Reading loses nothing: a text spells what is read from it (`spelling_parse`).  Reading is not
misled either: every spelling of a tree over plain names reads back as that tree
(`parse_of_spelling`).
-/

namespace Exemplar.TypeExpr

open Exemplar.Text

/-- The text `s` spells the type `t`. -/
inductive Spelling : TypeExpr → List Char → Prop
  | named (text : String) : Spelling (.named text) text.toList
  | unsplit (text : String) : Spelling (.unsplit text) text.toList
  | question {t s} (h : Spelling t s) : Spelling (.optional t) (s ++ ['?'])
  | optional {t s} (h : Spelling t s) : Spelling (.optional t) (generic "Optional" s)
  | brackets {t s} (h : Spelling t s) : Spelling (.array t) (bracketed s)
  | array {t s} (h : Spelling t s) : Spelling (.array t) (generic "Array" s)
  | set {t s} (h : Spelling t s) : Spelling (.set t) (generic "Set" s)
  | colon {t u k v} (hk : Spelling t k) (hv : Spelling u v) :
      Spelling (.dictionary t u) (bracketed (k ++ ':' :: v))
  | dictionary {t u k v} (hk : Spelling t k) (hv : Spelling u v) :
      Spelling (.dictionary t u) (generic "Dictionary" (k ++ ',' :: v))
  /-- Blanks may stand around the spelling of every node. -/
  | pad {t s l r} (h : Spelling t s) (hl : Blank l) (hr : Blank r) : Spelling t (l ++ s ++ r)

/-- The texts of the leaves, from left to right. -/
def leaves : TypeExpr → List (List Char)
  | named text => [text.toList]
  | unsplit text => [text.toList]
  | optional t => t.leaves
  | array t => t.leaves
  | set t => t.leaves
  | dictionary k v => k.leaves ++ v.leaves

/-- The pieces stand in the text one after the other, each behind the end of the one before. -/
inductive InTurn : List (List Char) → List Char → Prop
  | nil (rest : List Char) : InTurn [] rest
  | cons (gap p : List Char) {ps rest} (h : InTurn ps rest) : InTurn (p :: ps) (gap ++ p ++ rest)

variable {s t l r a b : List Char} {ps qs : List (List Char)} {u : TypeExpr} {n : ℕ}

/-! ## Reading loses nothing -/

theorem InTurn.append_left (h : InTurn ps s) (l : List Char) : InTurn ps (l ++ s) := by
  cases h with
  | nil => exact .nil _
  | cons gap p h =>
    have hgap := InTurn.cons (l ++ gap) p h
    simpa using hgap

/-- What stands in turn in two texts stands in turn in both together. -/
theorem InTurn.append (ha : InTurn ps a) (hb : InTurn qs b) : InTurn (ps ++ qs) (a ++ b) := by
  induction ha with
  | nil rest => exact hb.append_left rest
  | cons gap p h ih =>
    have hrest := InTurn.cons gap p ih
    simpa using hrest

theorem InTurn.append_right (h : InTurn ps s) (r : List Char) : InTurn ps (s ++ r) := by
  simpa using h.append (.nil r)

theorem InTurn.between (h : InTurn ps s) (l r : List Char) : InTurn ps (l ++ s ++ r) :=
  (h.append_left l).append_right r

theorem InTurn.bracketed (h : InTurn ps s) : InTurn ps (bracketed s) := h.between ['['] [']']

theorem InTurn.generic (h : InTurn ps s) (name : String) : InTurn ps (generic name s) := by
  have hs := h.between (name.toList ++ ['<']) ['>']
  rwa [List.append_assoc name.toList] at hs

theorem InTurn.entry (ha : InTurn ps a) (hb : InTurn qs b) (sep : Char) :
    InTurn (ps ++ qs) (a ++ sep :: b) := ha.append (hb.append_left [sep])

/-- **A spelling holds the leaves of its type in turn.** -/
theorem Spelling.inTurn (h : Spelling u s) : InTurn u.leaves s := by
  induction h with
  | named text => simpa [leaves] using InTurn.cons [] text.toList (.nil [])
  | unsplit text => simpa [leaves] using InTurn.cons [] text.toList (.nil [])
  | question _ ih => exact ih.append_right ['?']
  | optional _ ih => exact ih.generic "Optional"
  | brackets _ ih => exact ih.bracketed
  | array _ ih => exact ih.generic "Array"
  | set _ ih => exact ih.generic "Set"
  | colon _ _ ihk ihv => exact (ihk.entry ihv ':').bracketed
  | dictionary _ _ ihk ihv => exact (ihk.entry ihv ',').generic "Dictionary"
  | pad _ _ _ ih => exact ih.between _ _

/-- **A text spells what is read from it.** -/
theorem spelling_parseWithin (n : ℕ) (s : List Char) : Spelling (parseWithin n s) s := by
  refine parseWithin_induct (P := fun _ u s => Spelling u s) (fun n t _ _ => ?_)
    (fun n t _ _ => ?_) (fun n t l h ih => ?_) (fun n u s h => ?_) n s
  · simpa using Spelling.named (String.ofList t)
  · simpa using Spelling.unsplit (String.ofList t)
  · cases h with
    | question s => exact .question (ih s)
    | optional _ => exact .optional (ih _)
    | brackets _ _ => exact .brackets (ih _)
    | colon _ => exact .colon (ih _) (ih _)
    | dictionary _ _ => exact .dictionary (ih _) (ih _)
    | array _ => exact .array (ih _)
    | set _ => exact .set (ih _)
  · obtain ⟨l, r, hl, hr, hs⟩ := exists_eq_append_trim s
    rw [hs]
    exact .pad h hl hr

/-- The leaves that are read are trimmed. -/
theorem trim_of_mem_leaves (n : ℕ) (s : List Char) :
    ∀ t ∈ (parseWithin n s).leaves, trim t = t := by
  refine parseWithin_induct (P := fun _ u _ => ∀ t ∈ u.leaves, trim t = t)
    (fun n t ht _ => ?_) (fun n t ht _ => ?_) (fun n t l h ih => ?_) (fun n u s h => h) n s
  · simpa [leaves] using ht
  · simpa [leaves] using ht
  · cases h with
    | question s => exact ih s
    | optional _ | brackets _ _ | array _ | set _ => exact ih _
    | colon _ | dictionary _ _ =>
      exact fun t ht => (List.mem_append.1 ht).elim (ih _ t) (ih _ t)

/-- **Reading loses nothing and invents nothing**: a text spells what is read from it, and the
leaves that are read are trimmed pieces of the text, in the order of the text. -/
theorem spelling_parse (s : String) :
    Spelling (parse s) s.toList ∧ (∀ t ∈ (parse s).leaves, trim t = t)
      ∧ InTurn (parse s).leaves s.toList :=
  ⟨spelling_parseWithin _ _, trim_of_mem_leaves _ _, (spelling_parseWithin _ _).inTurn⟩

/-! ## Reading is not misled

A spelling of a tree over plain names is balanced, with no separator at depth 0 and no dash at the
end.  That is what each form asks of the texts inside it, so it carries from level to level. -/

/-- Every leaf is a name with the property `p`. -/
def OverNames (p : String → Prop) : TypeExpr → Prop
  | named text => p text
  | unsplit _ => False
  | optional t => t.OverNames p
  | array t => t.OverNames p
  | set t => t.OverNames p
  | dictionary k v => k.OverNames p ∧ v.OverNames p

/-- A name that reads as itself and hides no separator or bracket from what surrounds it. -/
structure PlainName (name : String) : Prop where
  ne_empty : name ≠ ""
  trim_eq : trim name.toList = name.toList
  balanced : Balanced name.toList
  colon : TopFree ':' name.toList
  comma : TopFree ',' name.toList
  last : name.toList.getLast? ≠ some '-'
  parse_eq : parse name = .named name

/-- A text that can stand anywhere inside a form. -/
structure Embeddable (s : List Char) : Prop extends Argument s where
  colon : TopFree ':' s
  comma : TopFree ',' s
  visible : ¬ Blank s

/-- Two texts that can be embedded can be so side by side, behind a colon or a comma. -/
theorem Embeddable.entry (ha : Embeddable a) (hb : Embeddable b) : Entry ':' a b ∧ Entry ',' a b :=
  ⟨⟨ha.balanced, hb.balanced, ha.colon, hb.colon, ha.visible, hb.visible⟩,
    ⟨ha.balanced, hb.balanced, ha.comma, hb.comma, ha.visible, hb.visible⟩⟩

theorem PlainName.embeddable {name : String} (h : PlainName name) : Embeddable name.toList where
  balanced := h.balanced
  last := h.last
  colon := h.colon
  comma := h.comma
  visible hb := by
    rw [← trim_eq_nil_iff, h.trim_eq] at hb
    exact h.ne_empty (String.toList_eq_nil_iff.1 hb)

/-- A balanced text in square brackets can stand anywhere. -/
theorem embeddable_bracketed (h : Balanced s) : Embeddable (bracketed s) where
  balanced := balanced_bracketed h
  last := by simp [getLast?_bracketed]
  colon := h.grounded.topFree_wrap depth_square_open (separator_colon.ne_bracket rfl)
  comma := h.grounded.topFree_wrap depth_square_open (separator_comma.ne_bracket rfl)
  visible := not_blank_of_mem (c := '[') (by simp [bracketed]) (by decide)

/-- A generic type can stand anywhere. -/
theorem embeddable_generic {name : String} (hn : Word name) (h : Argument s) :
    Embeddable (generic name s) := by
  have hfree : ∀ sep, Separator sep → sep ∉ name.toList → TopFree sep (generic name s) := by
    intro sep hsep hmem
    rw [generic_eq]
    exact (topFree_of_not_mem hmem).append (apart_of_head (by simp)) hn.flat.depth_eq
      (h.balanced.grounded.topFree_wrap depth_angle_open (hsep.ne_bracket rfl))
  constructor
  · exact ⟨balanced_generic hn h, by simp [getLast?_generic]⟩
  · exact hfree ':' separator_colon hn.colon
  · exact hfree ',' separator_comma hn.comma
  · exact not_blank_of_mem (c := '<') (by simp [generic]) (by decide)

theorem embeddable_question (h : Embeddable s) : Embeddable (s ++ ['?']) := by
  have hflat : Flat ['?'] := by decide
  have hfree : ∀ sep, sep ∉ ['?'] → TopFree sep s → TopFree sep (s ++ ['?']) :=
    fun sep hsep hs => hs.append hflat.apart h.balanced.depth_eq (topFree_of_not_mem hsep)
  constructor
  · exact ⟨(balanced_append_flat_iff hflat).2 h.balanced, by simp⟩
  · exact hfree ':' (by decide) h.colon
  · exact hfree ',' (by decide) h.comma
  · exact not_blank_of_mem (c := '?') (by simp) (by decide)

theorem embeddable_pad (h : Embeddable s) (hl : Blank l) (hr : Blank r) :
    Embeddable (l ++ s ++ r) := by
  have hfree : ∀ sep, isBlank sep = false → TopFree sep s → TopFree sep (l ++ s ++ r) := by
    intro sep hsep hs
    have hnot : ∀ t, Blank t → sep ∉ t := fun t ht hm => not_blank_of_mem hm hsep ht
    have hls : TopFree sep (l ++ s) :=
      (topFree_of_not_mem (hnot l hl)).append (apart_blank hl) hl.flat.depth_eq hs
    refine hls.append hr.flat.apart ?_ (topFree_of_not_mem (hnot r hr))
    exact (hl.flat.balanced.append h.balanced).depth_eq
  -- the last character is that of the text or a blank behind it, and a dash is no blank
  have hlast : (l ++ s ++ r).getLast? ≠ some '-' := by
    cases r using List.reverseRecOn with
    | nil =>
      cases s using List.reverseRecOn with
      | nil => exact absurd blank_nil h.visible
      | append_singleton s c => simpa [← List.append_assoc] using h.last
    | append_singleton r c =>
      rw [← List.append_assoc, List.getLast?_concat]
      rintro ⟨rfl⟩
      exact absurd (hr '-' (by simp)) (by decide)
  constructor
  · exact ⟨(hl.flat.balanced.append h.balanced).append hr.flat.balanced, hlast⟩
  · exact hfree ':' (by decide) h.colon
  · exact hfree ',' (by decide) h.comma
  · intro hb
    exact h.visible fun c hc => hb c (by simp [hc])

/-- **A spelling of a tree over plain names can stand anywhere inside a form.** -/
theorem Spelling.embeddable (h : Spelling u s) (hu : u.OverNames PlainName) : Embeddable s := by
  induction h with
  | named text => exact PlainName.embeddable hu
  | unsplit text => exact hu.elim
  | question _ ih => exact embeddable_question (ih hu)
  | brackets _ ih => exact embeddable_bracketed (ih hu).balanced
  | optional _ ih => exact embeddable_generic word_optional (ih hu).toArgument
  | array _ ih => exact embeddable_generic word_array (ih hu).toArgument
  | set _ ih => exact embeddable_generic word_set (ih hu).toArgument
  | colon _ _ ihk ihv =>
    have he := ((ihk hu.1).entry (ihv hu.2)).1
    exact embeddable_bracketed (he.balanced separator_colon)
  | dictionary _ _ ihk ihv =>
    have he := ((ihk hu.1).entry (ihv hu.2)).2
    exact embeddable_generic word_dictionary
      ⟨he.balanced separator_comma, he.getLast?_eq ▸ (ihv hu.2).last⟩
  | pad _ hl hr ih => exact embeddable_pad (ih hu) hl hr

/-- A plain name reads as itself at every level. -/
theorem PlainName.parseWithin_eq {name : String} (h : PlainName name) (n : ℕ) :
    parseWithin n name.toList = .named name := by
  have hl : Layer.of name.toList = .name := by
    have hp : parseWithin maxLevels name.toList = .named name := h.parse_eq
    rw [maxLevels, parseWithin_succ, h.trim_eq] at hp
    cases hl : Layer.of name.toList <;> simp_all [Layer.map, Layer.toType]
  cases n with
  | zero => rw [parseWithin, h.trim_eq, String.ofList_toList]
  | succ n =>
    rw [parseWithin_succ, h.trim_eq, hl, Layer.map, Layer.toType, String.ofList_toList]

/-- **A spelling reads back as its tree where there is room for it.** -/
theorem Spelling.parseWithin_eq (h : Spelling u s) (hu : u.OverNames PlainName)
    (hn : u.height ≤ n) : parseWithin n s = u := by
  induction h generalizing n with
  | named text => exact PlainName.parseWithin_eq hu n
  | unsplit text => exact hu.elim
  | question _ ih =>
    match n, hn with
    | n + 1, hn => rw [parseWithin_question, ih hu (Nat.le_of_succ_le_succ hn)]
  | optional h ih =>
    match n, hn with
    | n + 1, hn =>
      rw [parseWithin_optional (h.embeddable hu).toArgument, ih hu (Nat.le_of_succ_le_succ hn)]
  | brackets h ih =>
    have he := h.embeddable hu
    match n, hn with
    | n + 1, hn =>
      rw [parseWithin_brackets he.balanced he.colon, ih hu (Nat.le_of_succ_le_succ hn)]
  | array h ih =>
    match n, hn with
    | n + 1, hn =>
      rw [parseWithin_array (h.embeddable hu).toArgument, ih hu (Nat.le_of_succ_le_succ hn)]
  | set h ih =>
    match n, hn with
    | n + 1, hn =>
      rw [parseWithin_set (h.embeddable hu).toArgument, ih hu (Nat.le_of_succ_le_succ hn)]
  | colon hk hv ihk ihv =>
    have he := ((hk.embeddable hu.1).entry (hv.embeddable hu.2)).1
    match n, hn with
    | n + 1, hn =>
      obtain ⟨hnk, hnv⟩ := Nat.max_le.1 (Nat.le_of_succ_le_succ hn)
      rw [parseWithin_colon he, ihk hu.1 hnk, ihv hu.2 hnv]
  | dictionary hk hv ihk ihv =>
    have he := ((hk.embeddable hu.1).entry (hv.embeddable hu.2)).2
    match n, hn with
    | n + 1, hn =>
      obtain ⟨hnk, hnv⟩ := Nat.max_le.1 (Nat.le_of_succ_le_succ hn)
      rw [parseWithin_dictionary he (hv.embeddable hu.2).last, ihk hu.1 hnk, ihv hu.2 hnv]
  -- blanks take up no level
  | pad _ hl hr ih => rw [parseWithin_pad hl hr, ih hu hn]

/-- **Reading is not misled**: whatever spelling each node of a tree over plain names is given, and
whatever blanks stand around it, the text reads back as the tree. -/
theorem parse_of_spelling {u : TypeExpr} {s : String} (h : Spelling u s.toList)
    (hu : u.OverNames PlainName) (hheight : u.height ≤ maxLevels) : parse s = u :=
  h.parseWithin_eq hu hheight

/-- An arrow inside and blanks around do not mislead. -/
theorem parse_spelling_of_function_dictionary :
    Spelling (.dictionary (.named "A") (.optional (.set (.named "(B, C) -> E<F, G>"))))
        "[A : Set< (B, C) -> E<F, G> > ?]".toList
      ∧ OverNames PlainName (.dictionary (.named "A")
          (.optional (.set (.named "(B, C) -> E<F, G>"))))
      ∧ parse "[A : Set< (B, C) -> E<F, G> > ?]"
        = .dictionary (.named "A") (.optional (.set (.named "(B, C) -> E<F, G>"))) := by
  have hblank : Blank [' '] := by decide
  have hs : Spelling (.dictionary (.named "A") (.optional (.set (.named "(B, C) -> E<F, G>"))))
      "[A : Set< (B, C) -> E<F, G> > ?]".toList :=
    .colon (.pad (.named "A") blank_nil hblank)
      (.pad (.question (.pad (.set (.pad (.named "(B, C) -> E<F, G>") hblank hblank))
        blank_nil hblank)) hblank blank_nil)
  have hu : OverNames PlainName (.dictionary (.named "A")
      (.optional (.set (.named "(B, C) -> E<F, G>")))) := by
    constructor <;> constructor <;> decide
  exact ⟨hs, hu, parse_of_spelling hs hu (by decide)⟩

end Exemplar.TypeExpr
