import Exemplar.Proofs.Sample.Cap
import Mathlib.Logic.Function.Iterate

/-!
# Proofs/Sample/Influence — what a sample shows of the field's name and of the overrides

    [[String]]        tags ▸ [["Sample tags"]]        ids ▸ [["Sample ids"]]
    [String: Int]     "x" for String ▸ ["x": 123]     7 for Int ▸ ["Sample key": 7]

Two samples of one type are compared here.  Under two names they are the same, unless the type is
nested arrays around `String`: there the names show (`sample_hint`).  Under two tables of overrides
they are built alike and differ in the leaves that the tables name and in no others
(`sample_overridden`).  For the latter it is enough to look at single types, as what stands at a
place of a sample is itself a sample, of the type at that place (`exists_part?_within`).
-/

namespace Exemplar

/-! ## Nested arrays -/

/-- `t` inside `k` arrays. -/
def TypeExpr.arrays (k : ℕ) (t : TypeExpr) : TypeExpr := array^[k] t

/-- `l` inside `k` arrays of one element. -/
def Literal.arrays (k : ℕ) (l : Literal) : Literal := (fun l => array [l])^[k] l

theorem TypeExpr.arrays_succ (k : ℕ) (t : TypeExpr) : arrays (k + 1) t = .array (arrays k t) :=
  Function.iterate_succ_apply' _ _ _

theorem Literal.arrays_succ (k : ℕ) (l : Literal) : arrays (k + 1) l = .array [arrays k l] :=
  Function.iterate_succ_apply' _ _ _

/-- Nesting in arrays does not hide a difference. -/
theorem Literal.same_arrays (k : ℕ) (a b : Literal) :
    (arrays k a).same (arrays k b) = a.same b := by
  induction k with
  | zero => rfl
  | succ k ih => rw [arrays_succ, arrays_succ, same, sameAll, sameAll, ih, Bool.and_true]

/-! ## Two names -/

namespace Sample

variable {o : Overrides} {hint name : String} {t : TypeExpr} {k room : ℕ}

/-- **The text inside the sample of nested arrays around `String`** names the hint. -/
theorem within_arrays (hstring : o.string = none) (hk : k ≤ room) :
    within o room hint (.arrays k (.named "String")) = .arrays k (.string ("Sample " ++ hint)) := by
  induction k generalizing room with
  | zero =>
    have hname : within o room hint (.named "String") = ofName o hint "String" := by rw [within]
    rw [ofName_string, hstring, Option.getD_none] at hname
    exact hname
  | succ k ih =>
    obtain ⟨room, rfl⟩ := Nat.exists_eq_succ_of_ne_zero (Nat.ne_zero_of_lt hk)
    rw [TypeExpr.arrays_succ, within, ih (Nat.le_of_succ_le_succ hk), Literal.arrays_succ]

/-- A name is sampled alike for all hints, unless it is `String` and there is no override. -/
theorem ofName_hint (h : o.string = none → name ≠ "String") (f g : String) :
    ofName o f name = ofName o g name := by
  obtain rfl | rfl | ⟨l, -, heq⟩ := ofName_cases name
  · obtain ⟨s, hs⟩ := Option.ne_none_iff_exists'.1 fun hnone => h hnone rfl
    rw [ofName_string, ofName_string, hs, Option.getD_some, Option.getD_some]
  · rw [ofName_int, ofName_int]
  · rw [heq, heq]

/-- **A hint is not seen** outside of nested arrays around `String`, at most as many as there is
room for. -/
theorem within_hint (h : o.string = none → ∀ k ≤ room, t ≠ .arrays k (.named "String"))
    (f g : String) : within o room f t = within o room g t := by
  induction t generalizing room with
  | named name =>
    have hname : o.string = none → name ≠ "String" :=
      fun hnone hname => h hnone 0 (Nat.zero_le _) (congrArg _ hname)
    rw [within, within, ofName_hint hname f g]
  | optional | unsplit => rw [within, within]
  | array t ih =>
    cases room with
    | zero => rw [within, within]
    | succ room =>
      have hinside : o.string = none → ∀ k ≤ room, t ≠ .arrays k (.named "String") := by
        rintro hnone k hk rfl
        exact h hnone (k + 1) (Nat.succ_le_succ hk) (TypeExpr.arrays_succ _ _).symm
      rw [within, within, ih hinside]
  | set t | dictionary k v => cases room <;> rw [within, within]

end Sample

namespace Options

/-- The sample of `t` names what it is for: `t` is `k` nested arrays around `String`, no more than
the cap allows, and strings are not overridden. -/
structure Mentions (o : Options) (k : ℕ) (t : TypeExpr) : Prop where
  string : o.overrides.string = none
  le : k ≤ o.maxDepth
  eq : t = .arrays k (.named "String")

variable {o : Options} {k : ℕ} {t : TypeExpr}

/-- A type that mentions its hint has a sample that says it. -/
theorem Mentions.sample_eq (h : o.Mentions k t) (hint : String) :
    o.sample t hint = .arrays k (.string ("Sample " ++ hint)) :=
  h.eq ▸ Sample.within_arrays h.string h.le

/-- Samples that name what they are for are the same only for the same name. -/
theorem Mentions.same_sample (h : o.Mentions k t) (f g : String) :
    (o.sample t f).same (o.sample t g) = (f == g) := by
  rw [h.sample_eq, h.sample_eq, Literal.same_arrays, Literal.same, Bool.eq_iff_iff, beq_iff_eq,
    beq_iff_eq, String.append_right_inj]

/-- **Where the name of a field shows.** The samples of one type for two fields are equal, unless
strings are not overridden and the type is nested arrays around `String`, at most as many as the cap
allows. In this case each is as many arrays, of one element each, around the text that names its
field, and the two are not the same. -/
theorem sample_hint (o : Options) (t : TypeExpr) {f g : String} (hfg : f ≠ g) :
    (o.sample t f = o.sample t g ↔ ∀ k, ¬ o.Mentions k t) ∧
    ∀ k, o.Mentions k t →
      o.sample t f = .arrays k (.string ("Sample " ++ f)) ∧
      o.sample t g = .arrays k (.string ("Sample " ++ g)) ∧
      (o.sample t f).same (o.sample t g) = false := by
  refine ⟨⟨fun heq k h => ?_, fun h => ?_⟩, fun k h => ⟨h.sample_eq f, h.sample_eq g, ?_⟩⟩
  · have hsame := h.same_sample f g
    rw [heq, h.same_sample g g, beq_self_eq_true] at hsame
    exact hfg (eq_of_beq hsame.symm)
  · exact Sample.within_hint (fun hstring k hk ht => h k ⟨hstring, hk, ht⟩) f g
  · rw [h.same_sample, beq_false_of_ne hfg]

/-- With room for one container, `[String]` names what it is for and `[[String]]` does not. -/
theorem sample_hint_of_tags :
    "tags" ≠ "ids" ∧ (capped {} 1).Mentions 1 (.array (.named "String")) ∧
      (capped {} 1).sample (.array (.named "String")) "tags" = .array [.string "Sample tags"] ∧
      (capped {} 1).sample (.array (.named "String")) "ids" = .array [.string "Sample ids"] ∧
      (∀ k, ¬ (capped {} 1).Mentions k (.array (.array (.named "String")))) ∧
      (capped {} 1).sample (.array (.array (.named "String"))) "tags" =
        (capped {} 1).sample (.array (.array (.named "String"))) "ids" := by
  have hnames : "tags" ≠ "ids" := by decide
  have hmentions : (capped {} 1).Mentions 1 (.array (.named "String")) :=
    ⟨rfl, Nat.le_refl 1, rfl⟩
  obtain ⟨-, hshown⟩ := sample_hint (capped {} 1) (.array (.named "String")) hnames
  obtain ⟨htags, hids, -⟩ := hshown 1 hmentions
  have hdeep : ∀ k, ¬ (capped {} 1).Mentions k (.array (.array (.named "String"))) := by
    rintro (_ | _ | k) ⟨-, hle, heq⟩
    · cases heq
    · cases TypeExpr.array.inj heq
    · have hle : k + 2 ≤ 1 := hle
      omega
  exact ⟨hnames, hmentions, htags, hids, hdeep,
    (sample_hint (capped {} 1) (.array (.array (.named "String"))) hnames).1.2 hdeep⟩

end Options

/-! ## The parts of a literal -/

namespace Literal

/-- The constructors of literals. -/
inductive Form where
  | string
  | integer
  | float
  | bool
  | nil
  | array
  | set
  | dictionary
  | delegate
  deriving DecidableEq, Repr

/-- The constructor that a literal is made by. -/
def form : Literal → Form
  | string _ => .string
  | integer _ => .integer
  | float _ => .float
  | bool _ => .bool
  | nil => .nil
  | array _ => .array
  | set _ => .set
  | dictionary _ => .dictionary
  | delegate _ => .delegate

/-- A step from a container to one of its elements, keys or values, which are numbered from 0. -/
structure Step where
  inward : Inward
  index : ℕ

/-- What stands in a literal one step further in. -/
def child? : Literal → Step → Option Literal
  | array elements, ⟨.element, i⟩ | set elements, ⟨.element, i⟩ => elements[i]?
  | dictionary entries, ⟨.key, i⟩ => entries[i]?.map Prod.fst
  | dictionary entries, ⟨.value, i⟩ => entries[i]?.map Prod.snd
  | _, _ => none

/-- The part of a literal at the end of a path. -/
def part? (l : Literal) (path : List Step) : Option Literal :=
  path.foldlM child? l

/-- Nothing stands in the literal. -/
def IsLeaf (l : Literal) : Prop := ∀ s, l.child? s = none

/-- A path is followed from its first step. -/
theorem part?_cons (l : Literal) (s : Step) (path : List Step) :
    l.part? (s :: path) = (l.child? s).bind fun c => c.part? path :=
  List.foldlM_cons

end Literal

/-! ## Two tables of overrides -/

namespace Sample

open TypeExpr

/-- The samples `a` and `b` of the type `t`, under `x` and `y`, are built alike and differ in leaves
that `x` and `y` name only. -/
structure Alike (x y : Overrides) (t : TypeExpr) (a b : Literal) : Prop where
  /-- There are parts at the same places, made by the same constructors. -/
  form (path) : (a.part? path).map Literal.form = (b.part? path).map Literal.form
  /-- Leaves differ only where the tables do. -/
  differ {path c d} : a.part? path = some c → b.part? path = some d → c.IsLeaf → c ≠ d →
    (c.form = .string ∧ x.string ≠ y.string) ∨
      (c.form = .integer ∧ t.at? (path.map Literal.Step.inward) = some (.named "Int") ∧
        x.int ≠ y.int)
  /-- Delegates, flags, floats, `nil` and empty containers do not depend on the table. -/
  fixed {path c} : a.part? path = some c → c.IsLeaf → c.form ≠ .string → c.form ≠ .integer →
    b.part? path = some c

/-- The sample `a` of the type `t` shows what overrides it: every text and every `Int` does. -/
structure Follows (x : Overrides) (t : TypeExpr) (a : Literal) : Prop where
  string {path s} : a.part? path = some (.string s) → ∀ text ∈ x.string, s = text
  int {path c} : a.part? path = some c →
    t.at? (path.map Literal.Step.inward) = some (.named "Int") → ∀ n ∈ x.int, c = .integer n

variable {x y : Overrides} {hint name : String} {t u : TypeExpr} {l a b : Literal} {room : ℕ}
  {s : Literal.Step} {path : List Literal.Step}

theorem Fixed.isLeaf (h : Fixed l) : l.IsLeaf := by
  intro s
  cases h <;> rfl

/-- The sample of a name has no parts. -/
theorem isLeaf_ofName : (ofName x hint name).IsLeaf := by
  obtain rfl | rfl | ⟨l, hl, heq⟩ := ofName_cases name
  · exact ofName_string ▸ fun _ => rfl
  · exact ofName_int ▸ fun _ => rfl
  · exact heq _ _ ▸ hl.isLeaf

/-- One step into a sample leads to a sample of what stands one step into the type, under the same
hint and with as much room for all tables of overrides. -/
theorem exists_child?_within (h : (within x room hint t).child? s = some a) :
    ∃ u m hint', t.inside? s.inward = some u ∧ a = within x m hint' u ∧
      ∀ y, (within y room hint t).child? s = some (within y m hint' u) := by
  obtain ⟨i, n⟩ := s
  cases t with
  | named name =>
    rw [within, isLeaf_ofName] at h
    cases h
  | optional t =>
    rw [within] at h
    cases h
  | unsplit text =>
    rw [within] at h
    cases i <;> cases h
  | array t | set t =>
    cases room with
    -- without room there is a delegate, which has no parts
    | zero => cases h
    | succ room =>
      cases i with
      | element =>
        cases n with
        | zero => exact ⟨t, room, _, rfl, (Option.some.inj h).symm, fun y => rfl⟩
        | succ n => cases h
      | key | value => cases h
  | dictionary k v =>
    cases room with
    | zero => cases h
    | succ room =>
      cases n with
      | zero =>
        cases i with
        | element => cases h
        | key => exact ⟨k, room, _, rfl, (Option.some.inj h).symm, fun y => rfl⟩
        | value => exact ⟨v, room, _, rfl, (Option.some.inj h).symm, fun y => rfl⟩
      | succ n => cases i <;> cases h

/-- **A part of a sample is a sample** of the part of the type at the same place, under one hint and
with as much room for all tables of overrides. -/
theorem exists_part?_within (h : (within x room hint t).part? path = some a) :
    ∃ u m hint', t.at? (path.map Literal.Step.inward) = some u ∧ a = within x m hint' u ∧
      ∀ y, (within y room hint t).part? path = some (within y m hint' u) := by
  induction path generalizing t room hint with
  | nil => exact ⟨t, room, hint, rfl, (Option.some.inj h).symm, fun y => rfl⟩
  | cons s path ih =>
    rw [Literal.part?_cons] at h
    obtain ⟨b, hb, hpath⟩ := Option.bind_eq_some_iff.1 h
    obtain ⟨u, m, hint', hu, rfl, hchild⟩ := exists_child?_within hb
    obtain ⟨v, n, hint'', hv, ha, hpart⟩ := ih hpath
    refine ⟨v, n, hint'', ?_, ha, fun y => ?_⟩
    · rw [List.map_cons, at?_cons, hu]
      exact hv
    · rw [Literal.part?_cons, hchild y]
      exact hpart y

/-- **Samples of one type are made by one constructor**, whatever is overridden. -/
theorem form_within (x y : Overrides) :
    (within x room hint t).form = (within y room hint t).form := by
  cases t with
  | named name =>
    rw [within, within]
    obtain rfl | rfl | ⟨l, -, heq⟩ := ofName_cases name
    · rw [ofName_string, ofName_string, Literal.form, Literal.form]
    · rw [ofName_int, ofName_int, Literal.form, Literal.form]
    · rw [heq, heq]
  | optional | unsplit => rw [within, within]
  | array t | set t | dictionary k v => cases room <;> rfl

/-- **Only the samples of `String` and of `Int` are leaves that overrides have a part in.** -/
theorem eq_or_of_isLeaf_within (h : (within x room hint t).IsLeaf) (y : Overrides) :
    t = .named "String" ∨ t = .named "Int" ∨ within x room hint t = within y room hint t := by
  cases t with
  | named name =>
    obtain rfl | rfl | ⟨l, -, heq⟩ := ofName_cases name
    · exact .inl rfl
    · exact .inr (.inl rfl)
    · rw [within, within, heq, heq]
      exact .inr (.inr rfl)
  | optional | unsplit =>
    rw [within, within]
    exact .inr (.inr rfl)
  | array t | set t =>
    cases room with
    | zero => exact .inr (.inr rfl)
    | succ room => cases h ⟨.element, 0⟩
  | dictionary k v =>
    cases room with
    | zero => exact .inr (.inr rfl)
    | succ room => cases h ⟨.key, 0⟩

/-- **Texts are samples of `String`.** -/
theorem eq_of_form_within (h : (within x room hint t).form = .string) : t = .named "String" := by
  cases t with
  | named name =>
    rw [within] at h
    obtain rfl | rfl | ⟨l, hl, heq⟩ := ofName_cases name
    · rfl
    · rw [ofName_int] at h
      cases h
    · rw [heq] at h
      cases hl <;> cases h
  | optional | unsplit =>
    rw [within] at h
    cases h
  | array | set | dictionary => cases room <;> cases h

/-- At every place there is a part of both samples, made by one constructor, or of neither. -/
theorem map_form_part?_within (x y : Overrides) :
    ((within x room hint t).part? path).map Literal.form =
      ((within y room hint t).part? path).map Literal.form := by
  cases hx : (within x room hint t).part? path with
  | some a =>
    obtain ⟨u, m, hint', -, rfl, hpart⟩ := exists_part?_within hx
    rw [hpart y, Option.map_some, Option.map_some, form_within x y]
  | none =>
    cases hy : (within y room hint t).part? path with
    | none => rfl
    | some b =>
      obtain ⟨u, m, hint', -, -, hpart⟩ := exists_part?_within hy
      cases hx.symm.trans (hpart x)

/-- **Two leaves at one place that differ** are texts, and strings are overridden differently, or
they are numbers in the place of an `Int`, and whole numbers are. -/
theorem differ_of_ne (hx : (within x room hint t).part? path = some a)
    (hy : (within y room hint t).part? path = some b) (hleaf : a.IsLeaf) (hab : a ≠ b) :
    (a.form = .string ∧ x.string ≠ y.string) ∨
      (a.form = .integer ∧ t.at? (path.map Literal.Step.inward) = some (.named "Int") ∧
        x.int ≠ y.int) := by
  obtain ⟨u, m, hint', hu, rfl, hpart⟩ := exists_part?_within hx
  obtain rfl := Option.some.inj ((hpart y).symm.trans hy)
  obtain rfl | rfl | heq := eq_or_of_isLeaf_within hleaf y
  · rw [within, within, ofName_string, ofName_string] at hab
    rw [within, ofName_string]
    exact .inl ⟨rfl, fun h => hab (by rw [h])⟩
  · rw [within, within, ofName_int, ofName_int] at hab
    rw [within, ofName_int]
    exact .inr ⟨rfl, hu, fun h => hab (by rw [h])⟩
  · exact absurd heq hab

/-- A leaf that is neither a text nor a number stands in the other sample too. -/
theorem part?_within_of_form (hx : (within x room hint t).part? path = some a) (hleaf : a.IsLeaf)
    (htext : a.form ≠ .string) (hnumber : a.form ≠ .integer) :
    (within y room hint t).part? path = some a := by
  obtain ⟨u, m, hint', -, -, hpart⟩ := exists_part?_within hx
  have hy := hpart y
  by_contra hne
  have hab : a ≠ within y m hint' u := fun h => hne (h ▸ hy)
  obtain ⟨h, -⟩ | ⟨h, -⟩ := differ_of_ne hx hy hleaf hab
  · exact htext h
  · exact hnumber h

/-- Samples under two tables of overrides are alike. -/
theorem alike_within (x y : Overrides) :
    Alike x y t (within x room hint t) (within y room hint t) where
  form _ := map_form_part?_within x y
  differ := differ_of_ne
  fixed := part?_within_of_form

/-- A sample follows its table of overrides. -/
theorem follows_within (x : Overrides) : Follows x t (within x room hint t) where
  string {path s} h text htext := by
    obtain ⟨u, m, hint', -, hs, -⟩ := exists_part?_within h
    obtain rfl := eq_of_form_within (congrArg Literal.form hs.symm)
    rw [within, ofName_string, Option.mem_def.1 htext, Option.getD_some] at hs
    exact Literal.string.inj hs
  int {path c} h hplace n hn := by
    obtain ⟨u, m, hint', hu, hc, -⟩ := exists_part?_within h
    obtain rfl := Option.some.inj (hu.symm.trans hplace)
    rwa [within, ofName_int, Option.mem_def.1 hn, Option.getD_some] at hc

end Sample

namespace Options

/-- The options with another table of overrides. -/
def overridden (o : Options) (x : Overrides) : Options := { o with overrides := x }

/-- **What overrides touch.** The samples of one type under two tables of overrides have the same
constructors at all places. A leaf may differ if it is a text and the tables differ in the string,
or if it is a number in the place of an `Int`, of no other type of whole numbers, and they differ in
the number; all other leaves are equal. Where a table has a string, every text of the sample is that
string, and where it has a number, so is what stands in the place of an `Int`. -/
theorem sample_overridden (o : Options) (x y : Overrides) (t : TypeExpr) (hint : String) :
    Sample.Alike x y t ((o.overridden x).sample t hint) ((o.overridden y).sample t hint) ∧
      Sample.Follows x t ((o.overridden x).sample t hint) :=
  ⟨Sample.alike_within x y, Sample.follows_within x⟩

/-- Dictionaries by strings, by numbers. -/
def ledger : TypeExpr := .dictionary (.named "Int") (.dictionary (.named "String") (.named "Int8"))

/-- An override of both kinds. -/
def rewritten : Overrides := ⟨some "x", some 7⟩

/-- The two samples of `ledger` differ in the key, which follows the override as the key inside
does, and not in the number of fixed width. -/
theorem sample_overridden_of_ledger :
    ((overridden {} rewritten).sample ledger "f").part? [⟨.key, 0⟩] = some (.integer 7) ∧
      ((overridden {} {}).sample ledger "f").part? [⟨.key, 0⟩] = some (.integer 123) ∧
      ledger.at? [.key] = some (.named "Int") ∧ rewritten.int ≠ none ∧
      (∀ s, ((overridden {} rewritten).sample ledger "f").part? [⟨.value, 0⟩, ⟨.key, 0⟩]
        = some (.string s) → s = "x") ∧
      (∀ l, ((overridden {} rewritten).sample ledger "f").part? [⟨.key, 0⟩] = some l →
        l = .integer 7) ∧
      (((overridden {} {}).sample ledger "f").part? [⟨.value, 0⟩, ⟨.value, 0⟩]).map Literal.form
        = some .integer := by
  obtain ⟨halike, hfollows⟩ := sample_overridden {} rewritten {} ledger "f"
  have hnumber : ((overridden {} rewritten).sample ledger "f").part? [⟨.key, 0⟩]
      = some (.integer 7) := rfl
  have hbuiltIn : ((overridden {} {}).sample ledger "f").part? [⟨.key, 0⟩]
      = some (.integer 123) := rfl
  have hdiffer : Literal.integer 7 ≠ .integer 123 := by simp
  obtain ⟨htext, -⟩ | ⟨-, hplace, hne⟩ := halike.differ hnumber hbuiltIn (fun _ => rfl) hdiffer
  · cases htext
  · exact ⟨hnumber, hbuiltIn, hplace, hne, fun s h => hfollows.string h "x" rfl,
      fun l h => hfollows.int h rfl 7 rfl, (halike.form _).symm⟩

end Options

end Exemplar
