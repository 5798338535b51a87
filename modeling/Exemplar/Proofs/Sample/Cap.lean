import Exemplar.Proofs.Sample.Container
import Exemplar.Proofs.TypeExpr.Node
import Mathlib.Data.List.Forall2

/-!
# Proofs/Sample/Cap — what the cap on nesting does to a sample

    [[T?]: [T]]   capped at 1   ▸   [ "[T?]" : "[T]" ]   ▸   [[T?].sampleData: [T].sampleData]

Sampling under a cap is sampling without one, after each container that lies in as many others as
the cap allows has given way to its own text as a name (`within_eq_full_cutIn`).  That text is no
primitive's name, so it is delegated to; everything else is sampled as without a cap, and a higher
cap fills in some of the delegates (`grows_within`).
-/

namespace Exemplar

/-! ## Types cut off at a cap -/

namespace TypeExpr

/-- A type that lies in `above`, with its text as a name in place of each container that lies in
exactly `m` others, and in no optional. -/
def cutIn (m : ℕ) (above : List TypeExpr) (t : TypeExpr) : TypeExpr :=
  if (⟨above, t⟩ : Node).IsCapped m then .named t.text
  else
    match t with
    | named s => .named s
    | unsplit s => .unsplit s
    | optional u => .optional (cutIn m (above ++ [optional u]) u)
    | array u => .array (cutIn m (above ++ [array u]) u)
    | set u => .set (cutIn m (above ++ [set u]) u)
    | dictionary k v =>
      .dictionary (cutIn m (above ++ [dictionary k v]) k) (cutIn m (above ++ [dictionary k v]) v)

/-- How many containers are nested in a type, apart from those inside an optional. -/
def levels : TypeExpr → ℕ
  | named _ | unsplit _ | optional _ => 0
  | array t | set t => t.levels + 1
  | dictionary k v => max k.levels v.levels + 1

variable {above : List TypeExpr} {t : TypeExpr} {m : ℕ}

/-- A node too deep is cut down to its text. -/
theorem cutIn_of_isCapped (h : (⟨above, t⟩ : Node).IsCapped m) :
    t.cutIn m above = .named t.text := by
  cases t <;> rw [cutIn, if_pos h]

/-- Optionals are levels of the tree, but not of the sample. -/
theorem levels_le_height (t : TypeExpr) : t.levels ≤ t.height := by
  induction t with
  | named | unsplit | optional => exact Nat.zero_le _
  | array t ih | set t ih => exact Nat.succ_le_succ ih
  | dictionary k v ihk ihv =>
    exact Nat.succ_le_succ (Nat.max_le.2 ⟨Nat.le_trans ihk (Nat.le_max_left _ _),
      Nat.le_trans ihv (Nat.le_max_right _ _)⟩)

end TypeExpr

namespace Sample

open Text TypeExpr

variable {o : Overrides} {hint name : String} {above : List TypeExpr} {t : TypeExpr}
  {m n room : ℕ}

/-- The literal for a type where any number of containers may be nested. -/
def full (o : Overrides) (hint : String) : TypeExpr → Literal
  | .named name => ofName o hint name
  | .optional _ => .nil
  | .unsplit _ => .dictionary []
  | .array element => .array [full o hint element]
  | .set element => .set [full o "set value" element]
  | .dictionary key value => .dictionary [(full o "key" key, full o "value" value)]

/-- The names of all primitives. -/
def primitiveNames : List String :=
  ["String", "Int", "Bool"] ++ Primitive.sizedIntNames ++ Primitive.floatNames

theorem named?_eq_none (h : name ∉ primitiveNames) : Primitive.named? name = none := by
  simp only [primitiveNames, List.mem_append, List.mem_cons, List.not_mem_nil, or_false,
    not_or] at h
  obtain ⟨⟨⟨hstring, hint, hbool⟩, hsized⟩, hfloat⟩ := h
  rw [Primitive.named?, if_neg hstring, if_neg hint, if_neg (mt List.contains_iff_mem.1 hsized),
    if_neg (mt List.contains_iff_mem.1 hfloat), if_neg hbool]

/-- Names of primitive types have no brackets. -/
theorem flat_of_mem_primitiveNames : ∀ name ∈ primitiveNames, Flat name.toList := by decide

/-- **The text of a container is no primitive's name**, as it shows a bracket. -/
theorem not_mem_primitiveNames (h : t.isContainer = true) : t.text ∉ primitiveNames := by
  intro hmem
  have hflat : Flat t.chars := by simpa [TypeExpr.text] using flat_of_mem_primitiveNames _ hmem
  cases t with
  | named | unsplit | optional => cases h
  | array t => exact absurd (hflat '[' List.mem_cons_self) (by decide)
  | set t =>
    have hopen : '<' ∈ "Set<".toList := by decide
    exact absurd (hflat '<' (List.mem_append_left _ (List.mem_append_left _ hopen))) (by decide)
  | dictionary k v => exact absurd (hflat '[' List.mem_cons_self) (by decide)

/-- The text of a container is no primitive name, so it is delegated to. -/
theorem ofName_text (h : t.isContainer = true) : ofName o hint t.text = .delegate t.text := by
  rw [ofName, named?_eq_none (not_mem_primitiveNames h)]

/-- One container further in there is room for one less, up to the same cap. -/
theorem countP_concat_add (h : t.isContainer = true)
    (hm : above.countP isContainer + (room + 1) = m) :
    (above ++ [t]).countP isContainer + room = m := by
  rw [countP_concat h, ← hm, Nat.add_assoc, Nat.add_comm 1]

/-- **Sampling under a cap is sampling without one** of the type that is cut off at the cap. -/
theorem within_eq_full_cutIn (habove : ∀ u ∈ above, u.isOptional = false)
    (hm : above.countP isContainer + room = m) :
    within o room hint t = full o hint (t.cutIn m above) := by
  induction t generalizing above room hint with
  | named | unsplit | optional =>
    rw [cutIn, if_neg (not_isCapped_of_isContainer_eq_false rfl), within, full]
  | array t ih | set t ih =>
    cases room with
    -- the room is used up exactly below as many containers as the cap allows
    | zero =>
      obtain rfl : above.countP isContainer = m := hm
      rw [cutIn_of_isCapped (isCapped_of_isContainer rfl habove), full, ofName_text rfl, within]
    | succ room =>
      rw [cutIn, if_neg (not_isCapped_of_lt (by omega)), within, full]
      congr 2
      exact ih (not_isOptional_concat habove rfl) (countP_concat_add rfl hm)
  | dictionary k v ihk ihv =>
    cases room with
    | zero =>
      obtain rfl : above.countP isContainer = m := hm
      rw [cutIn_of_isCapped (isCapped_of_isContainer rfl habove), full, ofName_text rfl, within]
    | succ room =>
      have hclear := not_isOptional_concat (t := dictionary k v) habove rfl
      have hcap := countP_concat_add (t := dictionary k v) rfl hm
      rw [cutIn, if_neg (not_isCapped_of_lt (by omega)), within, full, ihk hclear hcap,
        ihv hclear hcap]

/-- A cap that the type does not reach is not seen. -/
theorem within_eq_full_of_levels_le (h : t.levels ≤ room) :
    within o room hint t = full o hint t := by
  induction t generalizing room hint with
  | named | unsplit | optional => rw [within, full]
  | array t ih | set t ih =>
    obtain ⟨room, rfl⟩ := Nat.exists_eq_succ_of_ne_zero (Nat.ne_zero_of_lt h)
    rw [within, full, ih (Nat.le_of_succ_le_succ h)]
  | dictionary k v ihk ihv =>
    obtain ⟨room, rfl⟩ := Nat.exists_eq_succ_of_ne_zero (Nat.ne_zero_of_lt h)
    obtain ⟨hk, hv⟩ := Nat.max_le.1 (Nat.le_of_succ_le_succ h)
    rw [within, full, ihk hk, ihv hv]

end Sample

/-! ## How deep a literal goes -/

namespace Literal

mutual

/-- How many containers that are not empty are nested in a literal. -/
def nesting : Literal → ℕ
  | string _ | integer _ | float _ | bool _ | nil | delegate _ => 0
  | array elements | set elements => nestingAround elements
  | dictionary entries => nestingAroundEntries entries

/-- The nesting of a container with these elements. -/
def nestingAround : List Literal → ℕ
  | [] => 0
  | l :: ls => max (l.nesting + 1) (nestingAround ls)

/-- The nesting of a dictionary with these entries. -/
def nestingAroundEntries : List (Literal × Literal) → ℕ
  | [] => 0
  | (k, v) :: es => max (max k.nesting v.nesting + 1) (nestingAroundEntries es)

end

/-- The literal `b` is `a` with some of its delegates replaced by literals. -/
inductive Grows : Literal → Literal → Prop
  | refl (a) : Grows a a
  | delegate (name b) : Grows (.delegate name) b
  | array {as bs} (h : List.Forall₂ Grows as bs) : Grows (.array as) (.array bs)
  | set {as bs} (h : List.Forall₂ Grows as bs) : Grows (.set as) (.set bs)
  | dictionary {as bs} (hkeys : List.Forall₂ Grows (as.map Prod.fst) (bs.map Prod.fst))
      (hvalues : List.Forall₂ Grows (as.map Prod.snd) (bs.map Prod.snd)) :
      Grows (.dictionary as) (.dictionary bs)

end Literal

namespace Sample

open TypeExpr

variable {o : Overrides} {hint name : String} {t u : TypeExpr} {m n room : ℕ}

/-- A fixed literal has nothing inside. -/
theorem Fixed.nesting {l : Literal} (h : Fixed l) : l.nesting = 0 := by
  cases h <;> rw [Literal.nesting]

theorem nesting_ofName : (ofName o hint name).nesting = 0 := by
  obtain rfl | rfl | ⟨l, hl, heq⟩ := ofName_cases name
  · rw [ofName_string, Literal.nesting]
  · rw [ofName_int, Literal.nesting]
  · exact heq _ _ ▸ hl.nesting

/-- **A sample does not go deeper than its cap.** -/
theorem nesting_within_le : (within o room hint t).nesting ≤ room := by
  induction t generalizing room hint with
  | named => simp [within, nesting_ofName]
  | unsplit | optional => simp [within, Literal.nesting, Literal.nestingAroundEntries]
  | array t ih | set t ih =>
    cases room with
    | zero => simp [within, Literal.nesting]
    | succ room => simp [within, Literal.nesting, Literal.nestingAround, ih]
  | dictionary k v ihk ihv =>
    cases room with
    | zero => simp [within, Literal.nesting]
    | succ room =>
      have hk : (within o room "key" k).nesting ≤ room := ihk
      have hv : (within o room "value" v).nesting ≤ room := ihv
      simpa [within, Literal.nesting, Literal.nestingAroundEntries] using Nat.max_le.2 ⟨hk, hv⟩

/-- **More room lets a sample grow.** -/
theorem grows_within (h : m ≤ n) : (within o m hint t).Grows (within o n hint t) := by
  induction t generalizing m n hint with
  | named | unsplit | optional =>
    rw [within, within]
    exact .refl _
  | array t ih =>
    cases m with
    | zero => exact .delegate _ _
    | succ m =>
      obtain ⟨n, rfl⟩ := Nat.exists_eq_succ_of_ne_zero (Nat.ne_zero_of_lt h)
      exact .array (.cons (ih (Nat.le_of_succ_le_succ h)) .nil)
  | set t ih =>
    cases m with
    | zero => exact .delegate _ _
    | succ m =>
      obtain ⟨n, rfl⟩ := Nat.exists_eq_succ_of_ne_zero (Nat.ne_zero_of_lt h)
      exact .set (.cons (ih (Nat.le_of_succ_le_succ h)) .nil)
  | dictionary k v ihk ihv =>
    cases m with
    | zero => exact .delegate _ _
    | succ m =>
      obtain ⟨n, rfl⟩ := Nat.exists_eq_succ_of_ne_zero (Nat.ne_zero_of_lt h)
      have hroom : m ≤ n := Nat.le_of_succ_le_succ h
      exact .dictionary (.cons (ihk hroom) .nil) (.cons (ihv hroom) .nil)

end Sample

/-! ## The places in a container -/

/-- A step from a container to what stands in it. -/
inductive Inward where
  | element
  | key
  | value

/-- What stands in a container type one step further in. -/
def TypeExpr.inside? : TypeExpr → Inward → Option TypeExpr
  | array t, .element | set t, .element => some t
  | dictionary k _, .key => some k
  | dictionary _ v, .value => some v
  | _, _ => none

/-- What stands in a literal with one element or entry one step further in. -/
def Literal.inside? : Literal → Inward → Option Literal
  | array [l], .element | set [l], .element => some l
  | dictionary [(k, _)], .key => some k
  | dictionary [(_, v)], .value => some v
  | _, _ => none

/-- The type at the end of a path that goes through containers only. -/
def TypeExpr.at? (t : TypeExpr) (path : List Inward) : Option TypeExpr :=
  path.foldlM TypeExpr.inside? t

/-- A path is followed from its first step. -/
theorem TypeExpr.at?_cons (t : TypeExpr) (i : Inward) (path : List Inward) :
    t.at? (i :: path) = (t.inside? i).bind fun u => u.at? path :=
  List.foldlM_cons

/-- The literal at the end of a path. -/
def Literal.at? (l : Literal) (path : List Inward) : Option Literal :=
  path.foldlM Literal.inside? l

namespace Sample

open TypeExpr

variable {o : Overrides} {hint : String} {t u : TypeExpr} {room : ℕ} {path : List Inward}

/-- Only containers are sampled by how much room there is. -/
theorem within_eq_full (h : t.isContainer = false) : within o room hint t = full o hint t := by
  cases t with
  | named | unsplit | optional => rw [within, full]
  | array | set | dictionary => cases h

/-- **What is no container is sampled as without a cap**, wherever it stands in no more containers
than the cap allows. -/
theorem exists_at?_within (ht : t.at? path = some u) (hu : u.isContainer = false)
    (hpath : path.length ≤ room) :
    ∃ l, (within o room hint t).at? path = some l ∧ (full o hint t).at? path = some l := by
  induction path generalizing t room hint with
  | nil =>
    obtain rfl := Option.some.inj ht
    exact ⟨_, congrArg some (within_eq_full hu), rfl⟩
  | cons i path ih =>
    obtain ⟨room, rfl⟩ := Nat.exists_eq_succ_of_ne_zero (Nat.ne_zero_of_lt hpath)
    have hrest : path.length ≤ room := Nat.le_of_succ_le_succ hpath
    rw [at?_cons] at ht
    obtain ⟨w, hw, hrestu⟩ := Option.bind_eq_some_iff.1 ht
    cases t with
    | named | unsplit | optional => cases hw
    | array t | set t =>
      cases i with
      | element => exact ih (Option.some.inj hw ▸ hrestu) hrest
      | key | value => cases hw
    | dictionary k v =>
      cases i with
      | element => cases hw
      | key | value => exact ih (Option.some.inj hw ▸ hrestu) hrest

end Sample

namespace Options

open TypeExpr

/-- **What the cap on nesting does.** It cuts the type and no more than that: sampled containers
nest no deeper than the cap, whatever is none is sampled as if there were no cap, and a type that
fits is sampled alike under all higher caps. A higher cap fills in delegates; from the parser's own
cap on, there is nothing left to fill in. -/
theorem sample_capped (o : Options) (t : TypeExpr) (hint : String) (m : ℕ) :
    (o.capped m).sample t hint = Sample.full o.overrides hint (t.cutIn m []) ∧
    ((o.capped m).sample t hint).nesting ≤ m ∧
    (∀ path u, t.at? path = some u → u.isContainer = false → path.length ≤ m →
      ∃ l, ((o.capped m).sample t hint).at? path = some l ∧
        (Sample.full o.overrides hint t).at? path = some l) ∧
    (t.levels ≤ m → ∀ n, m ≤ n → (o.capped n).sample t hint = (o.capped m).sample t hint) ∧
    (∀ n, m ≤ n → ((o.capped m).sample t hint).Grows ((o.capped n).sample t hint)) ∧
    ∀ s n, 64 ≤ m → 64 ≤ n → (o.capped m).synthesize s hint = (o.capped n).synthesize s hint := by
  have hdeep : ∀ s n, 64 ≤ n →
      (o.capped n).synthesize s hint = Sample.full o.overrides hint (parse s) := fun s n hn =>
    Sample.within_eq_full_of_levels_le <| (levels_le_height _).trans <|
      (height_parseWithin_le 64 s.toList).trans hn
  refine ⟨Sample.within_eq_full_cutIn (List.forall_mem_nil _) (Nat.zero_add m),
    Sample.nesting_within_le, fun path u => Sample.exists_at?_within, fun ht n hn => ?_,
    fun n => Sample.grows_within, fun s n hm hn => ?_⟩
  · exact (Sample.within_eq_full_of_levels_le (ht.trans hn)).trans
      (Sample.within_eq_full_of_levels_le ht).symm
  · rw [hdeep s m hm, hdeep s n hn]

/-- An array of dictionaries with sets as their values. -/
def stacked : TypeExpr := .array (.dictionary (.named "String") (.set (.named "T")))

/-- With room for two containers the sets are delegated to, and the keys, which stand where the sets
do, are sampled; a third container makes room for all, and a fourth is not needed. -/
theorem sample_capped_of_stacked :
    (capped {} 2).sample stacked "f"
        = Sample.full {} "f" (.array (.dictionary (.named "String") (.named "Set<T>"))) ∧
      stacked.at? [.element, .key] = some (.named "String") ∧
      ((capped {} 2).sample stacked "f").at? [.element, .key] = some (.string "Sample key") ∧
      stacked.levels ≤ 3 ∧ (capped {} 4).sample stacked "f" = (capped {} 3).sample stacked "f" ∧
      ((capped {} 2).sample stacked "f").Grows ((capped {} 3).sample stacked "f") ∧
      64 ≤ 65 ∧ (capped {} 64).synthesize "[T]" "f" = (capped {} 65).synthesize "[T]" "f" := by
  obtain ⟨hcut, -, hplaces, -, hgrows, -⟩ := sample_capped {} stacked "f" 2
  obtain ⟨l, hl, hfull⟩ := hplaces [.element, .key] (.named "String") rfl rfl (by decide)
  refine ⟨hcut, rfl, hl.trans (hfull.symm.trans rfl), by decide, ?_, hgrows 3 (by decide),
    by decide, ?_⟩
  · exact (sample_capped {} stacked "f" 3).2.2.2.1 (by decide) 4 (by decide)
  · exact (sample_capped {} stacked "f" 64).2.2.2.2.2 "[T]" 65 (by decide) (by decide)

end Options

end Exemplar
