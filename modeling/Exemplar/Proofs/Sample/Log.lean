import Exemplar.Proofs.Text.Trim
import Exemplar.Proofs.TypeExpr.Node
import Exemplar.Sample.Expansion
import Mathlib.Data.List.Perm.Basic

/-!
# Proofs/Sample/Log — the log of an expansion is complete and in order

    let a   let b = 1   let c: [[T]]   ▸   a skipped · b kept · [T] delegated · c chosen · done

What an expansion reports is said here from its members and its result.  A stored binding is
skipped, kept or sampled (`stored_perm`), and there is one line for each: first for all that are
skipped, then for all that are kept, then for the samples, each after the containers in it that were
too deep, and a last line counts the arguments (`log_expandEvents`).
-/

namespace Exemplar

open Text

/-! ## Stored bindings -/

/-- The member is a variable of the instance that binds one plain name, without getter or setter. -/
structure Member.Stores (m : Member) (s : String × Binding) : Prop where
  eq : m = .property ⟨false, [s.2]⟩
  pattern : s.2.pattern = .identifier s.1
  get : .get ∉ s.2.accessors
  set : .set ∉ s.2.accessors

/-- A binding is computed if it has a getter or a setter; observers do not count. -/
theorem Binding.isComputed_eq_false_iff {b : Binding} :
    b.isComputed = false ↔ .get ∉ b.accessors ∧ .set ∉ b.accessors := by
  rw [isComputed, List.any_eq_false]
  constructor
  · intro h
    exact ⟨fun hget => h .get hget rfl, fun hset => h .set hset rfl⟩
  · rintro ⟨hget, hset⟩ a ha hcomputing
    cases a with
    | get => exact hget ha
    | set => exact hset ha
    | willSet | didSet => cases hcomputing

namespace Member

/-- A member stores what its one binding names. -/
theorem stored?_eq_some_iff {m : Member} {s : String × Binding} :
    m.stored? = some s ↔ m.Stores s := by
  constructor
  · intro h
    unfold stored? at h
    split at h
    · rename_i b
      split at h
      · rename_i name hname
        split at h
        · cases h
        · rename_i hcomputed
          obtain rfl := Option.some.inj h
          obtain ⟨hget, hset⟩ := Binding.isComputed_eq_false_iff.1 (Bool.eq_false_iff.2 hcomputed)
          exact ⟨rfl, hname, hget, hset⟩
      · cases h
    · cases h
  · rintro ⟨rfl, hpattern, hget, hset⟩
    have hcomputed := Binding.isComputed_eq_false_iff.2 ⟨hget, hset⟩
    simp [stored?, hpattern, hcomputed]

/-- There is storage behind the member. -/
def IsStored (m : Member) : Prop := ∃ s, m.Stores s

instance (m : Member) : Decidable m.IsStored :=
  decidable_of_iff (m.stored?.isSome = true) <| by
    simp only [Option.isSome_iff_exists, stored?_eq_some_iff, IsStored]

end Member

namespace Binding

variable {b : Binding}

/-- There is neither an initializer nor an annotation that shows anything. -/
def Untyped (b : Binding) : Prop := b.initializer = none ∧ ∀ t ∈ b.declaredType, Blank t.toList

/-- There is no initializer, but an annotation to go by. -/
def Sampled (b : Binding) : Prop := b.initializer = none ∧ ∃ t ∈ b.declaredType, ¬ Blank t.toList

instance (b : Binding) : Decidable b.Untyped :=
  inferInstanceAs (Decidable (_ ∧ ∀ t ∈ b.declaredType, Blank t.toList))

instance (b : Binding) : Decidable b.Sampled :=
  inferInstanceAs (Decidable (_ ∧ ∃ t ∈ b.declaredType, ¬ Blank t.toList))

/-- The annotation without the blanks around it, or nothing. -/
def shownType (b : Binding) : String := trimmed (b.declaredType.getD "")

/-- A type is shown empty if there is none or it is blank. -/
theorem shownType_eq_empty_iff : b.shownType = "" ↔ ∀ t ∈ b.declaredType, Blank t.toList := by
  cases h : b.declaredType with
  | none => simp [shownType, h, trimmed, trim_of_blank blank_nil]
  | some t =>
    rw [shownType, h, Option.getD_some, trimmed, String.ofList_eq_empty_iff, trim_eq_nil_iff]
    simp

/-- What is sampled has a type to go by and no value of its own. -/
theorem sampled_iff : b.Sampled ↔ b.initializer = none ∧ ¬ b.Untyped := by
  rw [Sampled, Untyped]
  refine and_congr_right fun hnone => ?_
  rw [not_and_or, or_iff_right (not_not_intro hnone)]
  push Not
  rfl

end Binding

/-- The field that a stored binding is described by. -/
def Field.ofStored (s : String × Binding) : Field :=
  ⟨s.1, s.2.shownType, s.2.initializer.isSome⟩

/-- A binding describes a field unless it has nothing to go by. -/
theorem Field.ofBinding?_eq (s : String × Binding) :
    ofBinding? s.1 s.2 = if s.2.Untyped then none else some (ofStored s) := by
  have hempty : (s.2.shownType.isEmpty && s.2.initializer.isNone) = decide s.2.Untyped := by
    rw [Bool.eq_iff_iff, Bool.and_eq_true, decide_eq_true_iff, String.isEmpty_iff,
      Binding.shownType_eq_empty_iff, Option.isNone_iff_eq_none, Binding.Untyped, and_comm]
  have hdef : ofBinding? s.1 s.2 = if (s.2.shownType.isEmpty && s.2.initializer.isNone) = true
      then none else some (ofStored s) := rfl
  rw [hdef, hempty]
  simp

namespace Decl

variable (d : Decl)

/-- The stored bindings with nothing to go by. -/
def untyped : List (String × Binding) := d.stored.filter fun s => s.2.Untyped

/-- The stored bindings that have an initializer. -/
def kept : List (String × Binding) := d.stored.filter fun s => s.2.initializer.isSome

/-- The stored bindings that get a sample. -/
def sampled : List (String × Binding) := d.stored.filter fun s => s.2.Sampled

variable {d}

theorem isNone_ofBinding? (s : String × Binding) :
    (Field.ofBinding? s.1 s.2).isNone = decide s.2.Untyped := by
  rw [Field.ofBinding?_eq]
  split <;> simp [*]

/-- **The fields described are the stored bindings that have something to go by.** -/
theorem described_eq :
    d.described = (d.stored.filter fun s => ¬ s.2.Untyped).map Field.ofStored := by
  rw [described]
  induction d.stored with
  | nil => rfl
  | cons s l ih =>
    rw [List.filterMap_cons, Field.ofBinding?_eq]
    by_cases hs : s.2.Untyped <;> simp [hs, ih]

/-- A field with nothing to go by is reported. -/
theorem describeEvents_eq : d.describeEvents = d.untyped.map fun s => .untyped d.name s.1 := by
  rw [describeEvents, untyped]
  simp only [isNone_ofBinding?]

theorem filter_isSome_filter_not_untyped :
    (d.stored.filter fun s => ¬ s.2.Untyped).filter (fun s => s.2.initializer.isSome) = d.kept := by
  rw [List.filter_filter, kept]
  refine List.filter_congr fun s _ => ?_
  cases hs : s.2.initializer <;> simp [Binding.Untyped, hs]

theorem filter_isNone_filter_not_untyped :
    (d.stored.filter fun s => ¬ s.2.Untyped).filter (fun s => !s.2.initializer.isSome)
      = d.sampled := by
  rw [List.filter_filter, sampled]
  refine List.filter_congr fun s _ => ?_
  simp only [Binding.sampled_iff]
  cases hs : s.2.initializer <;> simp

/-- The fields with an initializer are the ones that are kept. -/
theorem filter_hasInitializer_described :
    d.described.filter Field.hasInitializer = d.kept.map Field.ofStored := by
  rw [described_eq, List.filter_map, ← filter_isSome_filter_not_untyped]
  rfl

/-- The fields extracted are the ones that are sampled. -/
theorem extracted_eq : d.extracted = d.sampled.map Field.ofStored := by
  rw [extracted, described_eq, List.filter_map, ← filter_isNone_filter_not_untyped]
  rfl

/-- **A stored binding is skipped, kept or sampled**, and one of these only. -/
theorem stored_perm : (d.untyped ++ (d.kept ++ d.sampled)).Perm d.stored := by
  have hrest : (d.kept ++ d.sampled).Perm (d.stored.filter fun s => ¬ s.2.Untyped) := by
    rw [← filter_isSome_filter_not_untyped, ← filter_isNone_filter_not_untyped]
    exact List.filter_append_perm _ _
  have hall := List.filter_append_perm (fun s : String × Binding => decide s.2.Untyped) d.stored
  simp only [decide_not] at hrest
  exact (hrest.append_left d.untyped).trans hall

/-- The stored bindings are those of the members that store, in order. -/
theorem forall₂_stored :
    List.Forall₂ Member.Stores (d.members.filter Member.IsStored) d.stored := by
  rw [stored]
  induction d.members with
  | nil => exact .nil
  | cons m ms ih =>
    cases hm : m.stored? with
    | none =>
      have hno : ¬ m.IsStored := by
        rintro ⟨s, hs⟩
        cases hm.symm.trans (Member.stored?_eq_some_iff.2 hs)
      rw [List.filterMap_cons_none hm, List.filter_cons_of_neg (by simpa using hno)]
      exact ih
    | some s =>
      have hs : m.Stores s := Member.stored?_eq_some_iff.1 hm
      have hyes : m.IsStored := ⟨s, hs⟩
      rw [List.filterMap_cons_some hm, List.filter_cons_of_pos (by simpa using hyes)]
      exact .cons hs ih

end Decl

/-! ## The log -/

/-- What is logged for an event. -/
def Event.line (e : Event) : Level × String × List (String × String) :=
  (e.level, e.message, e.values)

/-- What is logged while a sample of `aggregate` gets its argument `a` for the stored binding `s`: a
line for each container of its type that is too deep, then one for the literal. -/
def Options.fieldLog (o : Options) (aggregate : String) (s : String × Binding) (a : Argument) :
    List (Level × String × List (String × String)) :=
  ((TypeExpr.nodesIn [] (.parse s.2.shownType)).filter (TypeExpr.Node.IsCapped o.maxDepth)).map
      (fun x => (.debug, "nesting cap reached; delegating",
        [("ty", x.type.text), ("depth", toString o.maxDepth)])) ++
    [(.debug, "", [("aggregate", aggregate), ("field", a.name), ("ty", s.2.shownType),
      ("literal", a.literal.render defaultAccessor)])]

/-- The lines for an argument are the caps in its type and then its sample. -/
theorem Options.line_argumentEvents (o : Options) (aggregate : String) (s : String × Binding) :
    (o.argumentEvents aggregate (.ofStored s)).map Event.line =
      o.fieldLog aggregate s (o.argument (.ofStored s)) := by
  have hcapped : o.sampleEvents (Field.ofStored s).type =
      ((TypeExpr.nodesIn [] (.parse s.2.shownType)).filter (TypeExpr.Node.IsCapped o.maxDepth)).map
        fun x => .capped x.type o.maxDepth :=
    Sample.cappedWithin_zero o.maxDepth (TypeExpr.parse s.2.shownType)
  rw [argumentEvents, hcapped, List.map_append, List.map_map]
  rfl

namespace Decl

variable {d : Decl}

/-- The extraction logs first its warnings, then the initializers that are kept. -/
theorem line_extractEvents :
    d.extractEvents.map Event.line =
      d.untyped.map (fun s => (.warn, "field has no type annotation and no initializer; skipped",
        [("aggregate", d.name), ("field", s.1)])) ++
      d.kept.map (fun s => (.debug, "keeping explicit initializer",
        [("aggregate", d.name), ("field", s.1)])) := by
  rw [extractEvents, describeEvents_eq, filter_hasInitializer_described, List.map_append,
    List.map_map, List.map_map, List.map_map]
  rfl

/-- The arguments log their lines field by field. -/
theorem line_argumentEvents (o : Options) :
    (d.extracted.flatMap (o.argumentEvents d.name)).map Event.line =
      (d.sampled.zip (d.extracted.map o.argument)).flatMap
        fun p => o.fieldLog d.name p.1 p.2 := by
  have hzip : d.sampled.zip (d.sampled.map (o.argument ∘ Field.ofStored))
      = d.sampled.map fun s => (s, o.argument (.ofStored s)) := by
    simpa using List.zip_map' (f := id) (g := o.argument ∘ Field.ofStored) (l := d.sampled)
  rw [extracted_eq, List.map_map, List.map_flatMap, List.flatMap_map, hzip, List.flatMap_map]
  simp only [Options.line_argumentEvents]

/-- **The log of an expansion** has a warning for each stored binding with nothing to go by, a line
for each that keeps its initializer, for each argument the containers too deep in its type and its
literal, and a last line with their number, and each stored binding is in one of these parts. -/
theorem log_expandEvents (o : Options) (hd : d.kind = .struct) :
    ∃ x, d.expand o = .ok x ∧
      x.arguments = d.sampled.map (fun s => ⟨s.1, o.synthesize s.2.shownType s.1⟩) ∧
      (d.expandEvents o).map Event.line =
        d.untyped.map (fun s => (.warn, "field has no type annotation and no initializer; skipped",
          [("aggregate", d.name), ("field", s.1)])) ++
        d.kept.map (fun s => (.debug, "keeping explicit initializer",
          [("aggregate", d.name), ("field", s.1)])) ++
        (d.sampled.zip x.arguments).flatMap (fun p => o.fieldLog d.name p.1 p.2) ++
        [(.info, "expanded sample accessor",
          [("aggregate", d.name), ("fields", toString x.arguments.length)])] ∧
      List.Forall₂ Member.Stores (d.members.filter Member.IsStored) d.stored ∧
      (d.untyped ++ (d.kept ++ d.sampled)).Perm d.stored ∧
      d.untyped.length + d.kept.length + x.arguments.length = d.stored.length := by
  refine ⟨_, if_pos hd, ?_, ?_, forall₂_stored, stored_perm, ?_⟩
  · rw [extracted_eq, List.map_map]
    rfl
  · rw [expandEvents, if_pos hd, List.map_append, List.map_append, line_extractEvents,
      line_argumentEvents, List.length_map]
    rfl
  · have hcount := (stored_perm (d := d)).length_eq
    rw [List.length_append, List.length_append] at hcount
    rw [List.length_map, extracted_eq, List.length_map, Nat.add_assoc, hcount]

/-- A struct with one member of each fate: shared, sampled, kept, computed, skipped. -/
def grid : Decl :=
  ⟨.struct, "Grid", [.property ⟨true, [⟨.identifier "count", some "Int", none, []⟩]⟩,
    .property ⟨false, [⟨.identifier "rows", some " [[Row]] ", none, [.didSet]⟩]⟩,
    .property ⟨false, [⟨.identifier "draft", none, some "false", []⟩]⟩,
    .property ⟨false, [⟨.identifier "size", some "Int", none, [.get]⟩]⟩,
    .property ⟨false, [⟨.identifier "extra", some " ", none, []⟩]⟩], none⟩

/-- With room for one container, the inner list of `[[Row]]` is logged and delegated to. -/
theorem log_expandEvents_of_grid :
    grid.kind = .struct ∧ ∃ x, grid.expand { maxDepth := 1 } = .ok x ∧
      x.arguments = [⟨"rows", .array [.delegate "[Row]"]⟩] ∧
      (grid.expandEvents { maxDepth := 1 }).map Event.line =
        [(.warn, "field has no type annotation and no initializer; skipped",
          [("aggregate", "Grid"), ("field", "extra")]),
        (.debug, "keeping explicit initializer", [("aggregate", "Grid"), ("field", "draft")]),
        (.debug, "nesting cap reached; delegating", [("ty", "[Row]"), ("depth", "1")]),
        (.debug, "", [("aggregate", "Grid"), ("field", "rows"), ("ty", "[[Row]]"),
          ("literal", "[[Row].sampleData]")]),
        (.info, "expanded sample accessor", [("aggregate", "Grid"), ("fields", "1")])] := by
  obtain ⟨x, hx, hargs, hlog, -⟩ := log_expandEvents { maxDepth := 1 } (rfl : grid.kind = .struct)
  refine ⟨rfl, x, hx, hargs.trans rfl, ?_⟩
  rw [hlog, hargs]
  decide +kernel

end Decl

end Exemplar
