import Exemplar.Proofs.Sample.Log
import Exemplar.Proofs.TypeExpr.Form

/-!
# Proofs/Sample/Members — the members of a struct are expanded one by one

    let a: Int,  static let b: Int,  let c = 1,  var d: [T] { didSet }
      ▸  a: 123,  d: [T.sampleData]

Each argument comes from one member and is made of nothing but that member (`expand_struct`), so a
list of members is expanded piece by piece.  A member gets no argument exactly if there is one of
the reasons listed in `Omitted`, and otherwise its argument is read off it (`expand_members`).
-/

namespace Exemplar

open Text

namespace Member

/-- No argument comes from the member, for one of these reasons. -/
inductive Omitted : Member → Prop
  | function (name : String) : Omitted (.function name)
  | initializer : Omitted .initializer
  | nestedType (name : String) : Omitted (.nestedType name)
  | shared (bindings : List Binding) : Omitted (.property ⟨true, bindings⟩)
  /-- The variable binds no pattern, or several. -/
  | count {isStatic bindings} (h : bindings.length ≠ 1) : Omitted (.property ⟨isStatic, bindings⟩)
  | tuple {isStatic b parts} (h : b.pattern = .tuple parts) : Omitted (.property ⟨isStatic, [b]⟩)
  | wildcard {isStatic b} (h : b.pattern = .wildcard) : Omitted (.property ⟨isStatic, [b]⟩)
  | computed {isStatic b} (h : .get ∈ b.accessors ∨ .set ∈ b.accessors) :
    Omitted (.property ⟨isStatic, [b]⟩)
  | initialized {isStatic b} (h : b.initializer ≠ none) : Omitted (.property ⟨isStatic, [b]⟩)
  /-- There is no annotation, or there is nothing but blanks in it. -/
  | untyped {isStatic b} (h : ∀ type ∈ b.declaredType, Blank type.toList) :
    Omitted (.property ⟨isStatic, [b]⟩)

/-- The binding of the member that gets a sample, with the name that it binds. -/
def sampled? (m : Member) : Option (String × Binding) :=
  m.stored?.filter fun s => s.2.Sampled

variable {m : Member} {s : String × Binding}

/-- What is omitted is not sampled, even if it is stored. -/
theorem Omitted.not_sampled (h : m.Omitted) (hs : m.Stores s) : ¬ s.2.Sampled := by
  rintro ⟨hnone, type, htype, hvisible⟩
  obtain ⟨rfl, hpattern, hget, hset⟩ := hs
  cases h with
  | count h => exact h rfl
  | tuple h => cases hpattern.symm.trans h
  | wildcard h => cases hpattern.symm.trans h
  | computed h => exact h.elim hget hset
  | initialized h => exact h hnone
  | untyped h => exact hvisible (h type htype)

/-- The reasons to omit a member are all there are. -/
theorem exists_stores_of_not_omitted (h : ¬ m.Omitted) : ∃ s, m.Stores s ∧ s.2.Sampled := by
  cases m with
  | function name => exact absurd (.function name) h
  | initializer => exact absurd .initializer h
  | nestedType name => exact absurd (.nestedType name) h
  | property v =>
    obtain ⟨isStatic, bindings⟩ := v
    cases isStatic with
    | true => exact absurd (.shared bindings) h
    | false =>
      have hcount : bindings.length = 1 := by_contra fun hne => h (.count hne)
      obtain ⟨b, rfl⟩ := List.length_eq_one_iff.1 hcount
      cases hpattern : b.pattern with
      | tuple parts => exact absurd (.tuple hpattern) h
      | wildcard => exact absurd (.wildcard hpattern) h
      | identifier name =>
        have hget : .get ∉ b.accessors := fun hget => h (.computed (.inl hget))
        have hset : .set ∉ b.accessors := fun hset => h (.computed (.inr hset))
        have hnone : b.initializer = none := by_contra fun hsome => h (.initialized hsome)
        have hvisible : ∃ type ∈ b.declaredType, ¬ Blank type.toList := by
          by_contra hno
          exact h (.untyped fun type htype => by_contra fun hv => hno ⟨type, htype, hv⟩)
        exact ⟨(name, b), ⟨rfl, hpattern, hget, hset⟩, hnone, hvisible⟩

/-- A member is sampled by the binding that it stores. -/
theorem sampled?_eq_some_iff : m.sampled? = some s ↔ m.Stores s ∧ s.2.Sampled := by
  rw [sampled?, Option.filter_eq_some_iff, stored?_eq_some_iff, decide_eq_true_iff]

/-- **A member is sampled unless there is a reason to omit it.** -/
theorem sampled?_eq_none_iff : m.sampled? = none ↔ m.Omitted := by
  constructor
  · intro h
    by_contra hno
    obtain ⟨s, hs⟩ := exists_stores_of_not_omitted hno
    cases h.symm.trans (sampled?_eq_some_iff.2 hs)
  · intro h
    refine Option.eq_none_iff_forall_ne_some.2 fun s hs => ?_
    obtain ⟨hstores, hsampled⟩ := sampled?_eq_some_iff.1 hs
    exact h.not_sampled hstores hsampled

end Member

namespace Options

/-- The argument that comes from a member. -/
def argument? (o : Options) (m : Member) : Option Argument :=
  m.sampled?.map fun s => o.argument (.ofStored s)

variable {o : Options} {m : Member}

/-- **A member has no argument exactly if it is omitted.** -/
theorem argument?_eq_none_iff : o.argument? m = none ↔ m.Omitted := by
  rw [argument?, Option.map_eq_none_iff, Member.sampled?_eq_none_iff]

/-- **The argument of a member** has the name that it binds and the sample of its annotation. -/
theorem argument?_of_not_omitted (h : ¬ m.Omitted) :
    ∃ name b type, m = .property ⟨false, [b]⟩ ∧ b.pattern = .identifier name ∧
      type ∈ b.declaredType ∧ o.argument? m = some ⟨name, o.synthesize type name⟩ := by
  obtain ⟨s, hs, hsampled⟩ := Member.exists_stores_of_not_omitted h
  have hsome : m.sampled? = some s := Member.sampled?_eq_some_iff.2 ⟨hs, hsampled⟩
  obtain ⟨-, type, htype, -⟩ := hsampled
  refine ⟨s.1, s.2, type, hs.eq, hs.pattern, htype, ?_⟩
  -- the field shows the annotation trimmed, which is read alike
  have hparse : TypeExpr.parse s.2.shownType = TypeExpr.parse type := by
    rw [Binding.shownType, Option.mem_def.1 htype, Option.getD_some, TypeExpr.parse_trimmed]
  rw [argument?, hsome, Option.map_some, synthesize, ← hparse]
  rfl

end Options

namespace Decl

/-- **The arguments of a struct come from its members**, one by one. -/
theorem expand_struct (o : Options) (name : String) (ms : List Member) (span : Option Span) :
    expand o ⟨.struct, name, ms, span⟩ = .ok ⟨name, o.accessor, ms.filterMap o.argument?⟩ := by
  have hsampled : (⟨.struct, name, ms, span⟩ : Decl).sampled = ms.filterMap Member.sampled? :=
    List.filter_filterMap
  rw [expand, if_pos rfl, extracted_eq, hsampled, List.map_map, List.map_filterMap]
  rfl

/-- **The members of a struct are expanded one by one.** The arguments for a list of members are
those for its pieces, each expanded in a struct of its own, whatever these are called and wherever
they stand. One member makes one argument, with the name that it binds and the sample of its
annotation, or none if it is to be omitted. What is no struct is refused, whatever its members. -/
theorem expand_members (o : Options) :
    (∀ (n n₁ n' n₂ : String) (p p₁ p' p₂ : Option Span) (ms₁ ms₂ : List Member) (m : Member),
      ∃ x x₁ x' x₂,
        expand o ⟨.struct, n, ms₁ ++ [m] ++ ms₂, p⟩ = .ok x ∧
        expand o ⟨.struct, n₁, ms₁, p₁⟩ = .ok x₁ ∧
        expand o ⟨.struct, n', [m], p'⟩ = .ok x' ∧
        expand o ⟨.struct, n₂, ms₂, p₂⟩ = .ok x₂ ∧
        x.arguments = x₁.arguments ++ x'.arguments ++ x₂.arguments ∧
        x'.arguments.length ≤ 1 ∧
        (x'.arguments = [] ↔ m.Omitted) ∧
        (¬ m.Omitted → ∃ name b type, m = .property ⟨false, [b]⟩ ∧ b.pattern = .identifier name ∧
          type ∈ b.declaredType ∧ x'.arguments = [⟨name, o.synthesize type name⟩])) ∧
    ∀ d : Decl, d.kind ≠ .struct → d.expand o = .error (.notStruct d.kind d.name d.span) := by
  refine ⟨fun n n₁ n' n₂ p p₁ p' p₂ ms₁ ms₂ m => ?_, fun d hd => if_neg hd⟩
  have hone : [m].filterMap o.argument? = (o.argument? m).toList := by
    cases h : o.argument? m <;> simp [h]
  refine ⟨_, _, _, _, expand_struct o n _ p, expand_struct o n₁ ms₁ p₁, expand_struct o n' [m] p',
    expand_struct o n₂ ms₂ p₂, ?_, ?_, ?_, fun h => ?_⟩
  · rw [List.filterMap_append, List.filterMap_append]
  · rw [hone]
    exact Option.length_toList_le
  · rw [hone, Option.toList_eq_nil_iff, Options.argument?_eq_none_iff]
  · obtain ⟨name, b, type, hm, hpattern, htype, hargument⟩ := Options.argument?_of_not_omitted h
    exact ⟨name, b, type, hm, hpattern, htype, by rw [hone, hargument, Option.toList_some]⟩

/-- The binding of a variable with an observer, which keeps it stored. -/
def observed : Binding := ⟨.identifier "rows", some " [Row] ", none, [.didSet]⟩

/-- An observed variable gets its argument wherever it stands, and makes no struct of a class. -/
theorem expand_members_of_observed :
    ¬ (Member.property ⟨false, [observed]⟩).Omitted ∧
      (∃ x x', expand {} ⟨.struct, "Grid",
          [.initializer] ++ [.property ⟨false, [observed]⟩] ++ [.field "count" "Int"], none⟩
            = .ok x ∧
        expand {} ⟨.struct, "Row", [.property ⟨false, [observed]⟩], none⟩ = .ok x' ∧
        x'.arguments = [⟨"rows", .array [.delegate "Row"]⟩] ∧
        x.arguments = x'.arguments ++ [⟨"count", .integer 123⟩]) ∧
      Kind.classType ≠ .struct ∧
      expand {} ⟨.classType, "Grid", [.property ⟨false, [observed]⟩], none⟩
        = .error (.notStruct .classType "Grid" none) := by
  have hstores : (Member.property ⟨false, [observed]⟩).Stores ("rows", observed) :=
    ⟨rfl, rfl, by decide, by decide⟩
  have hsampled : observed.Sampled := by decide
  have hkept : ¬ (Member.property ⟨false, [observed]⟩).Omitted :=
    fun h => h.not_sampled hstores hsampled
  obtain ⟨hpieces, hother⟩ := expand_members {}
  obtain ⟨x, x₁, x', x₂, hx, hx₁, hx', hx₂, happend, -, -, hargument⟩ :=
    hpieces "Grid" "A" "Row" "B" none none none none [.initializer] [.field "count" "Int"]
      (.property ⟨false, [observed]⟩)
  obtain ⟨name, b, type, hm, hpattern, htype, hargument⟩ := hargument hkept
  cases hm
  cases hpattern
  cases htype
  have hnone : x₁.arguments = [] := by rw [← Except.ok.inj hx₁]; rfl
  have hcount : x₂.arguments = [⟨"count", .integer 123⟩] := by rw [← Except.ok.inj hx₂]; rfl
  rw [hnone, hcount, List.nil_append] at happend
  have hclass : Kind.classType ≠ .struct := by decide
  exact ⟨hkept, ⟨x, x', hx, hx', hargument.trans rfl, happend⟩, hclass, hother _ hclass⟩

end Decl

end Exemplar
