import Exemplar.Proofs.Decl.Components
import Exemplar.Proofs.Json.Form

/-!
# Proofs/Decl/Form — the values that stand for a declaration

    {"name": "S", "note": 0, "kind": "struct"}   ["struct", "S", []]   stand for   struct S

The forms of the declaration model, type by type: what a value has to be to stand for a kind, a
pattern, a member, a declaration.  **The format of a declaration decodes exactly its form**
(`decode_eq_ok_iff_form`), with the liberties that the forms spell out and no others.
-/

namespace Exemplar

open Json

/-! ## Kinds and accessors -/

/-- A kind is given by its keyword. -/
def Decl.Kind.Form (v : Value) (kind : Kind) : Prop := NameForm kind.keyword v

/-- A kind is decoded from its keyword, bare or with a null. -/
theorem Decl.Kind.decodes_form : Kind.format.Decodes Kind.Form := by
  refine Format.decodes_names (by decide) fun name kind => ?_
  cases kind <;> simp [all, keyword]

/-- An accessor is given by its name. -/
def Accessor.Form (v : Value) (accessor : Accessor) : Prop := NameForm accessor.name v

theorem Accessor.decodes_form : Accessor.format.Decodes Accessor.Form := by
  refine Format.decodes_names (by decide) fun name accessor => ?_
  cases accessor <;> simp [all, Accessor.name]

/-! ## Spans -/

namespace Span

/-- A span has to have both its numbers. -/
def fields : List (FieldForm Span) := [
  ⟨"line", fun v s => v = .number (.integer s.line.toNat), fun _ => False⟩,
  ⟨"column", fun v s => v = .number (.integer s.column.toNat), fun _ => False⟩]

/-- A span is a struct of two numbers. -/
def Form : Value → Span → Prop := StructForm fields

/-- A span is decoded from a line and a column. -/
theorem decodes_form : format.Decodes Form := by
  refine madeOf.decodes_structForm ?_
  refine .cons ⟨rfl, fun v a hv => (Format.decodes_word32 v _ hv).symm, by simp⟩ ?_
  exact .cons ⟨rfl, fun v a hv => (Format.decodes_word32 v _ hv).symm, by simp⟩ .nil

end Span

/-! ## Patterns -/

namespace Pattern

/-- A pattern names itself in its one key; a wildcard has nothing else to say. -/
inductive Form : Value → Pattern → Prop
  | identifier (name : String) : Form (.object [("identifier", .string name)]) (.identifier name)
  | tuple {vs : List Value} {parts : List Pattern} (h : List.Forall₂ Form vs parts) :
      Form (.object [("tuple", .array vs)]) (.tuple parts)
  | wildcard {v : Value} (h : NameForm "wildcard" v) : Form v .wildcard

/-- One layer of a pattern is decoded from one of three shapes; what stands inside a tuple is
decoded as a part. -/
theorem layer_decode_eq_ok {part : Format Pattern} {v : Value} {p : Pattern} :
    (layer part).decode v = .ok p ↔
      (∃ name, v = .object [("identifier", .string name)] ∧ p = .identifier name) ∨
      (∃ vs ps, v = .object [("tuple", .array vs)] ∧ p = .tuple ps ∧
        List.Forall₂ (fun v p => part.decode v = .ok p) vs ps) ∨
      NameForm "wildcard" v ∧ p = .wildcard := by
  have hnodup : ["identifier", "tuple", "wildcard"].Nodup := by decide
  refine (Format.choice_decode_iff ?_).trans ?_
  · exact hnodup
  simp only [List.mem_cons, List.not_mem_nil, or_false, exists_eq_or_imp, exists_eq_left,
    reduceCtorEq, and_false, false_or, Content.format, Format.map_decode_eq_ok,
    Format.text_decode_eq_ok, Format.list_decode_eq_ok, Format.unit_decode_eq_ok, NameForm]
  refine or_congr ⟨?_, ?_⟩ (or_congr ⟨?_, ?_⟩ ⟨?_, ?_⟩)
  · rintro ⟨_, rfl, name, rfl, rfl⟩
    exact ⟨name, rfl, rfl⟩
  · rintro ⟨name, rfl, rfl⟩
    exact ⟨_, rfl, name, rfl, rfl⟩
  · rintro ⟨_, rfl, ps, ⟨vs, rfl, hps⟩, rfl⟩
    exact ⟨vs, ps, rfl, rfl, hps⟩
  · rintro ⟨vs, ps, rfl, rfl, hps⟩
    exact ⟨_, rfl, ps, ⟨vs, rfl, hps⟩, rfl⟩
  · rintro (⟨rfl, hp⟩ | ⟨_, rfl, _, rfl, rfl⟩)
    · exact ⟨.inl rfl, (Content.nothing.inj hp).symm⟩
    · exact ⟨.inr rfl, rfl⟩
  · rintro ⟨rfl | rfl, rfl⟩
    · exact .inl ⟨rfl, rfl⟩
    · exact .inr ⟨_, rfl, (), rfl, rfl⟩

/-- As many layers as a value nests are enough for it. -/
theorem formatWithin_decode_eq_ok {depth : ℕ} {v : Value} {p : Pattern}
    (hdepth : v.nesting ≤ depth) : (formatWithin depth).decode v = .ok p ↔ Form v p := by
  induction depth generalizing v p with
  | zero =>
    rw [formatWithin, layer_decode_eq_ok]
    constructor
    · rintro (⟨name, rfl, rfl⟩ | ⟨vs, ps, rfl, rfl, -⟩ | ⟨hv, rfl⟩)
      · cases hdepth
      · cases hdepth
      · exact .wildcard hv
    · rintro (name | h | h)
      · cases hdepth
      · cases hdepth
      · exact .inr (.inr ⟨h, rfl⟩)
  | succ depth ih =>
    -- the parts of a tuple lie two containers further in
    have hparts : ∀ {vs : List Value}, (Value.object [("tuple", .array vs)]).nesting ≤ depth + 1 →
        ∀ v ∈ vs, v.nesting ≤ depth := by
      intro vs h
      have harray := Value.nesting_object_le.1 h _ List.mem_cons_self
      exact Value.nesting_array_le.1 (Nat.le_succ_of_le harray)
    rw [formatWithin, layer_decode_eq_ok]
    constructor
    · rintro (⟨name, rfl, rfl⟩ | ⟨vs, ps, rfl, rfl, hps⟩ | ⟨hv, rfl⟩)
      · exact .identifier name
      · refine .tuple (((List.forall₂_and_left vs ps).2 ⟨hparts hdepth, hps⟩).imp ?_)
        exact fun v p h => (ih h.1).1 h.2
      · exact .wildcard hv
    · rintro (name | h | h)
      · exact .inl ⟨name, rfl, rfl⟩
      · rename_i vs ps
        refine .inr (.inl ⟨vs, ps, rfl, rfl, ?_⟩)
        exact ((List.forall₂_and_left vs ps).2 ⟨hparts hdepth, h⟩).imp fun v p h => (ih h.1).2 h.2
      · exact .inr (.inr ⟨h, rfl⟩)

/-- **A pattern is decoded from its form**, as deep as it is nested. -/
theorem decode_eq_ok {v : Value} {p : Pattern} : format.decode v = .ok p ↔ Form v p :=
  formatWithin_decode_eq_ok (Nat.le_refl _)

theorem decodes_form : format.Decodes Form := fun _ _ _ => decode_eq_ok

end Pattern

/-! ## Bindings and variables -/

namespace Binding

/-- A binding has to have its pattern; null is for texts that are absent. -/
def fields : List (FieldForm Binding) := [
  ⟨"pattern", fun v b => Pattern.Form v b.pattern, fun _ => False⟩,
  ⟨"type_annotation", fun v b => OptionalForm (fun v s => v = .string s) v b.declaredType,
    fun b => b.declaredType = none⟩,
  ⟨"initializer", fun v b => OptionalForm (fun v s => v = .string s) v b.initializer,
    fun b => b.initializer = none⟩,
  ⟨"accessors", fun v b => ListForm Accessor.Form v b.accessors, fun b => b.accessors = []⟩]

/-- A binding is a struct of its pattern, annotation, initializer and accessors. -/
def Form : Value → Binding → Prop := StructForm fields

/-- A binding is decoded from its four fields. -/
theorem decodes_form : format.Decodes Form := by
  have htext := Format.decodes_text.optional fun s => nofun
  refine madeOf.decodes_structForm ?_
  refine .cons ⟨rfl, fun v a hv => (Pattern.decodes_form v _ hv).symm, by simp⟩ ?_
  refine .cons ⟨rfl, fun v a hv => (htext v _ hv).symm, by simp [eq_comm]⟩ ?_
  refine .cons ⟨rfl, fun v a hv => (htext v _ hv).symm, by simp [eq_comm]⟩ ?_
  exact .cons ⟨rfl, fun v a hv => (Accessor.decodes_form.list v _ hv).symm, by simp⟩ .nil

end Binding

namespace Variable

/-- A variable has to have its bindings. -/
def fields : List (FieldForm Variable) := [
  ⟨"is_static", fun v d => v = .bool d.isStatic, fun d => d.isStatic = false⟩,
  ⟨"bindings", fun v d => ListForm Binding.Form v d.bindings, fun _ => False⟩]

/-- A variable is a struct of its flag and its bindings. -/
def Form : Value → Variable → Prop := StructForm fields

theorem decodes_form : format.Decodes Form := by
  refine madeOf.decodes_structForm ?_
  have homits : ∀ d : Variable, d.isStatic = false ↔ some false = some d.isStatic :=
    fun d => ⟨fun h => congrArg some h.symm, fun h => (Option.some.inj h).symm⟩
  refine .cons ⟨rfl, fun v a hv => (Format.decodes_flag v _ hv).symm, homits⟩ ?_
  exact .cons ⟨rfl, fun v a hv => (Binding.decodes_form.list v _ hv).symm, by simp⟩ .nil

end Variable

/-! ## Members -/

namespace Member

/-- A member names its variant in its one key.  What only has a name is given by an object with it,
among any other entries; an initializer has nothing else to say. -/
inductive Form : Value → Member → Prop
  | property {v : Value} {declared : Variable} (h : Variable.Form v declared) :
      Form (.object [("variable", v)]) (.property declared)
  | function {es : List (String × Value)} {name : String} (h : ("name", .string name) ∈ es) :
      Form (.object [("function", .object es)]) (.function name)
  | initializer {v : Value} (h : NameForm "initializer" v) : Form v .initializer
  | nestedType {es : List (String × Value)} {name : String} (h : ("name", .string name) ∈ es) :
      Form (.object [("nested_type", .object es)]) (.nestedType name)

/-- What a variant with only a name is decoded from. -/
theorem nameRecord_decode_eq_ok {variant : String} {build : String → Member} {v : Value}
    {m : Member} (hv : v.Distinct) : (nameRecord variant build).variantFormat.decode v = .ok m ↔
      ∃ es name, v = .object es ∧ ("name", .string name) ∈ es ∧ m = build name := by
  rw [nameRecord_eq_map, Record.map_variantFormat, Format.map_decode_eq_ok]
  have hname : ∀ name, (bareRecord variant).variantFormat.decode v = .ok name ↔
      ∃ es, v = .object es ∧ ("name", .string name) ∈ es := by
    intro name
    cases v with
    | object es =>
      have hobject := (madeOf variant).decodeObject_iff (a := name) (Value.distinct_object.1 hv).1
      have hdecode : (bareRecord variant).variantFormat.decode (.object es)
          = (bareRecord variant).decodeObject es := rfl
      rw [hdecode, hobject, nameComponents, List.forall_mem_singleton, Component.Supplied]
      simp [Format.text_decode_eq_ok]
    | null | bool | number | string | array => simp [Record.variantFormat]
  constructor
  · rintro ⟨name, h, rfl⟩
    obtain ⟨es, rfl, hmem⟩ := (hname name).1 h
    exact ⟨es, name, rfl, hmem, rfl⟩
  · rintro ⟨es, name, rfl, hmem, rfl⟩
    exact ⟨name, (hname name).2 ⟨es, rfl, hmem⟩, rfl⟩

/-- A member is decoded from an object with one key, which names the kind of member. -/
theorem decodes_form : format.Decodes Form := by
  intro v m hv
  have hnodup : ["variable", "function", "initializer", "nested_type"].Nodup := by decide
  have hcontent : ∀ {name : String} {x : Value}, v = .object [(name, x)] → x.Distinct := by
    rintro name x rfl
    exact (Value.distinct_object.1 hv).2 _ List.mem_cons_self
  refine (Format.choice_decode_iff ?_).trans ?_
  · exact hnodup
  simp only [List.mem_cons, List.not_mem_nil, or_false, exists_eq_or_imp, exists_eq_left,
    reduceCtorEq, and_false, false_or, Content.format, Format.map_decode_eq_ok,
    Format.unit_decode_eq_ok]
  constructor
  · rintro (⟨x, hx, d, hd, rfl⟩ | ⟨x, hx, hm⟩ | (⟨rfl, hm⟩ | ⟨x, rfl, _, rfl, rfl⟩) | ⟨x, hx, hm⟩)
    · exact hx ▸ .property ((Variable.decodes_form _ _ (hcontent hx)).1 hd)
    · obtain ⟨es, name, rfl, hmem, rfl⟩ := (nameRecord_decode_eq_ok (hcontent hx)).1 hm
      exact hx ▸ .function hmem
    · cases hm
      exact .initializer (.inl rfl)
    · exact .initializer (.inr rfl)
    · obtain ⟨es, name, rfl, hmem, rfl⟩ := (nameRecord_decode_eq_ok (hcontent hx)).1 hm
      exact hx ▸ .nestedType hmem
  · rintro (h | h | h | h)
    · rename_i x declared
      exact .inl ⟨x, rfl, declared, (Variable.decodes_form _ _ (hcontent rfl)).2 h, rfl⟩
    · rename_i es name
      refine .inr (.inl ⟨_, rfl, (nameRecord_decode_eq_ok (hcontent rfl)).2 ?_⟩)
      exact ⟨es, name, rfl, h, rfl⟩
    · rcases h with rfl | rfl
      · exact .inr (.inr (.inl (.inl ⟨rfl, rfl⟩)))
      · exact .inr (.inr (.inl (.inr ⟨_, rfl, (), rfl, rfl⟩)))
    · rename_i es name
      refine .inr (.inr (.inr ⟨_, rfl, (nameRecord_decode_eq_ok (hcontent rfl)).2 ?_⟩))
      exact ⟨es, name, rfl, h, rfl⟩

end Member

/-! ## Declarations -/

namespace Decl

/-- A declaration has to have its kind and its name; null is for a span that is absent. -/
def fields : List (FieldForm Decl) := [
  ⟨"kind", fun v d => Kind.Form v d.kind, fun _ => False⟩,
  ⟨"name", fun v d => v = .string d.name, fun _ => False⟩,
  ⟨"members", fun v d => ListForm Member.Form v d.members, fun d => d.members = []⟩,
  ⟨"span", fun v d => OptionalForm Span.Form v d.span, fun d => d.span = none⟩]

/-- A declaration is a struct of its kind, name, members and span. -/
def Form : Value → Decl → Prop := StructForm fields

/-- Null is no span. -/
theorem not_form_null (s : Span) : ¬ Span.Form .null s := by
  rintro (⟨es, h, -⟩ | ⟨vs, h, -⟩) <;> cases h

/-- **A value without repeated keys is decoded as a declaration if and only if it stands for
it.** -/
theorem decode_eq_ok_iff_form {v : Value} {d : Decl} (hv : v.Distinct) :
    Decl.format.decode v = .ok d ↔ Form v d := by
  refine madeOf.decodes_structForm ?_ v d hv
  refine .cons ⟨rfl, fun v a hv => (Kind.decodes_form v _ hv).symm, by simp⟩ ?_
  refine .cons ⟨rfl, fun v a hv => (Format.decodes_text v _ hv).symm, by simp⟩ ?_
  refine .cons ⟨rfl, fun v a hv => (Member.decodes_form.list v _ hv).symm, by simp⟩ ?_
  have hspan := Span.decodes_form.optional not_form_null
  exact .cons ⟨rfl, fun v a hv => (hspan v _ hv).symm, by simp [eq_comm]⟩ .nil

/-- A key that names no field is passed over, and a kind may be written as an object. -/
theorem decode_eq_ok_iff_form_of_note :
    (Value.object [("note", .array []), ("name", .string "S"),
      ("kind", .object [("struct", .null)])]).Distinct ∧
    Decl.format.decode (.object [("note", .array []), ("name", .string "S"),
      ("kind", .object [("struct", .null)])]) = .ok ⟨.struct, "S", [], none⟩ := by
  have hdistinct : (Value.object [("note", .array []), ("name", .string "S"),
      ("kind", .object [("struct", .null)])]).Distinct := by
    simp [Value.Distinct, Value.Throughout, Value.ThroughoutItems, Value.ThroughoutEntries]
  refine ⟨hdistinct, (decode_eq_ok_iff_form hdistinct).2 (.inl ⟨_, rfl, ?_⟩)⟩
  simp [fields, FieldForm.In, Kind.Form, NameForm, Kind.keyword]

end Decl

end Exemplar
