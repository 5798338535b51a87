import Exemplar.Decl.Format
import Exemplar.Proofs.Json.RecordAgrees

/-!
# Proofs/Decl/Components — the fields of the declaration records, one by one

    record   =   line ⊕ column   =   kind ⊕ name ⊕ members ⊕ span   =   …

Each record of the declaration model is `MadeOf` its components: a component knows its place in the
draft and in the data and what it is when it is left out.
-/

namespace Exemplar

open Json

/-- Steps that may fail, one after the other. -/
theorem ok_bind {ε α β : Type} (a : α) (f : α → Except ε β) : (Except.ok a >>= f) = f a := rfl

/-- An error ends what is bound to it. -/
theorem error_bind {ε α β : Type} (e : ε) (f : α → Except ε β) :
    (Except.error e >>= f) = .error e := rfl

namespace Span

/-- The components of a span. -/
def components : List (Component Draft Span) := [
  ⟨"line", Format.word32, Draft.line, fun n d => { d with line := some n }, none, Span.line,
    fun _ _ => rfl⟩,
  ⟨"column", Format.word32, Draft.column, fun n d => { d with column := some n }, none, Span.column,
    fun _ _ => rfl⟩]

theorem madeOf : record.MadeOf components where
  slots_eq := rfl
  nodup := by decide
  get_blank := by simp [components, record]
  get_set_of_ne := by simp [components]
  finish_iff := by
    rintro ⟨line, column⟩ ⟨⟩
    cases line <;> cases column <;> simp [record, required, components, ok_bind, error_bind]

end Span

namespace Binding

/-- The components of a binding. -/
def components : List (Component Draft Binding) := [
  ⟨"pattern", Pattern.format, Draft.pattern, fun p d => { d with pattern := some p }, none,
    Binding.pattern, fun _ _ => rfl⟩,
  ⟨"type_annotation", Format.text.optional, Draft.declaredType,
    fun t d => { d with declaredType := some t }, some none, Binding.declaredType, fun _ _ => rfl⟩,
  ⟨"initializer", Format.text.optional, Draft.initializer,
    fun t d => { d with initializer := some t }, some none, Binding.initializer, fun _ _ => rfl⟩,
  ⟨"accessors", Accessor.format.list, Draft.accessors,
    fun as d => { d with accessors := some as }, some [], Binding.accessors, fun _ _ => rfl⟩]

/-- A binding is made of its four components, of which only the pattern has to be there. -/
theorem madeOf : record.MadeOf components where
  slots_eq := rfl
  nodup := by decide
  get_blank := by simp [components, record]
  get_set_of_ne := by simp [components]
  finish_iff := by
    rintro ⟨pattern, declaredType, initializer, accessors⟩ ⟨⟩
    cases pattern <;> cases declaredType <;> cases initializer <;> cases accessors <;>
      simp [record, required, components]

end Binding

namespace Variable

/-- The components of a variable. -/
def components : List (Component Draft Variable) := [
  ⟨"is_static", Format.flag, Draft.isStatic, fun b d => { d with isStatic := some b }, some false,
    Variable.isStatic, fun _ _ => rfl⟩,
  ⟨"bindings", Binding.format.list, Draft.bindings, fun bs d => { d with bindings := some bs },
    none, Variable.bindings, fun _ _ => rfl⟩]

/-- A variable is made of its bindings and of whether it is static. -/
theorem madeOf : record.MadeOf components where
  slots_eq := rfl
  nodup := by decide
  get_blank := by simp [components, record]
  get_set_of_ne := by simp [components]
  finish_iff := by
    rintro ⟨isStatic, bindings⟩ ⟨⟩
    cases isStatic <;> cases bindings <;> simp [record, required, components]

end Variable

namespace Member

/-- The record of the name by itself, for a variant that has nothing else. -/
def bareRecord (variant : String) : Record (Option String) String where
  title := "struct variant Member::" ++ variant
  slots := [⟨"name", true, Option.isSome, Format.text.map fun s _ => some s⟩]
  blank := none
  finish := required "name"

/-- A member of which only the name counts is made from that name. -/
theorem nameRecord_eq_map (variant : String) (build : String → Member) :
    nameRecord variant build = (bareRecord variant).map build := rfl

/-- The one component of such a variant. -/
def nameComponents : List (Component (Option String) String) := [
  ⟨"name", Format.text, id, fun s _ => some s, none, id, fun _ _ => rfl⟩]

/-- A named member is made of its name. -/
theorem madeOf (variant : String) : (bareRecord variant).MadeOf nameComponents where
  slots_eq := rfl
  nodup := by decide
  get_blank := List.forall_mem_singleton.2 rfl
  get_set_of_ne := by
    intro c hc b hb hname
    rw [List.mem_singleton.1 hc, List.mem_singleton.1 hb] at hname
    exact absurd rfl hname
  finish_iff := by
    intro name a
    have hfinish : (bareRecord variant).finish name = required "name" name := rfl
    rw [hfinish, nameComponents, List.forall_mem_singleton]
    cases name <;> simp [required]

end Member

namespace Decl

/-- The components of a declaration. -/
def components : List (Component Draft Decl) := [
  ⟨"kind", Kind.format, Draft.kind, fun k d => { d with kind := some k }, none, Decl.kind,
    fun _ _ => rfl⟩,
  ⟨"name", Format.text, Draft.name, fun s d => { d with name := some s }, none, Decl.name,
    fun _ _ => rfl⟩,
  ⟨"members", Member.format.list, Draft.members, fun ms d => { d with members := some ms }, some [],
    Decl.members, fun _ _ => rfl⟩,
  ⟨"span", Span.format.optional, Draft.span, fun s d => { d with span := some s }, some none,
    Decl.span, fun _ _ => rfl⟩]

/-- A declaration is made of kind, name, members and span, the last two of which may be missing. -/
theorem madeOf : record.MadeOf components where
  slots_eq := rfl
  nodup := by decide
  get_blank := by simp [components, record]
  get_set_of_ne := by simp [components]
  finish_iff := by
    rintro ⟨kind, name, members, span⟩ ⟨⟩
    cases kind <;> cases name <;> cases members <;> cases span <;>
      simp [record, required, components, ok_bind, error_bind]

end Decl

end Exemplar
