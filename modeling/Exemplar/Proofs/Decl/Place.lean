import Exemplar.Proofs.Decl.RoundTrip
import Exemplar.Proofs.Json.Place

/-!
# Proofs/Decl/Place — where in a document a declaration fails

    {"kind": "struct", "name": "S", "members": [{"variable": {"bindings": 7}}]}

fails at `members[0].variable.bindings`.  The schema of the declaration model says what may be on
such a path, and every format of the model is sited in it.  A document of several declarations fails
as the first of them that fails on its own, one index further out (`failures_placed`).
-/

namespace Exemplar

open Json

namespace Decl

/-- The kinds of places in the document of a declaration. -/
inductive Part where
  /-- A text, a flag, a number or null: nothing in it is a place. -/
  | leaf
  | kind
  | accessor
  | span
  | pattern
  | binding
  | property
  /-- What a member has that has only a name. -/
  | named
  | member
  | declaration
  | list (item : Part)

/-- What is expected at each place in the document of a declaration. -/
def schema : Schema Part where
  fields
    | .span => [("line", .leaf), ("column", .leaf)]
    | .binding => [("pattern", .pattern), ("type_annotation", .leaf), ("initializer", .leaf),
        ("accessors", .list .accessor)]
    | .property => [("is_static", .leaf), ("bindings", .list .binding)]
    | .named => [("name", .leaf)]
    | .declaration => [("kind", .kind), ("name", .leaf), ("members", .list .member),
        ("span", .span)]
    | _ => []
  item?
    | .list item => some item
    | _ => none
  variants
    | .kind => Kind.all.map fun kind => (kind.keyword, .leaf)
    | .accessor => Accessor.all.map fun accessor => (accessor.name, .leaf)
    | .pattern => [("identifier", .leaf), ("tuple", .list .pattern), ("wildcard", .leaf)]
    | .member => [("variable", .property), ("function", .named), ("initializer", .leaf),
        ("nested_type", .named)]
    | _ => []

end Decl

open Decl (schema)

/-! ## The formats of the model -/

theorem Decl.Kind.sited_format : Kind.format.Sited schema .kind := by
  refine Format.sited_names fun c hc => ⟨.leaf, ?_⟩
  obtain ⟨kind, hkind, rfl⟩ := List.mem_map.1 hc
  exact List.mem_map.2 ⟨kind, hkind, rfl⟩

theorem Accessor.sited_format : format.Sited schema .accessor := by
  refine Format.sited_names fun c hc => ⟨.leaf, ?_⟩
  obtain ⟨accessor, haccessor, rfl⟩ := List.mem_map.1 hc
  exact List.mem_map.2 ⟨accessor, haccessor, rfl⟩

theorem Span.sited_format : format.Sited schema .span :=
  Record.sited_format <| .cons ⟨rfl, Format.sited_atom.map _⟩ <|
    .cons ⟨rfl, Format.sited_atom.map _⟩ .nil

namespace Pattern

/-- One layer of a pattern fails where its parts do. -/
theorem sited_layer {part : Format Pattern} (h : part.Sited schema .pattern) :
    (layer part).Sited schema .pattern := by
  refine Format.sited_choice ?_
  refine List.forall_mem_cons.2 ⟨⟨.leaf, ?_, Format.sited_atom.map _⟩, ?_⟩
  · simp [schema]
  refine List.forall_mem_cons.2 ⟨⟨.list .pattern, ?_, (h.list rfl).map _⟩, ?_⟩
  · simp [schema]
  refine List.forall_mem_singleton.2 ⟨.leaf, ?_, Format.sited_atom.map _⟩
  simp [schema]

/-- A pattern of any depth fails at a place inside of it, or as a whole. -/
theorem sited_formatWithin : ∀ depth, (formatWithin depth).Sited schema .pattern
  | 0 => sited_layer Format.sited_never
  | depth + 1 => sited_layer (sited_formatWithin depth)

theorem sited_format : format.Sited schema .pattern :=
  fun v => sited_formatWithin v.nesting v

end Pattern

theorem Binding.sited_format : format.Sited schema .binding := by
  have htext : Format.text.optional.Sited schema Decl.Part.leaf := Format.sited_atom.optional
  refine Record.sited_format <| .cons ⟨rfl, Pattern.sited_format.map _⟩ ?_
  refine .cons ⟨rfl, htext.map _⟩ <| .cons ⟨rfl, htext.map _⟩ ?_
  exact .cons ⟨rfl, (Accessor.sited_format.list rfl).map _⟩ .nil

theorem Variable.sited_format : format.Sited schema .property :=
  Record.sited_format <| .cons ⟨rfl, Format.sited_atom.map _⟩ <|
    .cons ⟨rfl, (Binding.sited_format.list rfl).map _⟩ .nil

namespace Member

/-- A member of which only the name counts fails there or at the name. -/
theorem sited_nameRecord (variant : String) (build : String → Member) :
    (nameRecord variant build).variantFormat.Sited schema .named :=
  Record.sited_variantFormat <| .cons ⟨rfl, Format.sited_atom.map _⟩ .nil

/-- A member fails inside of the variant that its key names. -/
theorem sited_format : format.Sited schema .member := by
  refine Format.sited_choice ?_
  refine List.forall_mem_cons.2 ⟨⟨.property, ?_, Variable.sited_format.map _⟩, ?_⟩
  · simp [schema]
  refine List.forall_mem_cons.2 ⟨⟨.named, ?_, sited_nameRecord _ _⟩, ?_⟩
  · simp [schema]
  refine List.forall_mem_cons.2 ⟨⟨.leaf, ?_, Format.sited_atom.map _⟩, ?_⟩
  · simp [schema]
  refine List.forall_mem_singleton.2 ⟨.named, ?_, sited_nameRecord _ _⟩
  simp [schema]

end Member

namespace Decl

/-- **A declaration fails at a place of its value.** -/
theorem sited_format : Decl.format.Sited schema .declaration := by
  refine Record.sited_format <| .cons ⟨rfl, Kind.sited_format.map _⟩ ?_
  refine .cons ⟨rfl, Format.sited_atom.map _⟩ ?_
  refine .cons ⟨rfl, (Member.sited_format.list rfl).map _⟩ ?_
  exact .cons ⟨rfl, Span.sited_format.optional.map _⟩ .nil

/-! ## Documents of several declarations -/

/-- A document with an array is decoded item by item. -/
theorem document_eq_decodeItems {source : String} {vs : List Value}
    (h : Value.ofText source = .ok (.array vs)) :
    document source = Format.decodeItems Decl.format.decode 0 vs := by
  rw [document, h]
  rfl

/-- A path that starts with an index starts with it in brackets. -/
theorem pathText_index (i : ℕ) (path : List Step) :
    Step.pathText (.index i :: path) = "[" ++ toString i ++ "]" ++ Step.textFrom false path := rfl

/-- **Every failure is placed.**  A value that is no declaration fails at the end of a path that
leads through it, with no unknown step.  A document whose value is an array gives the declarations
that its items are, if each of them is one; else it fails as the first that is none does on its own,
with the index of that item in front of the path. -/
theorem failures_placed :
    (∀ (v : Value) (e : Error), Decl.format.decode v = .error e →
      schema.Leads .declaration v e.path ∧ Step.unknown ∉ e.path) ∧
    ∀ (source : String) (vs : List Value), Value.ofText source = .ok (.array vs) →
      (∀ ds, document source = .ok ds ↔
        List.Forall₂ (fun v d => Decl.format.decode v = .ok d) vs ds) ∧
      ∀ e', document source = .error e' → ∃ before ds v e,
        StopsAt Decl.format.decode vs before ds v e ∧
        e'.path = .index before.length :: e.path ∧ e'.detail = e.detail ∧
        Step.pathText e'.path
          = "[" ++ toString before.length ++ "]" ++ Step.textFrom false e.path := by
  refine ⟨fun v e h => ?_, fun source vs h => ?_⟩
  · have hleads := sited_format v e h
    exact ⟨hleads, hleads.unknown_notMem⟩
  · rw [document_eq_decodeItems h]
    refine ⟨fun ds => Format.decodeItems_eq_ok, fun e' he => ?_⟩
    obtain ⟨before, ds, v, e, hstop, rfl⟩ := Format.exists_stopsAt_of_decodeItems he
    rw [Nat.zero_add]
    exact ⟨before, ds, v, e, hstop, rfl, rfl, pathText_index before.length e.path⟩

/-- A declaration whose only binding has a number for its name. -/
def misnamed : Value :=
  .object [("kind", .string "struct"), ("name", .string "A"), ("members", .array [.object
    [("variable", .object [("bindings", .array [.object
      [("pattern", .object [("identifier", .number (.integer 7))])]])])]])]

/-- The value repeats no keys, so its text stands for it. -/
theorem plain_misnamed : misnamed.Plain := by
  have hnumber : (Value.number (.integer 7)).Plain := Value.plain_word32 7
  simp [misnamed, Value.plain_object, Value.plain_array, Value.plain_string, hnumber]

/-- The failure lies five steps inside, and in an array one step more. -/
theorem failures_placed_of_misnamed :
    let path := [.key "members", .index 0, .variant "variable", .key "bindings", .index 0,
      .key "pattern", .variant "identifier"]
    let first : Decl := ⟨.struct, "B", [], none⟩
    let vs := [first.encode, misnamed]
    schema.Leads .declaration misnamed path ∧ Step.unknown ∉ path ∧
    Value.ofText (Value.array vs).compact = .ok (.array vs) ∧
    ∃ e', document (Value.array vs).compact = .error e' ∧
      Step.pathText e'.path = "[1].members[0].variable.bindings[0].pattern.identifier" ∧
      ∃ before ds v e, StopsAt Decl.format.decode vs before ds v e ∧
        e'.path = .index before.length :: e.path ∧ e'.detail = e.detail := by
  intro path first vs
  have hdecode : Decl.format.decode misnamed
      = .error ⟨path, .wrongType (.number (.integer 7)) "a string", none⟩ := rfl
  obtain ⟨hleads, hknown⟩ := failures_placed.1 misnamed _ hdecode
  have hplain : (Value.array vs).Plain := Value.plain_array.2 <| List.forall_mem_cons.2
    ⟨first.plain_encode, List.forall_mem_singleton.2 plain_misnamed⟩
  have hvalue := Value.ofText_compact hplain (by decide)
  have herror : document (Value.array vs).compact
      = .error ⟨.index 1 :: path, .wrongType (.number (.integer 7)) "a string", none⟩ :=
    document_eq_decodeItems hvalue
  obtain ⟨before, ds, v, e, hstop, hpath, hdetail, -⟩ := (failures_placed.2 _ vs hvalue).2 _ herror
  exact ⟨hleads, hknown, hvalue, _, herror, rfl, before, ds, v, e, hstop, hpath, hdetail⟩

end Decl

end Exemplar
