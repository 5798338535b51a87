import Exemplar.Decl.Encode
import Exemplar.Proofs.Decl.Agrees
import Exemplar.Proofs.Json.Written

/-!
# Proofs/Decl/RoundTrip — written declarations are loaded again

    d ──encode──▸ value ──compact──▸ text ──▸ d

Each type of the declaration model is decoded from the value that it is encoded as
(`Decl.decode_encode`).  These values are plain, so they are read back from their text, and with
them the declarations, up to the nesting that a reader allows (`document_encode`).
-/

namespace Exemplar

open Json

/-- A kind is decoded from its keyword. -/
theorem Decl.Kind.decode_keyword (k : Kind) : format.decode (.string k.keyword) = .ok k := by
  cases k <;> rfl

theorem Accessor.decode_name (a : Accessor) : format.decode (.string a.name) = .ok a := by
  cases a <;> rfl

namespace Span

/-- A span is written with both fields. -/
theorem encode_eq (s : Span) : s.encode = .object (written [
    ("line", some (.number (.integer s.line.toNat))),
    ("column", some (.number (.integer s.column.toNat)))]) := rfl

theorem plain_encode (s : Span) : s.encode.Plain := by
  rw [encode_eq]
  refine Value.plain_written (by simp) ?_
  simp [Value.plain_word32]

/-- A span is decoded from what is written for it. -/
theorem decode_encode (s : Span) : format.decode s.encode = .ok s := by
  rw [encode_eq]
  refine madeOf.decode_written (.cons ⟨rfl, ?_, nofun⟩ (.cons ⟨rfl, ?_, nofun⟩ .nil))
  · rintro _ ⟨rfl⟩
    exact Format.word32_decode_eq_ok.2 rfl
  · rintro _ ⟨rfl⟩
    exact Format.word32_decode_eq_ok.2 rfl

end Span

namespace Pattern

mutual

/-- What is written for a pattern is plain, inside tuples too. -/
theorem plain_encode : ∀ p : Pattern, p.encode.Plain
  | identifier name => Value.plain_object_singleton (Value.plain_string name)
  | tuple parts => Value.plain_object_singleton (Value.plain_array.2 (plain_encodeAll parts))
  | wildcard => Value.plain_string "wildcard"

theorem plain_encodeAll : ∀ ps : List Pattern, ∀ v ∈ encodeAll ps, v.Plain
  | [] => List.forall_mem_nil _
  | p :: ps => List.forall_mem_cons.2 ⟨plain_encode p, plain_encodeAll ps⟩

end

mutual

/-- What is written for a pattern has the form of it. -/
theorem form_encode : ∀ p : Pattern, Form p.encode p
  | identifier name => .identifier name
  | tuple parts => .tuple (form_encodeAll parts)
  | wildcard => .wildcard (.inl rfl)

theorem form_encodeAll : ∀ ps : List Pattern, List.Forall₂ Form (encodeAll ps) ps
  | [] => .nil
  | p :: ps => .cons (form_encode p) (form_encodeAll ps)

end

/-- A pattern is decoded from what is written for it. -/
theorem decode_encode (p : Pattern) : format.decode p.encode = .ok p :=
  decode_eq_ok.2 (form_encode p)

end Pattern

namespace Binding

/-- The accessors as they are written, if there are any. -/
def writtenAccessors : List Accessor → Option Value
  | [] => none
  | as => some (.array (as.map fun a => .string a.name))

/-- A binding is written with the fields that it has; of accessors there are none or some. -/
theorem encode_eq (b : Binding) : b.encode = .object (written [
    ("pattern", some b.pattern.encode), ("type_annotation", b.declaredType.map .string),
    ("initializer", b.initializer.map .string),
    ("accessors", writtenAccessors b.accessors)]) := by
  obtain ⟨pattern, declaredType, initializer, accessors⟩ := b
  cases declaredType <;> cases initializer <;> cases accessors <;> rfl

/-- Accessors are written by their names if there are any. -/
theorem writtenAccessors_eq_some {as : List Accessor} {v : Value}
    (h : writtenAccessors as = some v) : v = .array (as.map fun a => .string a.name) := by
  cases as with
  | nil => cases h
  | cons a as => exact (Option.some.inj h).symm

theorem plain_encode (b : Binding) : b.encode.Plain := by
  rw [encode_eq]
  refine Value.plain_written (by simp) ?_
  refine List.forall_mem_cons.2 ⟨?_, List.forall_mem_cons.2 ⟨?_, List.forall_mem_cons.2 ⟨?_,
    List.forall_mem_singleton.2 ?_⟩⟩⟩
  · rintro _ ⟨rfl⟩
    exact b.pattern.plain_encode
  · intro v hv
    obtain ⟨s, -, rfl⟩ := Option.map_eq_some_iff.1 hv
    exact Value.plain_string s
  · intro v hv
    obtain ⟨s, -, rfl⟩ := Option.map_eq_some_iff.1 hv
    exact Value.plain_string s
  · intro v hv
    rw [writtenAccessors_eq_some hv]
    exact Value.plain_array_map (fun a => Value.plain_string a.name) b.accessors

/-- A text that may be absent is decoded from what is written for it. -/
theorem optional_text_decode {o : Option String} {v : Value} (h : o.map Value.string = some v) :
    Format.text.optional.decode v = .ok o := by
  obtain ⟨s, rfl, rfl⟩ := Option.map_eq_some_iff.1 h
  rfl

/-- A binding is decoded from what is written for it, with nothing for what is left out. -/
theorem decode_encode (b : Binding) : format.decode b.encode = .ok b := by
  rw [encode_eq]
  refine madeOf.decode_written (.cons ⟨rfl, ?_, nofun⟩
    (.cons ⟨rfl, fun v => optional_text_decode, ?_⟩
    (.cons ⟨rfl, fun v => optional_text_decode, ?_⟩ (.cons ⟨rfl, ?_, ?_⟩ .nil))))
  · rintro _ ⟨rfl⟩
    exact b.pattern.decode_encode
  · intro h
    exact congrArg some (Option.map_eq_none_iff.1 h).symm
  · intro h
    exact congrArg some (Option.map_eq_none_iff.1 h).symm
  · intro v hv
    rw [writtenAccessors_eq_some hv]
    exact Format.list_decode_map fun a _ => a.decode_name
  · intro h
    cases has : b.accessors with
    | nil => exact congrArg some has.symm
    | cons a as => rw [has] at h; cases h

end Binding

namespace Variable

theorem encode_eq (d : Variable) : d.encode = .object (written [
    ("is_static", some (.bool d.isStatic)),
    ("bindings", some (.array (d.bindings.map Binding.encode)))]) := rfl

theorem plain_encode (d : Variable) : d.encode.Plain := by
  rw [encode_eq]
  refine Value.plain_written (by simp) ?_
  refine List.forall_mem_cons.2 ⟨?_, List.forall_mem_singleton.2 ?_⟩
  · rintro _ ⟨rfl⟩
    exact Value.plain_bool d.isStatic
  · rintro _ ⟨rfl⟩
    exact Value.plain_array_map Binding.plain_encode d.bindings

theorem decode_encode (d : Variable) : format.decode d.encode = .ok d := by
  rw [encode_eq]
  refine madeOf.decode_written (.cons ⟨rfl, ?_, nofun⟩ (.cons ⟨rfl, ?_, nofun⟩ .nil))
  · rintro _ ⟨rfl⟩
    rfl
  · rintro _ ⟨rfl⟩
    exact Format.list_decode_map fun b _ => b.decode_encode

end Variable

namespace Member

/-- What is written for a member is plain. -/
theorem plain_encode (m : Member) : m.encode.Plain := by
  cases m with
  | property declared => exact Value.plain_object_singleton declared.plain_encode
  | function name | nestedType name =>
    exact Value.plain_object_singleton (Value.plain_object_singleton (Value.plain_string name))
  | initializer => exact Value.plain_string "initializer"

/-- A member is written under the key of its kind. -/
theorem form_encode (m : Member) : Form m.encode m := by
  cases m with
  | property declared =>
    exact .property ((Variable.decodes_form _ _ declared.plain_encode.1).1 declared.decode_encode)
  | function name => exact .function List.mem_cons_self
  | nestedType name => exact .nestedType List.mem_cons_self
  | initializer => exact .initializer (.inl rfl)

theorem decode_encode (m : Member) : format.decode m.encode = .ok m :=
  (decodes_form _ m m.plain_encode.1).2 m.form_encode

end Member

namespace Decl

/-- A declaration is written with all fields but a span that it has not. -/
theorem encode_eq (d : Decl) : d.encode = .object (written [
    ("kind", some (.string d.kind.keyword)), ("name", some (.string d.name)),
    ("members", some (.array (d.members.map Member.encode))),
    ("span", d.span.map Span.encode)]) := by
  obtain ⟨kind, name, members, span⟩ := d
  cases span <;> rfl

/-- **What is written for a declaration repeats no keys**, and its numbers are those of its span. -/
theorem plain_encode (d : Decl) : d.encode.Plain := by
  rw [encode_eq]
  refine Value.plain_written (by simp) ?_
  refine List.forall_mem_cons.2 ⟨?_, List.forall_mem_cons.2 ⟨?_, List.forall_mem_cons.2 ⟨?_,
    List.forall_mem_singleton.2 ?_⟩⟩⟩
  · rintro _ ⟨rfl⟩
    exact Value.plain_string d.kind.keyword
  · rintro _ ⟨rfl⟩
    exact Value.plain_string d.name
  · rintro _ ⟨rfl⟩
    exact Value.plain_array_map Member.plain_encode d.members
  · intro v hv
    obtain ⟨s, -, rfl⟩ := Option.map_eq_some_iff.1 hv
    exact s.plain_encode

/-- **A declaration is decoded from the value that it is encoded as.** -/
theorem decode_encode (d : Decl) : Decl.format.decode d.encode = .ok d := by
  rw [encode_eq]
  refine madeOf.decode_written (.cons ⟨rfl, ?_, nofun⟩ (.cons ⟨rfl, ?_, nofun⟩
    (.cons ⟨rfl, ?_, nofun⟩ (.cons ⟨rfl, ?_, ?_⟩ .nil))))
  · rintro _ ⟨rfl⟩
    exact d.kind.decode_keyword
  · rintro _ ⟨rfl⟩
    rfl
  · rintro _ ⟨rfl⟩
    exact Format.list_decode_map fun m _ => m.decode_encode
  · intro v hv
    obtain ⟨s, hs, rfl⟩ := Option.map_eq_some_iff.1 hv
    have hdecode : (Span.format.map some).decode s.encode = .ok (some s) :=
      Format.map_decode_eq_ok.2 ⟨s, s.decode_encode, rfl⟩
    have hnull : s.encode ≠ .null := nofun
    exact (Format.optional_decode hnull).trans (hdecode.trans (congrArg Except.ok hs.symm))
  · intro h
    exact congrArg some (Option.map_eq_none_iff.1 h).symm

/-- The document of many declarations is loaded as them. -/
theorem document_array {ds : List Decl}
    (h : (Value.array (ds.map encode)).nesting ≤ maxLevels) :
    document (Value.array (ds.map encode)).compact = .ok ds := by
  have hvalue := Value.ofText_compact (Value.plain_array_map plain_encode ds) h
  have hdecode := Format.list_decode_map fun (d : Decl) (_ : d ∈ ds) => d.decode_encode
  rw [document, hvalue]
  exact hdecode

/-- A value that is no array is a document of one declaration. -/
theorem ofValue_eq_ok {v : Value} {d : Decl} (hv : ∀ items, v ≠ .array items)
    (h : format.decode v = .ok d) : ofValue v = .ok [d] := by
  cases v with
  | array items => exact absurd rfl (hv items)
  | _ => simp only [ofValue, h]

/-- The document of one declaration is loaded as it alone. -/
theorem document_object {d : Decl} (h : d.encode.nesting ≤ maxLevels) :
    document d.encode.compact = .ok [d] := by
  have hvalue := Value.ofText_compact d.plain_encode h
  have hobject : ∀ items, d.encode ≠ .array items := by
    intro items h
    cases h
  rw [document, hvalue]
  exact ofValue_eq_ok hobject d.decode_encode

/-- **Written declarations are loaded again**: many from the text of their array, one from its own
text, whether by way of a value or straight, as long as the text does not nest too deep. -/
theorem document_encode :
    (∀ ds : List Decl, (Value.array (ds.map encode)).nesting ≤ maxLevels →
      document (Value.array (ds.map encode)).compact = .ok ds) ∧
    ∀ d : Decl, d.encode.nesting ≤ maxLevels →
      document d.encode.compact = .ok [d] ∧ Decl.format.ofText d.encode.compact = .ok d :=
  ⟨fun _ => document_array, fun d h =>
    ⟨document_object h, agrees_format.ofText_compact h d.decode_encode⟩⟩

/-- A declaration with a tuple inside a tuple and a place in the source. -/
def nested : Decl :=
  ⟨.classType, "S\n", [.property ⟨true, [⟨.tuple [.tuple [.wildcard], .identifier "x"], none,
    some "\"\"", [.get]⟩]⟩, .nestedType "T"], some ⟨1, 0⟩⟩

/-- A binding with a tuple inside a tuple comes back from both loaders. -/
theorem document_encode_of_nested :
    document (Value.array ([nested].map encode)).compact = .ok [nested] ∧
    document nested.encode.compact = .ok [nested] ∧
    Decl.format.ofText nested.encode.compact = .ok nested :=
  ⟨document_encode.1 [nested] (by decide), document_encode.2 nested (by decide)⟩

end Decl

end Exemplar
