import Exemplar.Proofs.Decl.Form
import Exemplar.Proofs.Json.Trailing

/-!
# Proofs/Decl/Agrees — two ways to load declarations come to the same

    text ──▸ value ──▸ declarations   =   text ──▸ declarations

A document is read to a value first and decoded then, or it is read straight into declarations.  The
formats of the declaration model agree, one after the other, so the two ways never give different
declarations for one text, and a value that can be decoded can be loaded from its text as well
(`load_agrees`).  Nor is the end of the text asked for, so a document with anything at all behind it
is the same document (`document_append`).
-/

namespace Exemplar

open Json

theorem Decl.Kind.agrees_format : Kind.format.Agrees := Format.agrees_names _

theorem Accessor.agrees_format : Accessor.format.Agrees := Format.agrees_names _

theorem Span.agrees_format : Span.format.Agrees :=
  madeOf.agrees_format <| List.forall_mem_cons.2
    ⟨Format.agrees_word32, List.forall_mem_singleton.2 Format.agrees_word32⟩

namespace Pattern

/-- One layer of a pattern is read as it is decoded if what stands inside is. -/
theorem agrees_layer {part : Format Pattern} (h : part.Agrees) : (layer part).Agrees := by
  refine Format.agrees_choice ?_
  refine List.forall_mem_cons.2 ⟨Format.agrees_text.map identifier, ?_⟩
  refine List.forall_mem_cons.2 ⟨h.list.map tuple, ?_⟩
  exact List.forall_mem_singleton.2 (Format.agrees_unit.map _)

/-- Patterns are read as they are decoded at every depth. -/
theorem agrees_formatWithin : ∀ depth, (formatWithin depth).Agrees
  | 0 => agrees_layer Format.agrees_never
  | depth + 1 => agrees_layer (agrees_formatWithin depth)

/-- A pattern agrees, since a value is decoded with as many layers as it nests and read with at
least as many. -/
theorem agrees_format : format.Agrees where
  read_of_decode {levels v s r p} hv hnesting hdecode := by
    have hwithin : (formatWithin levels).decode v = .ok p :=
      (formatWithin_decode_eq_ok hnesting).2 (decode_eq_ok.1 hdecode)
    exact (agrees_formatWithin levels).read_of_decode hv hnesting hwithin
  eq_of_read {levels v s r r' p} hv hnesting hread := by
    obtain ⟨hr, heq⟩ := (agrees_formatWithin levels).eq_of_read hv hnesting hread
    refine ⟨hr, fun q hq => heq q ?_⟩
    have hmerged : v.merged.nesting ≤ levels := (Value.nesting_merged_le v).trans hnesting
    exact (formatWithin_decode_eq_ok hmerged).2 (decode_eq_ok.1 hq)

end Pattern

/-- A null is no text, so an optional text leaves it to mean nothing. -/
theorem rejectsNull_text : Format.text.RejectsNull := Format.rejectsNull_atom rfl

/-- A binding is read as it is decoded, from an object and from an array. -/
theorem Binding.agrees_format : Binding.format.Agrees := by
  have htext := Format.agrees_text.optional rejectsNull_text
  refine madeOf.agrees_format <| List.forall_mem_cons.2 ⟨Pattern.agrees_format, ?_⟩
  refine List.forall_mem_cons.2 ⟨htext, List.forall_mem_cons.2 ⟨htext, ?_⟩⟩
  exact List.forall_mem_singleton.2 Accessor.agrees_format.list

theorem Variable.agrees_format : Variable.format.Agrees :=
  madeOf.agrees_format <| List.forall_mem_cons.2
    ⟨Format.agrees_flag, List.forall_mem_singleton.2 Binding.agrees_format.list⟩

namespace Member

/-- A member of which only the name counts is read as it is decoded. -/
theorem agrees_nameRecord (variant : String) (build : String → Member) :
    (nameRecord variant build).variantFormat.Agrees := by
  rw [nameRecord_eq_map, Record.map_variantFormat]
  refine Format.Agrees.map ((madeOf variant).agrees_variantFormat ?_) build
  exact List.forall_mem_singleton.2 Format.agrees_text

/-- A member is read by its one key as it is decoded by it. -/
theorem agrees_format : format.Agrees := by
  refine Format.agrees_choice ?_
  refine List.forall_mem_cons.2 ⟨Variable.agrees_format.map property, ?_⟩
  refine List.forall_mem_cons.2 ⟨agrees_nameRecord "Function" function, ?_⟩
  refine List.forall_mem_cons.2 ⟨Format.agrees_unit.map _, ?_⟩
  exact List.forall_mem_singleton.2 (agrees_nameRecord "NestedType" nestedType)

end Member

namespace Decl

/-- **A declaration is read as it is decoded.** -/
theorem agrees_format : Decl.format.Agrees := by
  have hspan := Span.agrees_format.optional Record.rejectsNull_format
  refine madeOf.agrees_format <| List.forall_mem_cons.2 ⟨Kind.agrees_format, ?_⟩
  refine List.forall_mem_cons.2 ⟨Format.agrees_text, ?_⟩
  exact List.forall_mem_cons.2 ⟨Member.agrees_format.list, List.forall_mem_singleton.2 hspan⟩

/-- A text that is read as a list has an array for its value. -/
theorem exists_array_of_ofText {α : Type} {F : Format α} {source : String} {as : List α} {v : Value}
    (hread : F.list.ofText source = .ok as) (hvalue : Value.ofText source = .ok v) :
    ∃ items, v = .array items := by
  obtain ⟨r, hread⟩ := Format.ofText_eq_ok.1 hread
  obtain ⟨t, hs⟩ := Format.exists_bracket_of_list_read hread
  obtain ⟨r', hvalue⟩ := Value.ofText_eq_ok.1 hvalue
  obtain ⟨u, hu, rfl, -⟩ := exists_spells_of_readValue hvalue
  obtain ⟨vs, rfl, -⟩ := exists_array_of_spells hu hs
  exact ⟨Value.mergedItems vs, rfl⟩

/-- The document of an array is what the list of its text is, if both can be loaded. -/
theorem eq_of_document {source : String} {ds es : List Decl} (hds : document source = .ok ds)
    (hes : Decl.format.list.ofText source = .ok es) : ds = es := by
  rw [document] at hds
  cases hvalue : Value.ofText source with
  | error e => rw [hvalue] at hds; cases hds
  | ok v =>
    rw [hvalue] at hds
    obtain ⟨items, rfl⟩ := exists_array_of_ofText hes hvalue
    exact agrees_format.list.eq_of_ofText hvalue hds hes

/-- **The two ways to load declarations agree.**  Where a text is loaded both by way of its value
and straight into a list, the declarations are the same, repeated and unknown keys in it or not; and
a declaration that is decoded from a value is read from the value's text, unknown keys included. -/
theorem load_agrees :
    (∀ (source : String) (ds es : List Decl), document source = .ok ds →
      Decl.format.list.ofText source = .ok es → ds = es) ∧
    ∀ (v : Value) (d : Decl), v.nesting ≤ maxLevels → Decl.format.decode v = .ok d →
      Decl.format.ofText v.compact = .ok d :=
  ⟨fun _ _ _ => eq_of_document, fun _ _ => agrees_format.ofText_compact⟩

/-- A declaration with a key that names no field, twice. -/
def noted : Value := .object
  [("note", .array [.bool true]), ("name", .string "S"), ("note", .null),
    ("kind", .string "struct")]

/-- The value of a document keeps the last of two notes. -/
theorem ofText_noted :
    Value.ofText (Value.array [noted]).compact = .ok (Value.array [noted]).merged := by
  have hexact : (Value.array [noted]).Exact := by
    refine Value.exact_array.2 (List.forall_mem_singleton.2 (Value.exact_object.2 ?_))
    simp [Value.Exact, Value.Throughout, Value.ThroughoutItems, Value.IsInexact]
  have hnesting : (Value.array [noted]).nesting ≤ maxLevels := by decide
  have hread := readValue_of_spells (spells_compact (.array [noted])) hexact hnesting
  exact Value.ofText_eq_ok.2 ⟨[], hread⟩

/-- A note is no field: it is passed over however often it comes. -/
theorem document_noted :
    document (Value.array [noted]).compact = .ok [⟨.struct, "S", [], none⟩] := by
  rw [document, ofText_noted]
  rfl

/-- Both loaders take the document although its notes differ in kind. -/
theorem load_agrees_of_noted :
    document (Value.array [noted]).compact = .ok [⟨.struct, "S", [], none⟩] ∧
    (∃ es, Decl.format.list.ofText (Value.array [noted]).compact = .ok es ∧
      [⟨.struct, "S", [], none⟩] = es) ∧
    Decl.format.ofText noted.compact = .ok ⟨.struct, "S", [], none⟩ := by
  have hlist : Decl.format.list.ofText (Value.array [noted]).compact
      = .ok [⟨.struct, "S", [], none⟩] := agrees_format.list.ofText_compact (by decide) rfl
  exact ⟨document_noted, ⟨_, hlist, load_agrees.1 _ _ _ document_noted hlist⟩,
    load_agrees.2 noted _ (by decide) rfl⟩

/-! ## What comes behind a document -/

/-- **What comes behind a document is not looked at.**  If a text starts with an array or an object
that can be read, it gives the same declarations, or fails alike for want of them, whatever it goes
on with. -/
theorem document_append {source : String} {v : Value}
    (hopen : (skipBlanks source.toList).head? = some '[' ∨
      (skipBlanks source.toList).head? = some '\x7b')
    (hread : Value.ofText source = .ok v) (w : String) :
    document (source ++ w) = document source := by
  rw [document, document, hread, Value.ofText_append hopen hread]

/-- A document behind which a string is left open, and one that holds no declaration, behind which
another array follows. -/
theorem document_append_of_noted :
    document ((Value.array [noted]).compact ++ ", \"") = .ok [⟨.struct, "S", [], none⟩] ∧
    ∃ e, document ((Value.array [.null]).compact ++ "[]") = .error e := by
  have hopen (v : Value) : (skipBlanks (Value.array [v]).compact.toList).head? = some '[' := by
    rw [Value.compact, String.toList_ofList]
    rfl
  have hnull : Value.ofText (Value.array [.null]).compact = .ok (.array [.null]) := rfl
  rw [document_append (.inl (hopen noted)) ofText_noted, document_noted,
    document_append (.inl (hopen .null)) hnull, document, hnull]
  exact ⟨rfl, _, rfl⟩

end Decl

end Exemplar
