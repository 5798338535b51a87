import Exemplar.Proofs.Json.Reading
import Exemplar.Proofs.Json.Record

/-!
# Proofs/Json/Form — how a value stands for data

    {"line": 1, "column": 2}   [1, 2]   stand for   1:2

A form is a relation between values and data that says nothing of how the one is turned into the
other.  Forms are put together as data is: a name, something that may be absent, a list, a struct
with its fields.  A format `Decodes` a form if, on values without repeated keys, it decodes what
stands for data, as that data, and nothing else; what is put together from such formats decodes what
is put together from the forms.
-/

namespace Exemplar.Json

variable {σ α : Type} {v : Value} {a : α} {es : List (String × Value)} {R : Value → α → Prop}
  {F : Format α}

/-! ## Forms -/

/-- A name by itself, as a text or as the one key of an object with null. -/
def NameForm (name : String) (v : Value) : Prop :=
  v = .string name ∨ v = .object [(name, .null)]

/-- Null stands for no data, the form's values for some. -/
def OptionalForm (R : Value → α → Prop) (v : Value) : Option α → Prop
  | none => v = .null
  | some a => R v a

/-- An array stands for a list if its items stand for the items. -/
def ListForm (R : Value → α → Prop) (v : Value) (as : List α) : Prop :=
  ∃ vs, v = .array vs ∧ List.Forall₂ R vs as

/-- How one field of data is given. -/
structure FieldForm (α : Type) where
  name : String
  /-- The value stands for the field of the data. -/
  Gives : Value → α → Prop
  /-- The data has in the field what leaving it out means. -/
  Omits : α → Prop

/-- Entries say what the field of `a` is: one of them gives it, or none is called so and `a` has
what leaving it out means. -/
def FieldForm.In (f : FieldForm α) (es : List (String × Value)) (a : α) : Prop :=
  (∃ v, (f.name, v) ∈ es ∧ f.Gives v a) ∨ f.name ∉ es.map Prod.fst ∧ f.Omits a

/-- An object stands for data if its entries say what each field is, in any order and among any
others. -/
def ObjectForm (fields : List (FieldForm α)) (v : Value) (a : α) : Prop :=
  ∃ es, v = .object es ∧ ∀ f ∈ fields, f.In es a

/-- An array stands for data if its items, named after the fields in order, say what each field is.
There are no more items than fields. -/
def ArrayForm (fields : List (FieldForm α)) (v : Value) (a : α) : Prop :=
  ∃ vs, v = .array vs ∧ vs.length ≤ fields.length ∧
    ∀ f ∈ fields, f.In ((fields.map FieldForm.name).zip vs) a

/-- A struct is given as an object or as an array. -/
def StructForm (fields : List (FieldForm α)) (v : Value) (a : α) : Prop :=
  ObjectForm fields v a ∨ ArrayForm fields v a

/-! ## Formats of forms -/

/-- The format decodes the values of the form and no others, as long as no keys are repeated. -/
def Format.Decodes (F : Format α) (R : Value → α → Prop) : Prop :=
  ∀ v a, v.Distinct → (F.decode v = .ok a ↔ R v a)

namespace Format

theorem decodes_text : text.Decodes fun v s => v = .string s := fun _ _ _ => text_decode_eq_ok

theorem decodes_flag : flag.Decodes fun v b => v = .bool b := fun _ _ _ => flag_decode_eq_ok

/-- A 32-bit number is decoded from a whole number in its range. -/
theorem decodes_word32 : word32.Decodes fun v n => v = .number (.integer n.toNat) :=
  fun _ _ _ => word32_decode_eq_ok

/-- Optional data is decoded from a null and from what stands for the data. -/
theorem Decodes.optional (h : F.Decodes R) (hnull : ∀ a, ¬ R .null a) :
    F.optional.Decodes (OptionalForm R) := by
  intro v o hv
  have hdistinct : Value.Distinct .null := nofun
  have hnone : ∀ a, F.decode .null ≠ .ok a := fun a ha => hnull a ((h _ a hdistinct).1 ha)
  rw [optional_decode_eq_ok hnone]
  cases o with
  | none => simp [OptionalForm]
  | some a => simp [OptionalForm, h v _ hv]

/-- A list is decoded from an array item by item. -/
theorem Decodes.list (h : F.Decodes R) : F.list.Decodes (ListForm R) := by
  intro v as hv
  rw [list_decode_eq_ok, ListForm]
  refine exists_congr fun vs => and_congr_right ?_
  rintro rfl
  have hvs := Value.distinct_array.1 hv
  constructor
  · intro hall
    exact ((List.forall₂_and_left vs as).2 ⟨hvs, hall⟩).imp fun v a ha => (h v a ha.1).1 ha.2
  · intro hall
    exact ((List.forall₂_and_left vs as).2 ⟨hvs, hall⟩).imp fun v a ha => (h v a ha.1).2 ha.2

/-- Names decode their own forms, if each data has one name. -/
theorem decodes_names {choices : List (String × α)} {name : α → String}
    (hnodup : (choices.map Prod.fst).Nodup) (hname : ∀ n a, (n, a) ∈ choices ↔ n = name a) :
    (names choices).Decodes fun v a => NameForm (name a) v := by
  intro v a _
  simp only [names_decode_iff hnodup, hname, exists_eq_left, NameForm]

end Format

/-! ## Records -/

/-- The form of a field is that of a component. -/
structure FieldForm.Matches (f : FieldForm α) (c : Component σ α) : Prop where
  name_eq : f.name = c.name
  gives_iff : ∀ v a, v.Distinct → (f.Gives v a ↔ c.format.decode v = .ok (c.proj a))
  omits_iff : ∀ a, f.Omits a ↔ c.default? = some (c.proj a)

/-- A field finds its value among entries exactly if its component is supplied with it. -/
theorem FieldForm.Matches.in_iff {f : FieldForm α} {c : Component σ α} (h : f.Matches c)
    (hes : ∀ e ∈ es, e.2.Distinct) : f.In es a ↔ c.Supplied es (c.proj a) := by
  rw [FieldForm.In, Component.Supplied, h.name_eq, h.omits_iff]
  refine or_congr_left (exists_congr fun v => and_congr_right fun hv => ?_)
  exact h.gives_iff v a (hes _ hv)

variable {r : Record σ α} {cs : List (Component σ α)} {fields : List (FieldForm α)}

/-- The fields find their values exactly if all components are supplied. -/
theorem forall_in_iff (h : List.Forall₂ FieldForm.Matches fields cs)
    (hes : ∀ e ∈ es, e.2.Distinct) :
    (∀ f ∈ fields, f.In es a) ↔ ∀ c ∈ cs, c.Supplied es (c.proj a) := by
  induction h with
  | nil => simp
  | cons hf _ ih => rw [List.forall_mem_cons, List.forall_mem_cons, hf.in_iff hes, ih]

/-- Fields and components have the same names in the same order. -/
theorem map_name_eq (h : List.Forall₂ FieldForm.Matches fields cs) :
    fields.map FieldForm.name = cs.map Component.name := by
  induction h with
  | nil => rfl
  | cons hf _ ih => rw [List.map_cons, List.map_cons, hf.name_eq, ih]

namespace Record.MadeOf

/-- An object without repeated keys is decoded as a record exactly if it has the object form. -/
theorem decodeObject_iff_objectForm (h : r.MadeOf cs)
    (hfields : List.Forall₂ FieldForm.Matches fields cs) (hv : (Value.object es).Distinct) :
    r.decodeObject es = .ok a ↔ ObjectForm fields (.object es) a := by
  obtain ⟨hkeys, hes⟩ := Value.distinct_object.1 hv
  rw [h.decodeObject_iff hkeys, ← forall_in_iff hfields hes, ObjectForm]
  simp

/-- An array is decoded as a record exactly if it has the array form. -/
theorem decodeArray_iff_arrayForm (h : r.MadeOf cs)
    (hfields : List.Forall₂ FieldForm.Matches fields cs) {vs : List Value}
    (hv : (Value.array vs).Distinct) :
    r.decodeArray vs = .ok a ↔ ArrayForm fields (.array vs) a := by
  have hvs : ∀ e ∈ (cs.map Component.name).zip vs, e.2.Distinct :=
    fun e he => Value.distinct_array.1 hv e.2 (List.of_mem_zip he).2
  rw [h.decodeArray_iff, h.decodeObject_iff (h.nodup_zip vs), ← forall_in_iff hfields hvs,
    ArrayForm, map_name_eq hfields, hfields.length_eq]
  simp

/-- **A record decodes the struct of its components.** -/
theorem decodes_structForm (h : r.MadeOf cs) (hfields : List.Forall₂ FieldForm.Matches fields cs) :
    r.format.Decodes (StructForm fields) := by
  intro v a hv
  cases v with
  | object es =>
    have hdecode : r.format.decode (.object es) = r.decodeObject es := rfl
    rw [hdecode, h.decodeObject_iff_objectForm hfields hv]
    simp [StructForm, ArrayForm]
  | array vs =>
    have hdecode : r.format.decode (.array vs) = r.decodeArray vs := rfl
    rw [hdecode, h.decodeArray_iff_arrayForm hfields hv]
    simp [StructForm, ObjectForm]
  | null | bool | number | string => simp [StructForm, ObjectForm, ArrayForm, Record.format]

end Record.MadeOf

end Exemplar.Json
