import Exemplar.Proofs.Json.Agrees
import Exemplar.Proofs.Json.Record
import Exemplar.Proofs.Traversal

/-!
# Proofs/Json/Written — values as a program writes them

    [("name", some "x"), ("note", none)]   ──▸   {"name": "x"}

A record is written as an object of its fields in order, some of them left out.  If what is written
for each field is decoded as that field, and what is left out is the field's default, the record is
decoded from the object (`Record.MadeOf.decode_written`).  Written values are `Plain`: they repeat
no keys, and their numbers are read back as they are, so they are read back from their text.
-/

namespace Exemplar.Json

namespace Value

variable {v : Value} {vs : List Value} {es : List (String × Value)}

/-- The value repeats no keys, and its numbers are read back as they are. -/
def Plain (v : Value) : Prop := v.Distinct ∧ v.Exact

theorem plain_string (s : String) : (string s).Plain := ⟨nofun, nofun⟩

theorem plain_bool (b : Bool) : (bool b).Plain := ⟨nofun, nofun⟩

/-- A 32-bit number is read back as it is. -/
theorem plain_word32 (n : UInt32) : (number (.integer n.toNat)).Plain := by
  refine ⟨nofun, ?_⟩
  rintro ⟨_, ⟨rfl⟩, hword⟩
  have hlt := n.toNat_lt
  exact hword ⟨by omega, by omega⟩

/-- An array is plain if all its items are. -/
theorem plain_array : (array vs).Plain ↔ ∀ v ∈ vs, v.Plain := by
  rw [Plain, distinct_array, exact_array, ← forall₂_and]
  rfl

/-- An object is plain if it has no key twice and all its values are plain. -/
theorem plain_object :
    (object es).Plain ↔ (es.map Prod.fst).Nodup ∧ ∀ e ∈ es, e.2.Plain := by
  rw [Plain, distinct_object, exact_object, and_assoc, ← forall₂_and]
  rfl

theorem plain_object_singleton {key : String} (h : v.Plain) : (object [(key, v)]).Plain :=
  plain_object.2 ⟨List.nodup_singleton key, List.forall_mem_singleton.2 h⟩

theorem plain_array_map {α : Type} {encode : α → Value} (h : ∀ a, (encode a).Plain) (as : List α) :
    (array (as.map encode)).Plain :=
  plain_array.2 (List.forall_mem_map.2 fun a _ => h a)

/-- A plain value is read back from a text that spells it, unless it nests too deep. -/
theorem ofText_of_spells {text : String} (h : Spells v text.toList []) (hv : v.Plain)
    (hnesting : v.nesting ≤ maxLevels) : ofText text = .ok v := by
  have hread := readValue_of_spells h hv.2 hnesting
  rw [merged_of_distinct hv.1] at hread
  exact ofText_eq_ok.2 ⟨[], hread⟩

/-- **A plain value is read back from its compact text.** -/
theorem ofText_compact (hv : v.Plain) (hnesting : v.nesting ≤ maxLevels) :
    ofText v.compact = .ok v := ofText_of_spells (spells_compact v) hv hnesting

/-- **A plain value is read back from its pretty text.** -/
theorem ofText_pretty (hv : v.Plain) (hnesting : v.nesting ≤ maxLevels) :
    ofText v.pretty = .ok v := ofText_of_spells (spells_pretty v) hv hnesting

end Value

/-- A list is decoded from what is written for its items. -/
theorem Format.list_decode_map {α : Type} {F : Format α} {encode : α → Value} {as : List α}
    (h : ∀ a ∈ as, F.decode (encode a) = .ok a) :
    F.list.decode (.array (as.map encode)) = .ok as := by
  refine list_decode_eq_ok.2 ⟨_, rfl, ?_⟩
  rwa [List.forall₂_map_left_iff, List.forall₂_same]

/-! ## Fields that may be left out -/

/-- The entries of fields in order, without those that are left out. -/
def written (fields : List (String × Option Value)) : List (String × Value) :=
  fields.filterMap fun f => f.2.map fun v => (f.1, v)

variable {σ α : Type} {fields : List (String × Option Value)} {key : String} {v : Value}

/-- The entries written are those of the fields that are not left out. -/
theorem mem_written : (key, v) ∈ written fields ↔ (key, some v) ∈ fields := by
  rw [written, List.mem_filterMap]
  constructor
  · rintro ⟨⟨k, o⟩, hmem, h⟩
    obtain ⟨w, rfl, heq⟩ := Option.map_eq_some_iff.1 h
    cases heq
    exact hmem
  · intro h
    exact ⟨(key, some v), h, rfl⟩

/-- Leaving fields out does not change the order of the others. -/
theorem keys_written_sublist (fields : List (String × Option Value)) :
    ((written fields).map Prod.fst).Sublist (fields.map Prod.fst) := by
  induction fields with
  | nil => exact List.Sublist.refl []
  | cons f fields ih =>
    obtain ⟨key, o⟩ := f
    cases o with
    | none => exact ih.cons key
    | some v => exact ih.cons_cons key

/-- What is written for fields is plain if each of their values is. -/
theorem Value.plain_written (hkeys : (fields.map Prod.fst).Nodup)
    (h : ∀ f ∈ fields, ∀ v, f.2 = some v → v.Plain) : (object (written fields)).Plain := by
  refine plain_object.2 ⟨hkeys.sublist (keys_written_sublist fields), ?_⟩
  rintro ⟨key, v⟩ hmem
  exact h _ (mem_written.1 hmem) v rfl

/-- What is written for a component is decoded as the field of the data, and the field is its
default if nothing is written. -/
structure Component.Writes (c : Component σ α) (a : α) (f : String × Option Value) : Prop where
  name_eq : f.1 = c.name
  decode_eq : ∀ v, f.2 = some v → c.format.decode v = .ok (c.proj a)
  default_eq : f.2 = none → c.default? = some (c.proj a)

variable {r : Record σ α} {cs : List (Component σ α)} {a : α}

/-- Fields are written under the names of the components. -/
theorem keys_eq_names (h : List.Forall₂ (fun c f => c.Writes a f) cs fields) :
    fields.map Prod.fst = cs.map Component.name := by
  induction h with
  | nil => rfl
  | cons hf _ ih => rw [List.map_cons, List.map_cons, hf.name_eq, ih]

/-- The field that is written for a component. -/
theorem exists_writes (h : List.Forall₂ (fun c f => c.Writes a f) cs fields) {c : Component σ α}
    (hc : c ∈ cs) : ∃ f ∈ fields, c.Writes a f := by
  obtain ⟨f, hf, hwrites⟩ := exists_of_forall₂ h.flip hc
  exact ⟨f, hf, hwrites⟩

/-- **A record is decoded from its fields as they are written.** -/
theorem Record.MadeOf.decode_written (h : r.MadeOf cs)
    (hfields : List.Forall₂ (fun c f => c.Writes a f) cs fields) :
    r.format.decode (.object (written fields)) = .ok a := by
  have hkeys : (fields.map Prod.fst).Nodup := keys_eq_names hfields ▸ h.nodup
  refine (h.decodeObject_iff (hkeys.sublist (keys_written_sublist fields))).2 fun c hc => ?_
  obtain ⟨⟨key, o⟩, hmem, hname, hdecode, hdefault⟩ := exists_writes hfields hc
  obtain rfl : key = c.name := hname
  cases o with
  | some v => exact .inl ⟨v, mem_written.2 hmem, hdecode v rfl⟩
  | none =>
    refine .inr ⟨fun hwritten => ?_, hdefault rfl⟩
    -- the name stands for one field only, and that is left out
    obtain ⟨⟨key, v⟩, hv, rfl⟩ := List.mem_map.1 hwritten
    have heq := List.inj_on_of_nodup_map hkeys (mem_written.1 hv) hmem rfl
    cases heq

end Exemplar.Json
