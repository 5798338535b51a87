import Exemplar.Proofs.Json.Decode
import Exemplar.Proofs.Traversal

/-!
# Proofs/Json/Place — a failure names a place of the value

    {"span": {"line": -1, "column": 2}}   fails at   span.line

A format that refuses a value says where.  A `Schema` knows the names that may occur on the way: the
fields of a struct, the items of a list, the variants of a choice.  `Schema.Leads` walks a path
through a value along these, and a format that is `Sited` fails only at the end of such a walk.
Every way to build a format keeps that (`Sited.list`, `sited_choice`, `Record.sited_format`, …).
-/

namespace Exemplar.Json

variable {α β ι σ : Type} {s t : ι} {v : Value} {vs : List Value} {es : List (String × Value)}
  {path : List Step} {i : ℕ} {name : String}

/-! ## Paths through a value -/

/-- What is expected at the places of a value, for each kind `ι` of place. -/
structure Schema (ι : Type) where
  /-- The fields of a struct with the kinds of their places, in declared order. -/
  fields : ι → List (String × ι)
  /-- The kind of place that an item of a list is. -/
  item? : ι → Option ι
  /-- The variants of a choice with the kinds of their contents. -/
  variants : ι → List (String × ι)

/-- From a value where an `s` is expected, the path leads through the value: a key is a field of the
struct and a key of the object there, an index is one of the array there, and a variant is the one
key of the object there or, at the end, the text there. -/
inductive Schema.Leads (S : Schema ι) : ι → Value → List Step → Prop
  | root (s : ι) (v : Value) : Leads S s v []
  | field {s t : ι} {es : List (String × Value)} {name : String} {v : Value} {path : List Step}
      (hs : (name, t) ∈ S.fields s) (hv : (name, v) ∈ es) (h : Leads S t v path) :
      Leads S s (.object es) (.key name :: path)
  | slot {s t : ι} {vs : List Value} {i : ℕ} {name : String} {v : Value} {path : List Step}
      (hs : (S.fields s)[i]? = some (name, t)) (hv : vs[i]? = some v) (h : Leads S t v path) :
      Leads S s (.array vs) (.index i :: path)
  | item {s t : ι} {vs : List Value} {i : ℕ} {v : Value} {path : List Step}
      (hs : S.item? s = some t) (hv : vs[i]? = some v) (h : Leads S t v path) :
      Leads S s (.array vs) (.index i :: path)
  | variant {s t : ι} {name : String} {v : Value} {path : List Step}
      (hs : (name, t) ∈ S.variants s) (h : Leads S t v path) :
      Leads S s (.object [(name, v)]) (.variant name :: path)
  | bare {s t : ι} {name : String} (hs : (name, t) ∈ S.variants s) :
      Leads S s (.string name) [.variant name]

variable {S : Schema ι}

/-- Every step of a path through a value is known. -/
theorem Schema.Leads.unknown_notMem (h : S.Leads s v path) : Step.unknown ∉ path := by
  induction h with
  | root => exact List.not_mem_nil
  | bare => simp
  | field _ _ _ ih | slot _ _ _ ih | item _ _ _ ih | variant _ _ ih => simpa using ih

/-! ## Formats -/

/-- Where the format fails, it names a place that the schema leads to. -/
def Format.Sited (F : Format α) (S : Schema ι) (s : ι) : Prop :=
  ∀ v e, F.decode v = .error e → S.Leads s v e.path

namespace Format

variable {F : Format α}

/-- An atom fails where it stands. -/
theorem sited_atom {expected : String} {starts : Char → Bool} {accept : Value → Except Fault α} :
    (atom expected starts accept).Sited S s := by
  intro v e h
  simp only [atom] at h
  cases ha : accept v with
  | ok a => rw [ha] at h; cases h
  | error fault =>
    rw [ha] at h
    cases h
    exact .root s v

theorem sited_never : (never : Format α).Sited S s := by
  intro v e h
  cases h
  exact .root s v

/-- What is made of the data does not move its failures. -/
theorem Sited.map (h : F.Sited S s) (f : α → β) : (F.map f).Sited S s := by
  intro v e he
  simp only [Format.map] at he
  cases hv : F.decode v with
  | ok a => rw [hv] at he; cases he
  | error e' =>
    rw [hv] at he
    cases he
    exact h v e hv

/-- Null is never refused where data may be absent. -/
theorem Sited.optional (h : F.Sited S s) : F.optional.Sited S s := by
  intro v e he
  cases v with
  | null => cases he
  | bool | number | string | array | object => exact h.map some _ e he

/-- A list fails where its first item that is no data does. -/
theorem decodeItems_of_stopsAt {item : Value → Except Error α} {before : List Value} {as : List α}
    {e : Error} (h : StopsAt item vs before as v e) :
    decodeItems item i vs = .error (e.under (.index (i + before.length))) := by
  obtain ⟨⟨after, rfl⟩, hbefore, hv⟩ := h
  induction hbefore generalizing i with
  | nil =>
    rw [List.nil_append, decodeItems, hv]
    rfl
  | @cons u a before as hu _ ih =>
    rw [List.cons_append, decodeItems, hu]
    simp only [ih, List.length_cons, Nat.add_assoc, Nat.add_comm 1]

/-- **A list that fails does so at the first of its items that is no data.** -/
theorem exists_stopsAt_of_decodeItems {item : Value → Except Error α} {e : Error}
    (h : decodeItems item i vs = .error e) : ∃ before as v e', StopsAt item vs before as v e' ∧
      e = e'.under (.index (i + before.length)) := by
  obtain ⟨as, has⟩ | ⟨before, as, v, e', hstop⟩ := exists_forall₂_or_stopsAt item vs
  · rw [decodeItems_eq_ok.2 has] at h
    cases h
  · rw [decodeItems_of_stopsAt hstop] at h
    exact ⟨before, as, v, e', hstop, (Except.error.inj h).symm⟩

/-- A list fails inside of one of its items, if not as a whole. -/
theorem Sited.list (h : F.Sited S t) (hs : S.item? s = some t) : F.list.Sited S s := by
  intro v e he
  cases v with
  | array vs =>
    obtain ⟨before, as, v, e', ⟨⟨after, rfl⟩, -, hv⟩, rfl⟩ := exists_stopsAt_of_decodeItems he
    have hget : (before ++ v :: after)[0 + before.length]? = some v := by simp
    exact .item hs hget (h v e' hv)
  | null | bool | number | string | object =>
    cases he
    exact .root s _

/-- A choice fails at its variant or in it. -/
theorem sited_choice {variants : List (Variant α)}
    (h : ∀ x ∈ variants, ∃ t, (x.name, t) ∈ S.variants s ∧ x.content.format.Sited S t) :
    (choice variants).Sited S s := by
  intro v e he
  simp only [choice] at he
  split at he
  · rename_i name
    rw [decodeBare] at he
    cases hx : variant? variants name with
    | error fault => rw [hx] at he; cases he; exact .root s _
    | ok x =>
      obtain ⟨hmem, rfl⟩ := of_variant? hx
      obtain ⟨t, ht, -⟩ := h x hmem
      rw [hx] at he
      cases hbare : x.content.bare with
      | ok a => simp only [hbare] at he; cases he
      | error fault => simp only [hbare] at he; cases he; exact .bare ht
  · rename_i name v
    rw [decodeTagged] at he
    cases hx : variant? variants name with
    | error fault => rw [hx] at he; cases he; exact .root s _
    | ok x =>
      obtain ⟨hmem, rfl⟩ := of_variant? hx
      obtain ⟨t, ht, hsited⟩ := h x hmem
      rw [hx] at he
      cases hv : x.content.format.decode v with
      | ok a => simp only [hv] at he; cases he
      | error e' => simp only [hv] at he; cases he; exact .variant ht (hsited v e' hv)
  · cases he
    exact .root s _
  · cases he
    exact .root s _

/-- A choice between names has nothing to fail in but the null behind a name. -/
theorem sited_names {choices : List (String × α)}
    (h : ∀ c ∈ choices, ∃ t, (c.1, t) ∈ S.variants s) : (names choices).Sited S s := by
  refine sited_choice fun x hx => ?_
  obtain ⟨c, hc, rfl⟩ := List.mem_map.1 hx
  obtain ⟨t, ht⟩ := h c hc
  exact ⟨t, ht, sited_atom.map _⟩

end Format

/-! ## Records -/

namespace Record

variable {r : Record σ α}

/-- The slots are the fields that the schema has for a place, and their formats are sited. -/
def SitedSlots (S : Schema ι) : List (Slot σ) → List (String × ι) → Prop :=
  List.Forall₂ fun slot f => slot.name = f.1 ∧ slot.format.Sited S f.2

variable {slot : Slot σ} {slots : List (Slot σ)} {fields : List (String × ι)} {d : σ} {e : Error}

/-- Every slot is a field of the schema, with a format that is sited there. -/
theorem SitedSlots.exists_field (h : SitedSlots S slots fields) (hslot : slot ∈ slots) :
    ∃ t, (slot.name, t) ∈ fields ∧ slot.format.Sited S t := by
  obtain ⟨f, hf, hname, hsited⟩ := exists_of_forall₂ h.flip hslot
  exact ⟨f.2, hname ▸ hf, hsited⟩

/-- An object fails in an entry whose key is a field. -/
theorem leads_of_decodeEntries {all : List (String × Value)}
    (hr : SitedSlots S r.slots (S.fields s)) (hes : es ⊆ all)
    (h : r.decodeEntries d es = .error e) : S.Leads s (.object all) e.path := by
  induction es generalizing d with
  | nil => cases h
  | cons entry es ih =>
    obtain ⟨key, v⟩ := entry
    obtain ⟨hentry, hes⟩ := List.cons_subset.1 hes
    rw [decodeEntries] at h
    cases hslot : r.slot? key with
    | none =>
      rw [hslot] at h
      exact ih hes h
    | some slot =>
      have hname : slot.name = key := by simpa using List.find?_some hslot
      obtain ⟨t, ht, hsited⟩ := hr.exists_field (List.mem_of_find?_eq_some hslot)
      simp only [hslot] at h
      split at h
      · cases h
        exact .root s _
      · cases hv : slot.format.decode v with
        | ok fill =>
          rw [hv] at h
          exact ih hes h
        | error e' =>
          rw [hv] at h
          cases h
          exact .field (hname ▸ ht) hentry (hsited v e' hv)

/-- An array fails at an item that stands for a field. -/
theorem leads_of_decodeSlots {lengthText : String} {all : List Value}
    (hslots : SitedSlots S slots ((S.fields s).drop i)) (hvs : all.drop i = vs)
    (h : decodeSlots lengthText i slots d vs = .error e) : S.Leads s (.array all) e.path := by
  induction slots generalizing i d vs with
  | nil => cases h
  | cons slot slots ih =>
    obtain ⟨⟨name, t⟩, fs, ⟨hname, hsited⟩, hrest, hfields⟩ := List.forall₂_cons_left_iff.1 hslots
    have hnext : (S.fields s).drop (i + 1) = fs := by rw [← List.tail_drop, hfields, List.tail_cons]
    cases vs with
    | nil =>
      rw [decodeSlots] at h
      split at h
      · cases h
        exact .root s _
      · exact ih (hnext ▸ hrest) (by rw [← List.tail_drop, hvs, List.tail_nil]) h
    | cons v vs =>
      rw [decodeSlots] at h
      cases hv : slot.format.decode v with
      | ok fill =>
        rw [hv] at h
        exact ih (hnext ▸ hrest) (by rw [← List.tail_drop, hvs, List.tail_cons]) h
      | error e' =>
        rw [hv] at h
        cases h
        have hfield : (S.fields s)[i]? = some (name, t) := by
          rw [← List.head?_drop, hfields, List.head?_cons]
        have hitem : all[i]? = some v := by rw [← List.head?_drop, hvs, List.head?_cons]
        exact .slot hfield hitem (hsited v e' hv)

/-- A record in an object fails at a field, or as a whole. -/
theorem leads_of_decodeObject (hr : SitedSlots S r.slots (S.fields s))
    (h : r.decodeObject es = .error e) : S.Leads s (.object es) e.path := by
  rw [decodeObject] at h
  cases hd : r.decodeEntries r.blank es with
  | error e' =>
    rw [hd] at h
    cases h
    exact leads_of_decodeEntries hr (List.Subset.refl es) hd
  | ok d =>
    simp only [hd] at h
    cases hcomplete : r.complete d with
    | ok a => rw [hcomplete] at h; cases h
    | error fault =>
      rw [hcomplete] at h
      cases h
      exact .root s _

/-- A record in an array fails at the index of a field, or as a whole. -/
theorem leads_of_decodeArray (hr : SitedSlots S r.slots (S.fields s))
    (h : r.decodeArray vs = .error e) : S.Leads s (.array vs) e.path := by
  rw [decodeArray] at h
  cases hd : decodeSlots r.lengthText 0 r.slots r.blank vs with
  | error e' =>
    rw [hd] at h
    cases h
    exact leads_of_decodeSlots hr rfl hd
  | ok result =>
    obtain ⟨d, rest⟩ := result
    simp only [hd] at h
    cases hcomplete : r.complete d with
    | error fault =>
      rw [hcomplete] at h
      cases h
      exact .root s _
    | ok a =>
      simp only [hcomplete] at h
      split at h
      · cases h
      · cases h
        exact .root s _

/-- **A record fails where one of its fields does, or at itself.** -/
theorem sited_format (hr : SitedSlots S r.slots (S.fields s)) : r.format.Sited S s := by
  intro v e h
  cases v with
  | object es => exact leads_of_decodeObject hr h
  | array vs => exact leads_of_decodeArray hr h
  | null | bool | number | string =>
    cases h
    exact .root s _

/-- A record that is the content of a variant fails where one of its fields does, or at itself. -/
theorem sited_variantFormat (hr : SitedSlots S r.slots (S.fields s)) :
    r.variantFormat.Sited S s := by
  intro v e h
  cases v with
  | object es => exact leads_of_decodeObject hr h
  | null | bool | number | string | array =>
    cases h
    exact .root s _

end Record

end Exemplar.Json
