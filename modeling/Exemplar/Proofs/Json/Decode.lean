import Exemplar.Json.Format
import Mathlib.Data.List.Forall2
import Mathlib.Data.List.Nodup
import Mathlib.Tactic.SplitIfs

/-!
# Proofs/Json/Decode — which values a format decodes

    list F   decodes   [x, y]   as   [a, b]   ⟺   F decodes x as a and y as b

One equivalence for each way to build a format: which values it decodes and as what.  Nothing is
said about failures, so the steps in which a format looks at a value do not show.
-/

namespace Exemplar.Json.Format

variable {α β : Type} {v x : Value} {vs : List Value} {a b : α} {i : ℕ} {name : String}

/-! ## Atoms -/

/-- An atom is decoded from what it accepts. -/
theorem atom_decode_eq_ok {expected : String} {starts : Char → Bool}
    {accept : Value → Except Fault α} :
    (atom expected starts accept).decode v = .ok a ↔ accept v = .ok a := by
  simp only [atom]
  cases accept v <;> simp

theorem text_decode_eq_ok {s : String} : text.decode v = .ok s ↔ v = .string s := by
  rw [text, atom_decode_eq_ok]
  cases v <;> simp

theorem flag_decode_eq_ok {b : Bool} : flag.decode v = .ok b ↔ v = .bool b := by
  rw [flag, atom_decode_eq_ok]
  cases v <;> simp

theorem unit_decode_eq_ok {u : Unit} : unit.decode v = .ok u ↔ v = .null := by
  rw [unit, atom_decode_eq_ok]
  cases v <;> simp

/-- A word is given by a whole number of its range. -/
theorem word32_decode_eq_ok {n : UInt32} :
    word32.decode v = .ok n ↔ v = .number (.integer n.toNat) := by
  rw [word32, atom_decode_eq_ok]
  split
  · rename_i m
    split_ifs with hm
    · have hword : (UInt32.ofNat m.toNat).toNat = m.toNat :=
        UInt32.toNat_ofNat_of_lt (by rw [UInt32.size]; omega)
      constructor
      · rintro ⟨rfl⟩
        rw [hword, Int.toNat_of_nonneg hm.1]
      · intro h
        have hnat : m = n.toNat := by simpa using h
        rw [hnat, Int.toNat_natCast, UInt32.ofNat_toNat]
    · have hlt := n.toNat_lt
      simp only [Value.number.injEq, Number.integer.injEq, false_iff]
      omega
  · rename_i hv
    simp only [reduceCtorEq, false_iff]
    exact hv _

/-! ## Data made from other data -/

/-- Data made from other data is decoded from what the other is. -/
theorem map_decode_eq_ok {f : α → β} {F : Format α} {b : β} :
    (F.map f).decode v = .ok b ↔ ∃ a, F.decode v = .ok a ∧ f a = b := by
  simp only [map]
  cases F.decode v <;> simp

/-- What is no null is decoded as the data itself. -/
theorem optional_decode {F : Format α} (h : v ≠ .null) :
    F.optional.decode v = (F.map some).decode v := by
  simp only [optional]

/-- Data that may be absent is null, if it is, and itself otherwise, as long as null is no data. -/
theorem optional_decode_eq_ok {F : Format α} {o : Option α} (h : ∀ a, F.decode .null ≠ .ok a) :
    F.optional.decode v = .ok o ↔
      v = .null ∧ o = none ∨ ∃ a, o = some a ∧ F.decode v = .ok a := by
  by_cases hv : v = .null
  · subst hv
    simp [optional, h, eq_comm]
  · rw [optional_decode hv, map_decode_eq_ok]
    simp only [hv, false_and, false_or, and_comm, eq_comm]

/-! ## Arrays -/

/-- **Items are decoded one by one**, whatever index they are counted from. -/
theorem decodeItems_eq_ok {item : Value → Except Error α} {as : List α} :
    decodeItems item i vs = .ok as ↔ List.Forall₂ (fun v a => item v = .ok a) vs as := by
  induction vs generalizing i as with
  | nil => simp [decodeItems, eq_comm]
  | cons v vs ih =>
    rw [decodeItems]
    cases hv : item v with
    | error e => simp [List.forall₂_cons_left_iff, hv]
    | ok a =>
      have hrest (as : List α) : decodeItems item (i + 1) vs = .ok as ↔
          List.Forall₂ (fun v a => item v = .ok a) vs as := ih
      cases hvs : decodeItems item (i + 1) vs with
      | error e =>
        rw [hvs] at hrest
        simp [List.forall₂_cons_left_iff, ← hrest]
      | ok bs =>
        rw [hvs] at hrest
        simp [List.forall₂_cons_left_iff, hv, ← hrest, eq_comm]

/-- A list is decoded from an array of the items, and from nothing else. -/
theorem list_decode_eq_ok {F : Format α} {as : List α} :
    F.list.decode v = .ok as ↔
      ∃ vs, v = .array vs ∧ List.Forall₂ (fun v a => F.decode v = .ok a) vs as := by
  cases v <;> simp [list, decodeItems_eq_ok]

/-! ## Choices -/

/-- A bare name will do only for a variant that has no content. -/
theorem bare_eq_ok {content : Content α} : content.bare = .ok a ↔ content = .nothing a := by
  cases content <;> simp [Content.bare]

/-- The variant found has the name looked for. -/
theorem of_variant? {variants : List (Variant α)} {variant : Variant α}
    (h : variant? variants name = .ok variant) : variant ∈ variants ∧ variant.name = name := by
  rw [variant?] at h
  split at h
  · rename_i hfind
    cases h
    exact ⟨List.mem_of_find?_eq_some hfind, by simpa using List.find?_some hfind⟩
  · cases h

/-- If no two variants share a name, a variant is found by its name. -/
theorem variant?_eq_ok {variants : List (Variant α)} {variant : Variant α}
    (hnodup : (variants.map Variant.name).Nodup) :
    variant? variants name = .ok variant ↔ variant ∈ variants ∧ variant.name = name := by
  refine ⟨of_variant?, ?_⟩
  rintro ⟨hmem, rfl⟩
  cases h : variant? variants variant.name with
  | error f =>
    rw [variant?] at h
    split at h
    · cases h
    · rename_i hnone
      exact absurd (List.find?_eq_none.1 hnone variant hmem) (by simp)
  | ok other =>
    obtain ⟨hother, hname⟩ := of_variant? h
    rw [List.inj_on_of_nodup_map hnodup hother hmem hname]

theorem decodeBare_eq_ok {variants : List (Variant α)} :
    decodeBare variants name = .ok a ↔
      ∃ variant, variant? variants name = .ok variant ∧ variant.content.bare = .ok a := by
  rw [decodeBare]
  cases variant? variants name with
  | error f => simp
  | ok variant => cases h : variant.content.bare <;> simp [h]

/-- A tag is decoded by the format of the variant that it names. -/
theorem decodeTagged_eq_ok {variants : List (Variant α)} :
    decodeTagged variants name v = .ok a ↔
      ∃ variant, variant? variants name = .ok variant ∧
        variant.content.format.decode v = .ok a := by
  rw [decodeTagged]
  cases variant? variants name with
  | error f => simp
  | ok variant => cases h : variant.content.format.decode v <;> simp [h]

/-- **A choice is decoded from a name by itself or from an object with one key**, and from nothing
else. -/
theorem choice_decode_eq_ok {variants : List (Variant α)} :
    (choice variants).decode v = .ok a ↔
      (∃ name, v = .string name ∧ decodeBare variants name = .ok a) ∨
        ∃ name x, v = .object [(name, x)] ∧ decodeTagged variants name x = .ok a := by
  simp only [choice]
  split <;> simp_all

/-- **A choice is given by the bare name of a variant that holds nothing, or by an object whose one
key names the variant.** -/
theorem choice_decode_iff {variants : List (Variant α)}
    (hnodup : (variants.map Variant.name).Nodup) :
    (choice variants).decode v = .ok a ↔ ∃ variant ∈ variants,
      v = .string variant.name ∧ variant.content = .nothing a ∨
        ∃ x, v = .object [(variant.name, x)] ∧ variant.content.format.decode x = .ok a := by
  simp only [choice_decode_eq_ok, decodeBare_eq_ok, decodeTagged_eq_ok, variant?_eq_ok hnodup,
    bare_eq_ok]
  constructor
  · rintro (⟨_, rfl, variant, ⟨hmem, rfl⟩, ha⟩ | ⟨_, x, rfl, variant, ⟨hmem, rfl⟩, ha⟩)
    · exact ⟨variant, hmem, .inl ⟨rfl, ha⟩⟩
    · exact ⟨variant, hmem, .inr ⟨x, rfl, ha⟩⟩
  · rintro ⟨variant, hmem, ⟨rfl, ha⟩ | ⟨x, rfl, ha⟩⟩
    · exact .inl ⟨_, rfl, variant, ⟨hmem, rfl⟩, ha⟩
    · exact .inr ⟨_, x, rfl, variant, ⟨hmem, rfl⟩, ha⟩

/-- A name is given as it is, or as the one key of an object with null. -/
theorem names_decode_iff {choices : List (String × α)} (hnodup : (choices.map Prod.fst).Nodup) :
    (names choices).decode v = .ok a ↔ ∃ name, (name, a) ∈ choices ∧
      (v = .string name ∨ v = .object [(name, .null)]) := by
  have hnames : (choices.map fun c => (⟨c.1, .nothing c.2⟩ : Variant α)).map Variant.name
      = choices.map Prod.fst := by
    rw [List.map_map]
    rfl
  rw [names, choice_decode_iff (hnames ▸ hnodup)]
  constructor
  · rintro ⟨variant, hmem, h⟩
    obtain ⟨⟨name, b⟩, hc, rfl⟩ := List.mem_map.1 hmem
    obtain ⟨rfl, hb⟩ | ⟨x, rfl, hx⟩ := h
    · cases hb
      exact ⟨name, hc, .inl rfl⟩
    · obtain ⟨u, hu, rfl⟩ := map_decode_eq_ok.1 hx
      rw [unit_decode_eq_ok.1 hu]
      exact ⟨name, hc, .inr rfl⟩
  · rintro ⟨name, hc, rfl | rfl⟩
    · exact ⟨_, List.mem_map_of_mem hc, .inl ⟨rfl, rfl⟩⟩
    · exact ⟨_, List.mem_map_of_mem hc, .inr ⟨.null, rfl, rfl⟩⟩

end Exemplar.Json.Format
