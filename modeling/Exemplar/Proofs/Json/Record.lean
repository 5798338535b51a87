import Exemplar.Proofs.Json.Decode

/-!
# Proofs/Json/Record — what a record is decoded from

    {"b": …, "x": …, "a": …}   ⟼   a ← …, b ← …, c ← default

A record is decoded step by step into a draft.  Seen from its fields the steps disappear: a
`Component` is one field with its own place in the draft and in the data, and if a record is made of
components (`Record.MadeOf`), it is decoded from an object without repeated keys exactly if every
component is supplied by an entry or may be left out (`decodeObject_iff`).  An array is an object
whose keys are the fields' names in order (`decodeArray_iff`).
-/

namespace Exemplar.Json

variable {σ α : Type}

/-- One field of data of type `α` whose fields are drafted in a `σ`. -/
structure Component (σ α : Type) where
  /-- The type of the field's own data. -/
  {τ : Type}
  name : String
  format : Format τ
  /-- What has been drafted for the field. -/
  get : σ → Option τ
  /-- The draft with the field's data. -/
  set : τ → σ → σ
  /-- What the field is if it is left out; a field without has to be there. -/
  default? : Option τ
  /-- The field of the data. -/
  proj : α → τ
  get_set : ∀ x d, get (set x d) = some x

namespace Component

/-- The component as a slot of its record. -/
def slot (c : Component σ α) : Slot σ :=
  ⟨c.name, c.default?.isNone, fun d => (c.get d).isSome, c.format.map c.set⟩

/-- The entries supply `x` for the component: one of them gives it, or none is called so and `x` is
the default. -/
def Supplied (c : Component σ α) (es : List (String × Value)) (x : c.τ) : Prop :=
  (∃ v, (c.name, v) ∈ es ∧ c.format.decode v = .ok x) ∨
    c.name ∉ es.map Prod.fst ∧ c.default? = some x

end Component

/-- The record has the given components: they are its slots, they do not share their places in the
draft, and the data is what the draft or else the defaults say. -/
structure Record.MadeOf (r : Record σ α) (cs : List (Component σ α)) : Prop where
  slots_eq : r.slots = cs.map Component.slot
  nodup : (cs.map Component.name).Nodup
  get_blank : ∀ c ∈ cs, c.get r.blank = none
  get_set_of_ne : ∀ c ∈ cs, ∀ b ∈ cs, c.name ≠ b.name → ∀ x d, b.get (c.set x d) = b.get d
  finish_iff : ∀ d a, r.finish d = .ok a ↔ ∀ c ∈ cs, (c.get d).or c.default? = some (c.proj a)

variable {r : Record σ α} {cs bs : List (Component σ α)} {c : Component σ α} {a b : α} {d d' : σ}
  {key : String} {v : Value} {es : List (String × Value)} {xs rest : List Value} {i : ℕ}
  {lengthText : String} {slot : Slot σ}

namespace Record

/-! ## Decoding in steps -/

/-- Data is complete if it can be finished; only the error is put in other words. -/
theorem complete_eq_ok : r.complete d = .ok a ↔ r.finish d = .ok a := by
  rw [Record.complete]
  cases r.finish d <;> simp

/-- A key that names no slot is passed over. -/
theorem decodeEntries_unknown (hslot : r.slot? key = none) :
    r.decodeEntries d ((key, v) :: es) = r.decodeEntries d es := by
  rw [Record.decodeEntries, hslot]

/-- An object is decoded into a draft, which is finished in the end. -/
theorem decodeObject_eq_ok :
    r.decodeObject es = .ok a ↔ ∃ d, r.decodeEntries r.blank es = .ok d ∧ r.finish d = .ok a := by
  simp only [Record.decodeObject, ← complete_eq_ok]
  cases r.decodeEntries r.blank es with
  | error e => simp
  | ok d => cases h : r.complete d <;> simp [h]

/-- An array is decoded into a draft slot by slot, with no value left over. -/
theorem decodeArray_eq_ok : r.decodeArray xs = .ok a ↔
    ∃ d, decodeSlots r.lengthText 0 r.slots r.blank xs = .ok (d, []) ∧ r.finish d = .ok a := by
  simp only [Record.decodeArray, ← complete_eq_ok]
  cases decodeSlots r.lengthText 0 r.slots r.blank xs with
  | error e => simp
  | ok result =>
    obtain ⟨d, rest⟩ := result
    cases h : r.complete d <;> cases rest <;> simp [h]

/-- **A record is decoded from an object or from an array**, and from nothing else. -/
theorem decode_eq_ok : r.format.decode v = .ok a ↔
    (∃ es, v = .object es ∧ r.decodeObject es = .ok a) ∨
      ∃ xs, v = .array xs ∧ r.decodeArray xs = .ok a := by
  cases v <;> simp [Record.format]

end Record

namespace Record.MadeOf

/-! ## Slots and components -/

/-- The slots of a record are those of its components. -/
theorem mem_slots (h : r.MadeOf cs) : slot ∈ r.slots ↔ ∃ c ∈ cs, c.slot = slot := by
  rw [h.slots_eq, List.mem_map]

/-- A component is told by its name. -/
theorem eq_of_name_eq (h : r.MadeOf cs) {b : Component σ α} (hc : c ∈ cs) (hb : b ∈ cs)
    (hname : c.name = b.name) : c = b :=
  List.inj_on_of_nodup_map h.nodup hc hb hname

/-- A key that names a slot is the name of a component. -/
theorem exists_of_slot? (h : r.MadeOf cs) (hslot : r.slot? key = some slot) :
    ∃ c ∈ cs, c.slot = slot ∧ c.name = key := by
  obtain ⟨c, hc, rfl⟩ := h.mem_slots.1 (List.mem_of_find?_eq_some hslot)
  have hname := List.find?_some hslot
  exact ⟨c, hc, rfl, by simpa [Component.slot] using hname⟩

/-- A key that names no slot is not the name of any. -/
theorem ne_of_slot? (h : r.MadeOf cs) (hslot : r.slot? key = none) (hc : c ∈ cs) :
    c.name ≠ key := by
  have hname := List.find?_eq_none.1 hslot c.slot (h.mem_slots.2 ⟨c, hc, rfl⟩)
  simpa [Component.slot] using hname

theorem slot?_name (h : r.MadeOf cs) (hc : c ∈ cs) : r.slot? c.name = some c.slot := by
  cases hslot : r.slot? c.name with
  | none => exact absurd rfl (h.ne_of_slot? hslot hc)
  | some slot =>
    obtain ⟨b, hb, rfl, hname⟩ := h.exists_of_slot? hslot
    rw [h.eq_of_name_eq hb hc hname]

/-- Data whose fields are equal are equal, if they are what some draft says. -/
theorem eq_of_proj_eq (h : r.MadeOf cs) (hd : r.finish d = .ok a)
    (hproj : ∀ c ∈ cs, c.proj a = c.proj b) : a = b := by
  have ha := (h.finish_iff d a).1 hd
  have hb : r.finish d = .ok b :=
    (h.finish_iff d b).2 fun c hc => by rw [ha c hc, hproj c hc]
  exact Except.ok.inj (hd.symm.trans hb)

/-! ## Objects -/

/-- A first value for a component is put into the draft. -/
theorem decodeEntries_known (h : r.MadeOf cs) (hc : c ∈ cs) {x : c.τ} (hget : c.get d = none)
    (hv : c.format.decode v = .ok x) :
    r.decodeEntries d ((c.name, v) :: es) = r.decodeEntries (c.set x d) es := by
  have hslot : c.slot.format.decode v = .ok (c.set x) :=
    Format.map_decode_eq_ok.2 ⟨x, hv, rfl⟩
  have hfilled : c.slot.isFilled d = false := by simp [Component.slot, hget]
  rw [Record.decodeEntries, h.slot?_name hc]
  simp only [hfilled, Bool.false_eq_true, if_false, hslot]

/-- An entry that is decoded belongs to no component, or it gives data for one that had none. -/
theorem of_decodeEntries_cons (h : r.MadeOf cs)
    (hd : r.decodeEntries d ((key, v) :: es) = .ok d') :
    (∀ c ∈ cs, c.name ≠ key) ∧ r.decodeEntries d es = .ok d' ∨
      ∃ c ∈ cs, c.name = key ∧ c.get d = none ∧ ∃ x, c.format.decode v = .ok x ∧
        r.decodeEntries (c.set x d) es = .ok d' := by
  rw [Record.decodeEntries] at hd
  cases hslot : r.slot? key with
  | none =>
    rw [hslot] at hd
    exact .inl ⟨fun c hc => h.ne_of_slot? hslot hc, hd⟩
  | some slot =>
    obtain ⟨c, hc, rfl, hname⟩ := h.exists_of_slot? hslot
    simp only [hslot] at hd
    split_ifs at hd with hfilled
    cases hfill : c.slot.format.decode v with
    | error e => rw [hfill] at hd; cases hd
    | ok fill =>
      obtain ⟨x, hx, rfl⟩ := Format.map_decode_eq_ok.1 hfill
      rw [hfill] at hd
      have hget : c.get d = none := by simpa [Component.slot] using hfilled
      exact .inr ⟨c, hc, hname, hget, x, hx, hd⟩

/-- Where entries are decoded, a component keeps what it had, or it had nothing and got what an
entry gives. -/
theorem get_of_decodeEntries (h : r.MadeOf cs) (hd : r.decodeEntries d es = .ok d') (hc : c ∈ cs) :
    c.name ∉ es.map Prod.fst ∧ c.get d' = c.get d ∨
      c.get d = none ∧ ∃ v x, (c.name, v) ∈ es ∧ c.format.decode v = .ok x ∧ c.get d' = some x := by
  induction es generalizing d with
  | nil =>
    cases hd
    exact .inl ⟨List.not_mem_nil, rfl⟩
  | cons e es ih =>
    obtain ⟨key, v⟩ := e
    obtain ⟨hunknown, hd⟩ | ⟨b, hb, rfl, hnone, x, hx, hd⟩ := h.of_decodeEntries_cons hd
    · obtain ⟨hkeys, hget⟩ | ⟨hget, w, y, hw, hy⟩ := ih hd
      · refine .inl ⟨?_, hget⟩
        rw [List.map_cons, List.mem_cons, not_or]
        exact ⟨hunknown c hc, hkeys⟩
      · exact .inr ⟨hget, w, y, List.mem_cons_of_mem _ hw, hy⟩
    · by_cases hname : b.name = c.name
      · obtain rfl := h.eq_of_name_eq hb hc hname
        obtain ⟨-, hget⟩ | ⟨hget, -⟩ := ih hd
        · exact .inr ⟨hnone, v, x, List.mem_cons_self, hx, by rw [hget, b.get_set]⟩
        · rw [b.get_set] at hget
          cases hget
      · have hsame : c.get (b.set x d) = c.get d := h.get_set_of_ne b hb c hc hname x d
        obtain ⟨hkeys, hget⟩ | ⟨hget, w, y, hw, hy⟩ := ih hd
        · refine .inl ⟨?_, hget.trans hsame⟩
          rw [List.map_cons, List.mem_cons, not_or]
          exact ⟨Ne.symm hname, hkeys⟩
        · exact .inr ⟨hsame ▸ hget, w, y, List.mem_cons_of_mem _ hw, hy⟩

/-- Entries are decoded if no key is repeated, none belongs to a component that has its data
already, and each gives data for its component. -/
theorem exists_decodeEntries (h : r.MadeOf cs) (hkeys : (es.map Prod.fst).Nodup)
    (hget : ∀ c ∈ cs, c.name ∈ es.map Prod.fst → c.get d = none)
    (hes : ∀ c ∈ cs, ∀ v, (c.name, v) ∈ es → ∃ x, c.format.decode v = .ok x) :
    ∃ d', r.decodeEntries d es = .ok d' := by
  induction es generalizing d with
  | nil => exact ⟨d, rfl⟩
  | cons e es ih =>
    obtain ⟨key, v⟩ := e
    rw [List.map_cons, List.nodup_cons] at hkeys
    have hes' : ∀ c ∈ cs, ∀ v, (c.name, v) ∈ es → ∃ x, c.format.decode v = .ok x :=
      fun c hc v hv => hes c hc v (List.mem_cons_of_mem _ hv)
    cases hslot : r.slot? key with
    | none =>
      rw [decodeEntries_unknown hslot]
      exact ih hkeys.2 (fun c hc hmem => hget c hc (List.mem_cons_of_mem _ hmem)) hes'
    | some slot =>
      obtain ⟨c, hc, -, rfl⟩ := h.exists_of_slot? hslot
      obtain ⟨x, hx⟩ := hes c hc v List.mem_cons_self
      rw [h.decodeEntries_known hc (hget c hc List.mem_cons_self) hx]
      refine ih hkeys.2 (fun b hb hmem => ?_) hes'
      have hname : c.name ≠ b.name := fun heq => hkeys.1 (heq ▸ hmem)
      rw [h.get_set_of_ne c hc b hb hname]
      exact hget b hb (List.mem_cons_of_mem _ hmem)

/-- What is decoded from an object has every component supplied. -/
theorem supplied_of_decodeObject (h : r.MadeOf cs) (ha : r.decodeObject es = .ok a) (hc : c ∈ cs) :
    c.Supplied es (c.proj a) := by
  obtain ⟨d, hd, ha⟩ := decodeObject_eq_ok.1 ha
  have hproj := (h.finish_iff d a).1 ha c hc
  obtain ⟨hkeys, hget⟩ | ⟨-, v, x, hv, hx, hget⟩ := h.get_of_decodeEntries hd hc
  · rw [hget, h.get_blank c hc, Option.none_or] at hproj
    exact .inr ⟨hkeys, hproj⟩
  · rw [hget, Option.some_or] at hproj
    exact .inl ⟨v, hv, hx.trans (congrArg _ (Option.some.inj hproj))⟩

/-- **An object without repeated keys is decoded if and only if every component is supplied.** -/
theorem decodeObject_iff (h : r.MadeOf cs) (hkeys : (es.map Prod.fst).Nodup) :
    r.decodeObject es = .ok a ↔ ∀ c ∈ cs, c.Supplied es (c.proj a) := by
  refine ⟨fun ha c hc => h.supplied_of_decodeObject ha hc, fun hsupplied => ?_⟩
  -- with the entry of a component known, decoding it cannot fail
  have hvalue : ∀ c ∈ cs, ∀ v, (c.name, v) ∈ es → c.format.decode v = .ok (c.proj a) := by
    intro c hc v hv
    obtain ⟨w, hw, hdecode⟩ | ⟨hnot, -⟩ := hsupplied c hc
    · have hpair : (c.name, v) = (c.name, w) := List.inj_on_of_nodup_map hkeys hv hw rfl
      rwa [(Prod.mk.inj hpair).2]
    · exact absurd (List.mem_map_of_mem hv) hnot
  obtain ⟨d, hd⟩ := h.exists_decodeEntries hkeys (fun c hc _ => h.get_blank c hc)
    fun c hc v hv => ⟨_, hvalue c hc v hv⟩
  refine decodeObject_eq_ok.2 ⟨d, hd, (h.finish_iff d a).2 fun c hc => ?_⟩
  obtain ⟨hnot, hget⟩ | ⟨-, v, x, hv, hx, hget⟩ := h.get_of_decodeEntries hd hc
  · obtain ⟨w, hw, -⟩ | ⟨-, hdefault⟩ := hsupplied c hc
    · exact absurd (List.mem_map_of_mem hw) hnot
    · rw [hget, h.get_blank c hc, Option.none_or, hdefault]
  · rw [hget, Option.some_or, Except.ok.inj (hx.symm.trans (hvalue c hc v hv))]

/-! ## Arrays -/

/-- Items are decoded into slots as entries with the slots' names, and the fields that no item is
left for may be left out. -/
theorem decodeSlots_eq_ok (h : r.MadeOf cs) (hbs : bs ⊆ cs) (hnodup : (bs.map Component.name).Nodup)
    (hget : ∀ b ∈ bs, b.get d = none) :
    Record.decodeSlots lengthText i (bs.map Component.slot) d xs = .ok (d', rest) ↔
      r.decodeEntries d ((bs.map Component.name).zip xs) = .ok d' ∧ rest = xs.drop bs.length ∧
        ∀ b ∈ bs.drop xs.length, b.default? ≠ none := by
  induction bs generalizing i d xs with
  | nil => simp [Record.decodeSlots, Record.decodeEntries, eq_comm]
  | cons b bs ih =>
    have hb : b ∈ cs := hbs List.mem_cons_self
    have hbs' : bs ⊆ cs := fun c hc => hbs (List.mem_cons_of_mem b hc)
    rw [List.map_cons, List.nodup_cons] at hnodup
    obtain ⟨hnone, hget⟩ := List.forall_mem_cons.1 hget
    cases xs with
    | nil =>
      have hmore : Record.decodeSlots lengthText (i + 1) (bs.map Component.slot) d []
            = .ok (d', rest) ↔ r.decodeEntries d ((bs.map Component.name).zip []) = .ok d' ∧
          rest = List.drop bs.length [] ∧ ∀ b ∈ bs.drop 0, b.default? ≠ none :=
        ih hbs' hnodup.2 hget
      rw [List.map_cons, Record.decodeSlots]
      -- with no item left, this slot needs a default and so do all that follow
      cases hdefault : b.default? with
      | none => simp [Component.slot, hdefault]
      | some x =>
        rw [if_neg (by simp [Component.slot, hdefault]), hmore]
        simp [hdefault]
    | cons v xs =>
      rw [List.map_cons, Record.decodeSlots, List.map_cons, List.zip_cons_cons]
      cases hv : b.format.decode v with
      | error e =>
        have hslot : b.slot.format.decode v = .error e := by
          simp only [Component.slot, Format.map, hv]
        have hfilled : b.slot.isFilled d = false := by simp [Component.slot, hnone]
        rw [hslot, Record.decodeEntries, h.slot?_name hb]
        simp [hfilled, hslot]
      | ok x =>
        have hslot : b.slot.format.decode v = .ok (b.set x) :=
          Format.map_decode_eq_ok.2 ⟨x, hv, rfl⟩
        have hget' : ∀ c ∈ bs, c.get (b.set x d) = none := by
          intro c hc
          have hname : b.name ≠ c.name := fun heq => hnodup.1 (heq ▸ List.mem_map_of_mem hc)
          rw [h.get_set_of_ne b hb c (hbs' hc) hname, hget c hc]
        rw [h.decodeEntries_known hb hnone hv, hslot]
        exact ih hbs' hnodup.2 hget'

/-- Values have the names in front, as far as there are values. -/
theorem map_fst_zip (names : List String) (xs : List Value) :
    (names.zip xs).map Prod.fst = names.take xs.length := by
  induction names generalizing xs with
  | nil => simp
  | cons name names ih =>
    cases xs with
    | nil => rfl
    | cons v xs => simp [ih]

/-- Values by position repeat no names. -/
theorem nodup_zip (h : r.MadeOf cs) (xs : List Value) :
    (((cs.map Component.name).zip xs).map Prod.fst).Nodup := by
  rw [map_fst_zip]
  exact h.nodup.sublist (List.take_sublist _ _)

/-- **An array is decoded as an object whose keys are the fields' names in order**, with no item
left over. -/
theorem decodeArray_iff (h : r.MadeOf cs) :
    r.decodeArray xs = .ok a ↔
      xs.length ≤ cs.length ∧ r.decodeObject ((cs.map Component.name).zip xs) = .ok a := by
  have hslots (d : σ) (rest : List Value) :
      Record.decodeSlots r.lengthText 0 (cs.map Component.slot) r.blank xs = .ok (d, rest) ↔
        r.decodeEntries r.blank ((cs.map Component.name).zip xs) = .ok d ∧
          rest = xs.drop cs.length ∧ ∀ c ∈ cs.drop xs.length, c.default? ≠ none :=
    h.decodeSlots_eq_ok (List.Subset.refl cs) h.nodup h.get_blank
  rw [decodeArray_eq_ok, decodeObject_eq_ok, h.slots_eq]
  constructor
  · rintro ⟨d, hd, ha⟩
    obtain ⟨hentries, hrest, -⟩ := (hslots d []).1 hd
    exact ⟨List.drop_eq_nil_iff.1 hrest.symm, d, hentries, ha⟩
  · rintro ⟨hlength, d, hd, ha⟩
    refine ⟨d, (hslots d []).2 ⟨hd, (List.drop_eq_nil_iff.2 hlength).symm, ?_⟩, ha⟩
    -- a component behind the last item got nothing, so its default is its data
    intro c hc hnone
    have hmem : c ∈ cs := List.mem_of_mem_drop hc
    have hnot : c.name ∉ ((cs.map Component.name).zip xs).map Prod.fst := by
      rw [map_fst_zip, ← List.map_take]
      rintro hname
      obtain ⟨b, hb, heq⟩ := List.mem_map.1 hname
      obtain rfl := h.eq_of_name_eq (List.mem_of_mem_take hb) hmem heq
      exact List.disjoint_take_drop (List.Nodup.of_map _ h.nodup) (Nat.le_refl _) hb hc
    have hsupplied := h.supplied_of_decodeObject (decodeObject_eq_ok.2 ⟨d, hd, ha⟩) hmem
    obtain ⟨v, hv, -⟩ | ⟨-, hdefault⟩ := hsupplied
    · exact hnot (List.mem_map_of_mem hv)
    · rw [hnone] at hdefault
      cases hdefault

end Record.MadeOf

/-! ## Records of other data -/

namespace Record

variable {β : Type}

/-- The record whose data is made from that of another. -/
def map (f : α → β) (r : Record σ α) : Record σ β :=
  ⟨r.title, r.slots, r.blank, fun d => (r.finish d).map f⟩

/-- What is made of a record has the same draft. -/
theorem map_decodeEntries (f : α → β) (r : Record σ α) (d : σ) (es : List (String × Value)) :
    (r.map f).decodeEntries d es = r.decodeEntries d es := by
  induction es generalizing d with
  | nil => rfl
  | cons e es ih =>
    obtain ⟨key, v⟩ := e
    have hslot : (r.map f).slot? key = r.slot? key := rfl
    simp only [decodeEntries, hslot, ih]

/-- What is made of a record is decoded from the same objects. -/
theorem map_decodeObject (f : α → β) (r : Record σ α) (es : List (String × Value)) :
    (r.map f).decodeObject es = (r.decodeObject es).map f := by
  have hentries : (r.map f).decodeEntries (r.map f).blank es = r.decodeEntries r.blank es :=
    map_decodeEntries f r r.blank es
  rw [decodeObject, decodeObject, hentries]
  cases r.decodeEntries r.blank es with
  | error e => rfl
  | ok d =>
    simp only [complete, map]
    cases r.finish d <;> rfl

/-- What is read, with other data made from it. -/
def mapReading (f : α → β) (reading : Reading α) : Reading β :=
  reading.map fun result => (f result.1, result.2)

/-- Closing a container does not look at what is read in it. -/
theorem inside_mapReading (f : α → β) (close : List Char → Closing) (reading : Reading α) :
    inside close (mapReading f reading) = mapReading f (inside close reading) := by
  cases reading with
  | ok result =>
    simp only [mapReading, Except.map, inside]
    cases (close result.2).failure <;> rfl
  | error e =>
    simp only [mapReading, Except.map, inside]
    cases e.place <;> rfl

theorem map_readComplete (f : α → β) (r : Record σ α) (d : σ) (s : List Char) :
    (r.map f).readComplete d s = mapReading f (r.readComplete d s) := by
  simp only [readComplete, complete, map]
  cases r.finish d <;> rfl

theorem map_readEntries (f : α → β) (r : Record σ α) (levels : ℕ) (s : List Char) :
    (r.map f).readEntries levels s = mapReading f (r.readEntries levels s) := by
  have hfold : foldEntries ((r.map f).readEntry levels) (s.length + 1) true (r.map f).blank s
      = foldEntries (r.readEntry levels) (s.length + 1) true r.blank s := rfl
  rw [readEntries, readEntries, hfold]
  cases foldEntries (r.readEntry levels) (s.length + 1) true r.blank s with
  | error e => rfl
  | ok result => exact map_readComplete f r result.1 result.2

theorem map_readItems (f : α → β) (r : Record σ α) (levels : ℕ) (s : List Char) :
    (r.map f).readItems levels s = mapReading f (r.readItems levels s) := by
  have hslots : readSlots (r.map f).lengthText levels 0 (r.map f).slots (r.map f).blank s
      = readSlots r.lengthText levels 0 r.slots r.blank s := rfl
  rw [readItems, readItems, hslots]
  cases readSlots r.lengthText levels 0 r.slots r.blank s with
  | error e => rfl
  | ok result => exact map_readComplete f r result.1 result.2

/-- **What is made of a record is read where the record is.** -/
theorem map_format_read (f : α → β) (r : Record σ α) (levels : ℕ) (s : List Char) :
    (r.map f).format.read levels s = mapReading f (r.format.read levels s) := by
  simp only [format]
  cases skipBlanks s with
  | nil => rfl
  | cons c t =>
    simp only
    split_ifs
    · cases levels with
      | zero => rfl
      | succ n =>
        simp only [Format.contained]
        rw [map_readItems, inside_mapReading]
    · cases levels with
      | zero => rfl
      | succ n =>
        simp only [Format.contained]
        rw [map_readEntries, inside_mapReading]
    · rfl

/-- A variant's fields may be made into other data before or after they are read. -/
theorem map_variantFormat (f : α → β) (r : Record σ α) :
    (r.map f).variantFormat = r.variantFormat.map f := by
  have hdecode : (r.map f).variantFormat.decode = (r.variantFormat.map f).decode := by
    funext v
    cases v with
    | object es =>
      simp only [variantFormat, Format.map, map_decodeObject]
      cases r.decodeObject es <;> rfl
    | null | bool | number | string | array => rfl
  have hread : (r.map f).variantFormat.read = (r.variantFormat.map f).read := by
    funext levels s
    refine (map_format_read f r levels s).trans ?_
    simp only [Format.map, variantFormat]
    cases r.format.read levels s <;> rfl
  calc (r.map f).variantFormat
      = ⟨(r.map f).variantFormat.decode, (r.map f).variantFormat.read⟩ := rfl
    _ = ⟨(r.variantFormat.map f).decode, (r.variantFormat.map f).read⟩ := by rw [hdecode, hread]

end Record

end Exemplar.Json
