import Exemplar.Proofs.Json.Agrees
import Exemplar.Proofs.Json.Record
import Exemplar.Proofs.Json.Skipping

/-!
# Proofs/Json/RecordAgrees — reading a record agrees with decoding it

    {"x": …, "a": 1}   ──▸   skip x, a ← 1   ⟸   a ← 1

A record read from a text has the text's entries in their own order and repeated unknown keys with
them; the value of the text has them merged.  What matters to a component is only whether its name
is among the keys and what stands there (`Component.Takes`), so a record agrees if its components do
(`agrees_format`).
-/

namespace Exemplar.Json

/-! ## What a component takes from the entries of a text -/

namespace Component

variable {σ α : Type} {c : Component σ α} {d d₁ d₂ : σ} {key : String} {v : Value}
  {es : List (String × Value)}

/-- From `d` to `d₁`, past the entries, the component keeps what it had, as none of them is called
so, or it had nothing and gets the only thing that can be decoded from one that is. -/
def Takes (c : Component σ α) (es : List (String × Value)) (d d₁ : σ) : Prop :=
  c.name ∉ es.map Prod.fst ∧ c.get d₁ = c.get d ∨
    c.get d = none ∧ c.name ∈ es.map Prod.fst ∧ ∃ x, c.get d₁ = some x ∧
      ∀ v, (c.name, v) ∈ es → ∀ y, c.format.decode v.merged = .ok y → y = x

/-- An entry of another name makes no difference. -/
theorem Takes.cons_of_ne (h : c.Takes es d₁ d₂) (hname : c.name ≠ key) (hget : c.get d₁ = c.get d) :
    c.Takes ((key, v) :: es) d d₂ := by
  obtain ⟨hkeys, hkeeps⟩ | ⟨hnone, hkeys, x, hx, hdecode⟩ := h
  · refine .inl ⟨?_, hkeeps.trans hget⟩
    rw [List.map_cons, List.mem_cons, not_or]
    exact ⟨hname, hkeys⟩
  · refine .inr ⟨hget ▸ hnone, List.mem_cons_of_mem _ hkeys, x, hx, fun v' hv' => ?_⟩
    rcases List.mem_cons.1 hv' with heq | hv'
    · exact absurd (Prod.mk.inj heq).1 hname
    · exact hdecode v' hv'

/-- An entry of the component's name is the only one. -/
theorem Takes.cons_self {x : c.τ} (h : c.Takes es (c.set x d) d₂) (hnone : c.get d = none)
    (hdecode : ∀ y, c.format.decode v.merged = .ok y → y = x) :
    c.Takes ((c.name, v) :: es) d d₂ := by
  obtain ⟨hkeys, hkeeps⟩ | ⟨hget, -⟩ := h
  · refine .inr ⟨hnone, List.mem_cons_self, x, by rw [hkeeps, c.get_set], fun v' hv' => ?_⟩
    rcases List.mem_cons.1 hv' with heq | hv'
    · rw [(Prod.mk.inj heq).2]
      exact hdecode
    · exact absurd (List.mem_map_of_mem hv') hkeys
  · rw [c.get_set] at hget
    cases hget

end Component

namespace Record

variable {σ α : Type} {r : Record σ α} {cs bs : List (Component σ α)} {c : Component σ α}
  {a b : α} {d d' : σ} {key : String} {v : Value} {es : List (String × Value)} {vs : List Value}
  {s t u w k rest rest' : List Char} {levels fuel i : ℕ} {first : Bool} {lengthText : String}

/-! ## Arrays -/

/-- Items that are decoded into slots, with none left over, are read into them. -/
theorem exists_readSlots_eq_ok (hagrees : ∀ b ∈ bs, b.format.Agrees)
    (hs : SpellsItems first vs s (']' :: rest)) (hfirst : first = (i == 0))
    (hnesting : ∀ v ∈ vs, v.nesting ≤ levels)
    (hd : decodeSlots lengthText i (bs.map Component.slot) d vs = .ok (d', [])) :
    ∃ u, readSlots lengthText levels i (bs.map Component.slot) d s = .ok (d', u) ∧
      skipBlanks u = ']' :: rest := by
  subst hfirst
  induction bs generalizing i s d vs with
  | nil =>
    cases hd
    obtain ⟨t, ht, hrest⟩ := nextItem_false hs
    cases hrest
    exact ⟨s, rfl, ht⟩
  | cons b bs ih =>
    obtain ⟨hb, hbs⟩ := List.forall_mem_cons.1 hagrees
    cases vs with
    | nil =>
      have hclose : nextItem (i == 0) s = .ok (false, ']' :: rest) := hs
      rw [List.map_cons, decodeSlots] at hd
      split_ifs at hd with hrequired
      -- the slots that are left are passed in front of the bracket, which stays where it is
      have hrest : SpellsItems (i + 1 == 0) [] (']' :: rest) (']' :: rest) :=
        nextItem_close (skipBlanks_cons (by decide))
      obtain ⟨u, hu, hblanks⟩ := ih hbs (List.forall_mem_nil _) hd hrest
      refine ⟨u, ?_, hblanks⟩
      rw [List.map_cons, readSlots, hclose]
      simp only [if_neg hrequired]
      exact hu
    | cons v vs =>
      obtain ⟨t, w, hnext, hv, hvs⟩ := hs
      obtain ⟨hvalue, hvalues⟩ := List.forall_mem_cons.1 hnesting
      rw [List.map_cons, decodeSlots] at hd
      split at hd
      · cases hd
      · rename_i fill hfill
        have hread := (hb.map b.set).read_of_decode hv hvalue hfill
        obtain ⟨u, hu, hblanks⟩ := ih hbs hvalues hd hvs
        refine ⟨u, ?_, hblanks⟩
        rw [List.map_cons, readSlots, hnext]
        simp only [Component.slot, hread]
        exact hu

/-- Items that are read into slots leave the text at further items, and nothing else is decoded
into the slots from their merged values. -/
theorem of_readSlots (hagrees : ∀ b ∈ bs, b.format.Agrees)
    (hs : SpellsItems first vs s rest) (hfirst : first = (i == 0))
    (hnesting : ∀ v ∈ vs, v.nesting ≤ levels)
    (hread : readSlots lengthText levels i (bs.map Component.slot) d s = .ok (d', u)) :
    (∃ more ws, SpellsItems more ws u rest) ∧ ∀ text j d'' left,
      decodeSlots text j (bs.map Component.slot) d (vs.map Value.merged) = .ok (d'', left) →
        d'' = d' := by
  subst hfirst
  induction bs generalizing i s d vs with
  | nil =>
    cases hread
    refine ⟨⟨_, vs, hs⟩, fun text j d'' left hd => ?_⟩
    cases hd
    rfl
  | cons b bs ih =>
    obtain ⟨hb, hbs⟩ := List.forall_mem_cons.1 hagrees
    rw [List.map_cons, readSlots] at hread
    cases vs with
    | nil =>
      have hclose : nextItem (i == 0) s = .ok (false, rest) := hs
      obtain ⟨t, -, rfl⟩ := nextItem_false hclose
      rw [hclose] at hread
      simp only at hread
      split_ifs at hread with hrequired
      have hrest : SpellsItems (i + 1 == 0) [] (']' :: t) (']' :: t) :=
        nextItem_close (skipBlanks_cons (by decide))
      obtain ⟨hmore, hdecode⟩ := ih hbs (List.forall_mem_nil _) hread hrest
      refine ⟨hmore, fun text j d'' left hd => ?_⟩
      rw [List.map_cons, List.map_nil, decodeSlots, if_neg hrequired] at hd
      exact hdecode text (j + 1) d'' left hd
    | cons v vs =>
      obtain ⟨t, w, hnext, hv, hvs⟩ := hs
      obtain ⟨hvalue, hvalues⟩ := List.forall_mem_cons.1 hnesting
      rw [hnext] at hread
      simp only at hread
      split at hread
      · cases hread
      · rename_i fill w' hfill
        obtain ⟨rfl, heq⟩ := (hb.map b.set).eq_of_read hv hvalue hfill
        obtain ⟨hmore, hdecode⟩ := ih hbs hvalues hread hvs
        refine ⟨hmore, fun text j d'' left hd => ?_⟩
        rw [List.map_cons, List.map_cons, decodeSlots] at hd
        split at hd
        · cases hd
        · rename_i fill' hfill'
          -- the merged item may decode where the item does not, but only to what was read
          rw [heq fill' hfill'] at hd
          exact hdecode text (j + 1) d'' left hd

/-! ## The format starts with a bracket or a brace -/

/-- Completing a record reads nothing more. -/
theorem readComplete_eq_ok : r.readComplete d s = .ok (a, u) ↔ r.finish d = .ok a ∧ s = u := by
  rw [readComplete, ← complete_eq_ok]
  cases h : r.complete d <;> simp

/-- What starts with a bracket is read by position. -/
theorem format_read_array (hs : skipBlanks s = '[' :: t) :
    r.format.read levels s = Format.contained closeArray levels ('[' :: t) r.readItems := by
  simp only [format, hs, if_true]

/-- What starts with a brace is read by name. -/
theorem format_read_object (hs : skipBlanks s = '\x7b' :: t) :
    r.format.read levels s = Format.contained closeObject levels ('\x7b' :: t) r.readEntries := by
  have hbrace : '\x7b' ≠ '[' := by decide
  simp only [format, hs, if_neg hbrace, if_true]

/-- A record that was read starts with a bracket or a brace. -/
theorem of_format_read (h : r.format.read levels s = .ok (a, u)) :
    (∃ t, skipBlanks s = '[' :: t) ∨ ∃ t, skipBlanks s = '\x7b' :: t := by
  simp only [format] at h
  cases hs : skipBlanks s with
  | nil => rw [hs] at h; cases h
  | cons c t =>
    simp only [hs] at h
    split_ifs at h with harray hobject
    · exact .inl ⟨t, by rw [harray]⟩
    · exact .inr ⟨t, by rw [hobject]⟩

/-- A null is no record. -/
theorem rejectsNull_format : r.format.RejectsNull := by
  intro levels s t a u hs hread
  obtain ⟨t', hs'⟩ | ⟨t', hs'⟩ := of_format_read hread <;>
    exact absurd (List.cons.inj (hs.symm.trans hs')).1 (by decide)

/-! ## One entry -/

/-- A value whose key names no slot is skipped. -/
theorem readEntry_unknown (hslot : r.slot? key = none) (hcolon : readColon k = .ok t)
    (hv : Spells v t u) : r.readEntry levels d key k = .ok (d, u) := by
  rw [readEntry, hslot]
  refine readEntryValue_of_readColon hcolon ?_
  rw [skipValue_of_spells hv]

/-- A value that is skipped leaves the draft as it is. -/
theorem of_readEntry_unknown (hslot : r.slot? key = none)
    (h : r.readEntry levels d key k = .ok (d', u)) :
    d' = d ∧ ∃ t, readColon k = .ok t ∧ skipValue t = .ok u := by
  rw [readEntry, hslot] at h
  obtain ⟨t, hcolon, hskip⟩ := readEntryValue_eq_ok h
  cases hu : skipValue t with
  | error f => rw [hu] at hskip; cases hskip
  | ok w =>
    rw [hu] at hskip
    cases hskip
    exact ⟨rfl, t, hcolon, hu⟩

namespace MadeOf

/-- A first value for a component is read into the draft. -/
theorem readEntry_known (h : r.MadeOf cs) (hc : c ∈ cs) {x : c.τ} (hget : c.get d = none)
    (hcolon : readColon k = .ok t) (hread : c.format.read levels t = .ok (x, u)) :
    r.readEntry levels d c.name k = .ok (c.set x d, u) := by
  have hfilled : c.slot.isFilled d = false := by simp [Component.slot, hget]
  have hslot : c.slot.format.read levels t = .ok (c.set x, u) :=
    Format.map_read_eq_ok.2 ⟨x, hread, rfl⟩
  rw [readEntry, h.slot?_name hc]
  simp only [hfilled, Bool.false_eq_true, if_false, readEntryValue_of_readColon hcolon hslot]

/-- An entry that is read belongs to no component and changes nothing, or it gives data for a
component that had none. -/
theorem of_readEntry (h : r.MadeOf cs) (hread : r.readEntry levels d key k = .ok (d', u)) :
    (∀ c ∈ cs, c.name ≠ key) ∧ d' = d ∧ (∃ t, readColon k = .ok t ∧ skipValue t = .ok u) ∨
      ∃ c ∈ cs, c.name = key ∧ c.get d = none ∧ ∃ t x, readColon k = .ok t ∧
        c.format.read levels t = .ok (x, u) ∧ d' = c.set x d := by
  cases hslot : r.slot? key with
  | none => exact .inl ⟨fun c hc => h.ne_of_slot? hslot hc, of_readEntry_unknown hslot hread⟩
  | some slot =>
    obtain ⟨c, hc, rfl, hname⟩ := h.exists_of_slot? hslot
    rw [readEntry, hslot] at hread
    simp only at hread
    split_ifs at hread with hfilled
    split at hread
    · cases hread
    · rename_i fill w hvalue
      cases hread
      obtain ⟨t, hcolon, hfill⟩ := readEntryValue_eq_ok hvalue
      obtain ⟨x, hx, rfl⟩ := Format.map_read_eq_ok.1 hfill
      have hget : c.get d = none := by simpa [Component.slot] using hfilled
      exact .inr ⟨c, hc, hname, hget, t, x, hcolon, hx, rfl⟩

/-! ## Objects -/

theorem slot?_eq_none (h : r.MadeOf cs) (hkey : ∀ c ∈ cs, c.name ≠ key) : r.slot? key = none := by
  cases hslot : r.slot? key with
  | none => rfl
  | some slot =>
    obtain ⟨c, hc, -, hname⟩ := h.exists_of_slot? hslot
    exact absurd hname (hkey c hc)

/-- Entries that are decoded are read from their spelling. -/
theorem foldEntries_of_decodeEntries (h : r.MadeOf cs) (hagrees : ∀ c ∈ cs, c.format.Agrees)
    (hs : SpellsEntries first es s u) (hnesting : ∀ e ∈ es, e.2.nesting ≤ levels)
    (hd : r.decodeEntries d es = .ok d') (hfuel : es.length < fuel) :
    foldEntries (r.readEntry levels) fuel first d s = .ok (d', u) := by
  induction es generalizing first s d fuel with
  | nil =>
    obtain ⟨fuel, rfl⟩ := Nat.exists_eq_add_one.2 (Nat.zero_lt_of_lt hfuel)
    cases hd
    exact foldEntries_none hs
  | cons e es ih =>
    obtain ⟨key, v⟩ := e
    obtain ⟨fuel, rfl⟩ := Nat.exists_eq_add_one.2 (Nat.zero_lt_of_lt hfuel)
    obtain ⟨k, t, w, hnext, hcolon, hv, hes⟩ := hs
    obtain ⟨hvalue, hvalues⟩ := List.forall_mem_cons.1 hnesting
    have hlength : es.length < fuel := by simpa using hfuel
    obtain ⟨hunknown, hd⟩ | ⟨c, hc, rfl, hget, x, hx, hd⟩ := h.of_decodeEntries_cons hd
    · have hentry : r.readEntry levels d key k = .ok (d, w) :=
        readEntry_unknown (h.slot?_eq_none hunknown) hcolon hv
      rw [foldEntries_some hnext hentry]
      exact ih hes hvalues hd hlength
    · have hread := (hagrees c hc).read_of_decode hv hvalue hx
      rw [foldEntries_some hnext (h.readEntry_known hc hget hcolon hread)]
      exact ih hes hvalues hd hlength

/-- Where entries are read, each component takes what is called so among them. -/
theorem takes_of_foldEntries (h : r.MadeOf cs) (hagrees : ∀ c ∈ cs, c.format.Agrees)
    (hs : SpellsEntries first es s u) (hnesting : ∀ e ∈ es, e.2.nesting ≤ levels)
    (hread : foldEntries (r.readEntry levels) fuel first d s = .ok (d', w)) :
    w = u ∧ ∀ c ∈ cs, c.Takes es d d' := by
  induction es generalizing first s d fuel with
  | nil =>
    have hnone : nextKey first s = .ok (none, u) := hs
    cases fuel with
    | zero => cases hread
    | succ fuel =>
      rw [foldEntries_none hnone] at hread
      cases hread
      exact ⟨rfl, fun c _ => .inl ⟨List.not_mem_nil, rfl⟩⟩
  | cons e es ih =>
    obtain ⟨key, v⟩ := e
    obtain ⟨k, t, q, hnext, hcolon, hv, hes⟩ := hs
    obtain ⟨hvalue, hvalues⟩ := List.forall_mem_cons.1 hnesting
    cases fuel with
    | zero => cases hread
    | succ fuel =>
      obtain ⟨hnone, -⟩ | ⟨key', k', next, q', hsome, hentry, hmore⟩ := foldEntries_eq_ok hread
      · rw [hnext] at hnone
        cases hnone
      · rw [hnext] at hsome
        cases hsome
        obtain ⟨hunknown, rfl, t', hcolon', hskip⟩ | ⟨b, hb, rfl, hnone, t', x, hcolon', hx, rfl⟩ :=
          h.of_readEntry hentry
        · rw [hcolon] at hcolon'
          cases hcolon'
          -- a value that nobody asks for is skipped to where the one that is spelled ends
          obtain rfl : q' = q := Except.ok.inj (hskip.symm.trans (skipValue_of_spells hv))
          obtain ⟨hw, htakes⟩ := ih hes hvalues hmore
          exact ⟨hw, fun c hc => (htakes c hc).cons_of_ne (hunknown c hc) rfl⟩
        · rw [hcolon] at hcolon'
          cases hcolon'
          obtain ⟨rfl, hdecode⟩ := (hagrees b hb).eq_of_read hv hvalue hx
          obtain ⟨hw, htakes⟩ := ih hes hvalues hmore
          refine ⟨hw, fun c hc => ?_⟩
          by_cases hname : b.name = c.name
          · obtain rfl := h.eq_of_name_eq hb hc hname
            exact (htakes b hc).cons_self hnone hdecode
          · have hsame := h.get_set_of_ne b hb c hc hname x d
            exact (htakes c hc).cons_of_ne (Ne.symm hname) hsame

/-- What is decoded from the merged entries of a text is what was read from it. -/
theorem eq_of_readEntries (h : r.MadeOf cs) (hagrees : ∀ c ∈ cs, c.format.Agrees)
    (hs : SpellsEntries first es s u) (hnesting : ∀ e ∈ es, e.2.nesting ≤ levels)
    (hread : foldEntries (r.readEntry levels) fuel first r.blank s = .ok (d', w))
    (ha : r.finish d' = .ok a)
    (hb : r.decodeObject (Value.insertAll [] (Value.mergedEntries es)) = .ok b) : b = a := by
  refine (h.eq_of_proj_eq ha fun c hc => ?_).symm
  have hproj := (h.finish_iff d' a).1 ha c hc
  have hkeys : c.name ∈ (Value.insertAll [] (Value.mergedEntries es)).map Prod.fst
      ↔ c.name ∈ es.map Prod.fst := by
    rw [Value.keys_insertAll, Value.mergedEntries_eq, List.map_map]
    simp [Function.comp_def]
  obtain ⟨hnot, hget⟩ | ⟨-, hmem, x, hget, hdecode⟩ :=
    (h.takes_of_foldEntries hagrees hs hnesting hread).2 c hc
  · rw [hget, h.get_blank c hc, Option.none_or] at hproj
    obtain ⟨v, hv, -⟩ | ⟨-, hdefault⟩ := h.supplied_of_decodeObject hb hc
    · exact absurd (hkeys.1 (List.mem_map_of_mem hv)) hnot
    · exact Option.some.inj (hproj.symm.trans hdefault)
  · rw [hget, Option.some_or] at hproj
    obtain ⟨v, hv, hx⟩ | ⟨hnot, -⟩ := h.supplied_of_decodeObject hb hc
    · obtain hnil | hv := Value.mem_insertAll hv
      · cases hnil
      · rw [Value.mergedEntries_eq] at hv
        obtain ⟨⟨k, v'⟩, he, heq⟩ := List.mem_map.1 hv
        obtain ⟨rfl, rfl⟩ := Prod.mk.inj heq
        rw [hdecode v' he _ hx]
        exact (Option.some.inj hproj).symm
    · exact absurd (hkeys.2 hmem) hnot

/-! ## The record as a whole -/

/-- **An object that is decoded is read** from every text that spells it. -/
theorem read_of_decodeObject (h : r.MadeOf cs) (hagrees : ∀ c ∈ cs, c.format.Agrees)
    (hv : Spells (.object es) s u) (hnesting : (Value.object es).nesting ≤ levels)
    (ha : r.decodeObject es = .ok a) : r.format.read levels s = .ok (a, u) := by
  obtain ⟨t, hs, hes⟩ := hv
  obtain ⟨d, hd, ha⟩ := decodeObject_eq_ok.1 ha
  obtain ⟨n, rfl, hlevel⟩ := Value.exists_level_of_object hnesting
  have hle := length_le_of_spellsEntries hes
  have hread : foldEntries (r.readEntry n) (t.length + 1) true r.blank t = .ok (d, '\x7d' :: u) :=
    h.foldEntries_of_decodeEntries hagrees hes hlevel hd (by omega)
  have hentries : r.readEntries n t = .ok (a, '\x7d' :: u) := by
    rw [readEntries, hread]
    exact readComplete_eq_ok.2 ⟨ha, rfl⟩
  rw [format_read_object hs, Format.contained, List.drop_one, List.tail_cons, hentries,
    inside_closeObject]

/-- **An array that is decoded is read** from every text that spells it. -/
theorem read_of_decodeArray (h : r.MadeOf cs) (hagrees : ∀ c ∈ cs, c.format.Agrees)
    (hv : Spells (.array vs) s u) (hnesting : (Value.array vs).nesting ≤ levels)
    (ha : r.decodeArray vs = .ok a) : r.format.read levels s = .ok (a, u) := by
  obtain ⟨t, hs, hvs⟩ := hv
  obtain ⟨d, hd, ha⟩ := decodeArray_eq_ok.1 ha
  obtain ⟨n, rfl, hlevel⟩ := Value.exists_level_of_array hnesting
  rw [h.slots_eq] at hd
  obtain ⟨w, hread, hw⟩ :=
    exists_readSlots_eq_ok hagrees hvs rfl hlevel hd
  have hitems : r.readItems n t = .ok (a, w) := by
    rw [readItems, h.slots_eq, hread]
    exact readComplete_eq_ok.2 ⟨ha, rfl⟩
  have hclose : closeArray w = { rest := u } := by
    rw [closeArray, hw]
    simp only [if_true]
  rw [format_read_array hs, Format.contained, List.drop_one, List.tail_cons, hitems, inside, hclose]

/-- What is read from an object is what is decoded from its merged entries, if anything is. -/
theorem eq_of_read_object (h : r.MadeOf cs) (hagrees : ∀ c ∈ cs, c.format.Agrees)
    (hs : skipBlanks s = '\x7b' :: t) (hes : SpellsEntries true es t ('\x7d' :: u))
    (hnesting : (Value.object es).nesting ≤ levels) (hread : r.format.read levels s = .ok (a, w)) :
    w = u ∧ ∀ b, r.decodeObject (Value.insertAll [] (Value.mergedEntries es)) = .ok b → b = a := by
  rw [format_read_object hs] at hread
  obtain ⟨n, rfl, q, hentries, -, hrest⟩ := Format.contained_eq_ok hread
  have hnesting := Value.nesting_object_le.1 hnesting
  rw [readEntries] at hentries
  split at hentries
  · cases hentries
  · rename_i d q' hfold
    obtain ⟨ha, rfl⟩ := readComplete_eq_ok.1 hentries
    obtain ⟨rfl, -⟩ := h.takes_of_foldEntries hagrees hes hnesting hfold
    rw [closeObject_brace] at hrest
    exact ⟨hrest.symm, fun b hb => h.eq_of_readEntries hagrees hes hnesting hfold ha hb⟩

/-- What is read from an array is what is decoded from it, if anything is. -/
theorem eq_of_read_array (h : r.MadeOf cs) (hagrees : ∀ c ∈ cs, c.format.Agrees)
    (hs : skipBlanks s = '[' :: t) (hvs : SpellsItems true vs t (']' :: u))
    (hnesting : (Value.array vs).nesting ≤ levels) (hread : r.format.read levels s = .ok (a, w)) :
    w = u ∧ ∀ b, r.decodeArray (vs.map Value.merged) = .ok b → b = a := by
  rw [format_read_array hs] at hread
  obtain ⟨n, rfl, q, hitems, hclose, hrest⟩ := Format.contained_eq_ok hread
  rw [readItems] at hitems
  split at hitems
  · cases hitems
  · rename_i d q' hslots
    obtain ⟨ha, rfl⟩ := readComplete_eq_ok.1 hitems
    rw [h.slots_eq] at hslots
    obtain ⟨⟨more, ws, hws⟩, hdecode⟩ :=
      of_readSlots hagrees hvs rfl (Value.nesting_array_le.1 hnesting) hslots
    have hend : nextItem more q' = .ok (false, ']' :: w) :=
      nextItem_close (hrest ▸ skipBlanks_of_closeArray hclose)
    obtain ⟨rfl, hu⟩ := eq_nil_of_spellsItems hws hend
    refine ⟨(List.cons.inj hu).2, fun b hb => ?_⟩
    obtain ⟨d', hd', hb⟩ := decodeArray_eq_ok.1 hb
    rw [h.slots_eq] at hd'
    rw [hdecode _ _ _ _ hd', ha] at hb
    exact (Except.ok.inj hb).symm

/-- **A record agrees if its components do.** -/
theorem agrees_format (h : r.MadeOf cs) (hagrees : ∀ c ∈ cs, c.format.Agrees) :
    r.format.Agrees where
  read_of_decode hv hnesting hdecode := by
    obtain ⟨es, rfl, ha⟩ | ⟨vs, rfl, ha⟩ := decode_eq_ok.1 hdecode
    · exact h.read_of_decodeObject hagrees hv hnesting ha
    · exact h.read_of_decodeArray hagrees hv hnesting ha
  eq_of_read hv hnesting hread := by
    obtain ⟨t, hs⟩ | ⟨t, hs⟩ := of_format_read hread
    · obtain ⟨vs, rfl, hvs⟩ := exists_array_of_spells hv hs
      rw [Value.merged, Value.mergedItems_eq]
      exact h.eq_of_read_array hagrees hs hvs hnesting hread
    · obtain ⟨es, rfl, hes⟩ := exists_object_of_spells hv hs
      exact h.eq_of_read_object hagrees hs hes hnesting hread

/-- The fields of a variant agree if the record of them does, though a value gives them as an
object only. -/
theorem agrees_variantFormat (h : r.MadeOf cs) (hagrees : ∀ c ∈ cs, c.format.Agrees) :
    r.variantFormat.Agrees where
  read_of_decode {levels v s u a} hv hnesting hdecode := by
    cases v with
    | object es => exact h.read_of_decodeObject hagrees hv hnesting hdecode
    | null | bool | number | string | array => cases hdecode
  eq_of_read {levels v s u w a} hv hnesting hread := by
    obtain ⟨hw, heq⟩ := (h.agrees_format hagrees).eq_of_read hv hnesting hread
    refine ⟨hw, fun b hb => heq b ?_⟩
    cases hmerged : v.merged with
    | object es => rw [hmerged] at hb; exact hb
    | null | bool | number | string | array => rw [hmerged] at hb; cases hb

end MadeOf

end Record

end Exemplar.Json
