import Exemplar.Proofs.Json.Spells
import Mathlib.Data.List.Forall2

/-!
# Proofs/Json/Reading — reading a value is finding what its text spells

    {"a": 1, "b": 2, "a": 3}   ──▸   {"a": 3, "b": 2}

A text that is read spells a value that may repeat keys, and the reader gives that value back
`merged`: of the entries with one key the first has the place and the last the value
(`exists_spells_of_readValue`).  The other way round, what a text spells is read from it, up to the
nesting that the reader allows, if all numbers are read back as they are (`readValue_of_spells`).
A value whose objects repeat no keys is its own merged form (`merged_of_distinct`).
-/

namespace Exemplar.Json

variable {c : Char} {s t r rest : List Char} {v : Value} {vs : List Value} {key : String}
  {es acc : List (String × Value)} {first : Bool} {levels fuel i n : ℕ} {α : Type}

namespace Value

/-! ## Inside a value -/

mutual

/-- The value and every value inside it is a `p`. -/
def Throughout (p : Value → Prop) : Value → Prop
  | array items => p (array items) ∧ ThroughoutItems p items
  | object es => p (object es) ∧ ThroughoutEntries p es
  | v => p v

/-- Each value and every value inside it is a `p`. -/
def ThroughoutItems (p : Value → Prop) : List Value → Prop
  | [] => True
  | v :: vs => v.Throughout p ∧ ThroughoutItems p vs

/-- The value of each entry and every value inside it is a `p`. -/
def ThroughoutEntries (p : Value → Prop) : List (String × Value) → Prop
  | [] => True
  | (_, v) :: es => v.Throughout p ∧ ThroughoutEntries p es

end

variable {p : Value → Prop}

/-- A property holds throughout values if it holds throughout each. -/
theorem throughoutItems_iff : ThroughoutItems p vs ↔ ∀ v ∈ vs, v.Throughout p := by
  induction vs with
  | nil => simp [ThroughoutItems]
  | cons v vs ih => rw [ThroughoutItems, ih, List.forall_mem_cons]

theorem throughoutEntries_iff : ThroughoutEntries p es ↔ ∀ e ∈ es, e.2.Throughout p := by
  induction es with
  | nil => simp [ThroughoutEntries]
  | cons e es ih => rw [ThroughoutEntries, ih, List.forall_mem_cons]

/-- No object of the value repeats a key. -/
def Distinct : Value → Prop :=
  Throughout fun v => ∀ es, v = object es → (es.map Prod.fst).Nodup

/-- An array repeats no keys if none of its items does. -/
theorem distinct_array : (array vs).Distinct ↔ ∀ v ∈ vs, v.Distinct := by
  rw [Distinct, Throughout, throughoutItems_iff]
  exact and_iff_right nofun

/-- An object repeats no keys if it has none of its own twice and none of its values does. -/
theorem distinct_object :
    (object es).Distinct ↔ (es.map Prod.fst).Nodup ∧ ∀ e ∈ es, e.2.Distinct := by
  rw [Distinct, Throughout, throughoutEntries_iff]
  refine and_congr_left fun _ => ⟨fun h => h es rfl, ?_⟩
  rintro h _ ⟨rfl⟩
  exact h

/-- Every number of the value is read back as it is. -/
def Exact : Value → Prop := Throughout fun v => ¬ v.IsInexact

theorem exact_array : (array vs).Exact ↔ ∀ v ∈ vs, v.Exact := by
  rw [Exact, Throughout, throughoutItems_iff]
  exact and_iff_right nofun

theorem exact_object : (object es).Exact ↔ ∀ e ∈ es, e.2.Exact := by
  rw [Exact, Throughout, throughoutEntries_iff]
  exact and_iff_right nofun

/-- Values nest as deep as the deepest of them. -/
theorem nestingOfAll_le : nestingOfAll vs ≤ n ↔ ∀ v ∈ vs, v.nesting ≤ n := by
  induction vs with
  | nil => simp [nestingOfAll]
  | cons v vs ih => rw [nestingOfAll, Nat.max_le, ih, List.forall_mem_cons]

theorem nestingOfEntries_le : nestingOfEntries es ≤ n ↔ ∀ e ∈ es, e.2.nesting ≤ n := by
  induction es with
  | nil => simp [nestingOfEntries]
  | cons e es ih => rw [nestingOfEntries, Nat.max_le, ih, List.forall_mem_cons]

/-- An array nests one level deeper than its items. -/
theorem nesting_array_le : (array vs).nesting ≤ n + 1 ↔ ∀ v ∈ vs, v.nesting ≤ n := by
  rw [nesting, Nat.add_le_add_iff_right, nestingOfAll_le]

/-- An object nests one level deeper than its values. -/
theorem nesting_object_le : (object es).nesting ≤ n + 1 ↔ ∀ e ∈ es, e.2.nesting ≤ n := by
  rw [nesting, Nat.add_le_add_iff_right, nestingOfEntries_le]

/-- An array within so many levels takes one of them for itself. -/
theorem exists_level_of_array (h : (array vs).nesting ≤ levels) :
    ∃ n, levels = n + 1 ∧ ∀ v ∈ vs, v.nesting ≤ n := by
  cases levels with
  | zero => cases h
  | succ n => exact ⟨n, rfl, nesting_array_le.1 h⟩

/-- An object within so many levels takes one of them for itself. -/
theorem exists_level_of_object (h : (object es).nesting ≤ levels) :
    ∃ n, levels = n + 1 ∧ ∀ e ∈ es, e.2.nesting ≤ n := by
  cases levels with
  | zero => cases h
  | succ n => exact ⟨n, rfl, nesting_object_le.1 h⟩

/-! ## Repeated keys -/

/-- Inserts entries one after the other. -/
def insertAll (acc es : List (String × Value)) : List (String × Value) :=
  es.foldl (fun es e => insertEntry e.1 e.2 es) acc

mutual

/-- The value with one entry for each key, in every object. -/
def merged : Value → Value
  | array items => array (mergedItems items)
  | object es => ofEntries (mergedEntries es)
  | v => v

/-- Each value with one entry for each key. -/
def mergedItems : List Value → List Value
  | [] => []
  | v :: vs => v.merged :: mergedItems vs

/-- The entries with one entry for each key in every value; the entries themselves may still repeat
keys. -/
def mergedEntries : List (String × Value) → List (String × Value)
  | [] => []
  | (key, v) :: es => (key, v.merged) :: mergedEntries es

end

theorem mergedItems_eq (vs : List Value) : mergedItems vs = vs.map merged := by
  induction vs with
  | nil => rfl
  | cons v vs ih => rw [mergedItems, ih, List.map_cons]

theorem mergedEntries_eq (es : List (String × Value)) :
    mergedEntries es = es.map fun e => (e.1, e.2.merged) := by
  induction es with
  | nil => rfl
  | cons e es ih => rw [mergedEntries, ih, List.map_cons]

/-- A new key comes last. -/
theorem insertEntry_of_notMem (h : key ∉ es.map Prod.fst) :
    insertEntry key v es = es ++ [(key, v)] := by
  induction es with
  | nil => rfl
  | cons e es ih =>
    rw [List.map_cons, List.mem_cons, not_or] at h
    rw [insertEntry, if_neg (Ne.symm h.1), ih h.2, List.cons_append]

/-- Entries without repeated keys are kept in their order. -/
theorem insertAll_of_nodup (h : ((acc ++ es).map Prod.fst).Nodup) :
    insertAll acc es = acc ++ es := by
  induction es generalizing acc with
  | nil => exact (List.append_nil acc).symm
  | cons e es ih =>
    have hnot : e.1 ∉ acc.map Prod.fst := by
      rw [List.map_append, List.map_cons, List.nodup_append] at h
      exact fun hmem => h.2.2 _ hmem _ (List.mem_cons_self) rfl
    have hinsert : insertEntry e.1 e.2 acc = acc ++ [e] := insertEntry_of_notMem hnot
    have hrest : insertAll (acc ++ [e]) es = acc ++ [e] ++ es := ih (by simpa using h)
    rw [insertAll, List.foldl_cons, hinsert]
    exact hrest.trans (by simp)

mutual

/-- **A value that repeats no keys is its own merged form.** -/
theorem merged_of_distinct : ∀ {v : Value}, v.Distinct → v.merged = v
  | null, _ | bool _, _ | number _, _ | string _, _ => rfl
  | array vs, h => by
    rw [merged, mergedItems_of_distinct (distinct_array.1 h)]
  | object es, h => by
    obtain ⟨hkeys, hes⟩ := distinct_object.1 h
    have hall : insertAll [] es = es := insertAll_of_nodup hkeys
    rw [merged, mergedEntries_of_distinct hes]
    exact congrArg object hall

theorem mergedItems_of_distinct : ∀ {vs : List Value}, (∀ v ∈ vs, v.Distinct) → mergedItems vs = vs
  | [], _ => rfl
  | v :: vs, h => by
    obtain ⟨hv, hvs⟩ := List.forall_mem_cons.1 h
    rw [mergedItems, merged_of_distinct hv, mergedItems_of_distinct hvs]

theorem mergedEntries_of_distinct :
    ∀ {es : List (String × Value)}, (∀ e ∈ es, e.2.Distinct) → mergedEntries es = es
  | [], _ => rfl
  | (key, v) :: es, h => by
    obtain ⟨hv, hes⟩ := List.forall_mem_cons.1 h
    rw [mergedEntries, merged_of_distinct hv, mergedEntries_of_distinct hes]

end

/-- What an inserted entry is among the entries: itself or one of those that were there. -/
theorem mem_insertEntry {e : String × Value} (h : e ∈ insertEntry key v es) :
    e = (key, v) ∨ e ∈ es := by
  induction es with
  | nil => exact .inl (List.mem_singleton.1 h)
  | cons d es ih =>
    rw [insertEntry] at h
    split_ifs at h
    · exact (List.mem_cons.1 h).imp_right (List.mem_cons_of_mem d)
    · rcases List.mem_cons.1 h with rfl | h
      · exact .inr List.mem_cons_self
      · exact (ih h).imp_right (List.mem_cons_of_mem d)

/-- Inserting makes no new entries. -/
theorem mem_insertAll {e : String × Value} (h : e ∈ insertAll acc es) : e ∈ acc ∨ e ∈ es := by
  induction es generalizing acc with
  | nil => exact .inl h
  | cons d es ih =>
    rcases ih h with hacc | hes
    · rcases mem_insertEntry hacc with rfl | hacc
      · exact .inr List.mem_cons_self
      · exact .inl hacc
    · exact .inr (List.mem_cons_of_mem d hes)

/-- Inserting loses no key. -/
theorem keys_insertEntry (key : String) (v : Value) (es : List (String × Value)) (k : String) :
    k ∈ (insertEntry key v es).map Prod.fst ↔ k = key ∨ k ∈ es.map Prod.fst := by
  induction es with
  | nil => simp [insertEntry]
  | cons e es ih =>
    rw [insertEntry]
    split_ifs with hkey
    · simp [hkey]
    · simp only [List.map_cons, List.mem_cons, ih, or_left_comm]

/-- The keys are those of both lists. -/
theorem keys_insertAll (acc es : List (String × Value)) (k : String) :
    k ∈ (insertAll acc es).map Prod.fst ↔ k ∈ acc.map Prod.fst ∨ k ∈ es.map Prod.fst := by
  induction es generalizing acc with
  | nil => simp [insertAll]
  | cons e es ih =>
    have hrest := ih (insertEntry e.1 e.2 acc)
    rw [insertAll, List.foldl_cons, ← insertAll, hrest, keys_insertEntry, List.map_cons,
      List.mem_cons]
    tauto

mutual

/-- Merging does not nest deeper. -/
theorem nesting_merged_le : ∀ v : Value, v.merged.nesting ≤ v.nesting
  | null | bool _ | number _ | string _ => Nat.le_refl _
  | array vs => Nat.succ_le_succ (nestingOfAll_merged_le vs)
  | object es => by
    rw [merged, ofEntries, ← insertAll, nesting, nesting, Nat.add_le_add_iff_right,
      nestingOfEntries_le]
    intro e he
    rcases mem_insertAll he with hnil | he
    · cases hnil
    · exact nestingOfEntries_le.1 (nestingOfEntries_merged_le es) e he

theorem nestingOfAll_merged_le : ∀ vs : List Value, nestingOfAll (mergedItems vs) ≤ nestingOfAll vs
  | [] => Nat.le_refl _
  | v :: vs => max_le_max (nesting_merged_le v) (nestingOfAll_merged_le vs)

theorem nestingOfEntries_merged_le :
    ∀ es : List (String × Value), nestingOfEntries (mergedEntries es) ≤ nestingOfEntries es
  | [] => Nat.le_refl _
  | (_, v) :: es => max_le_max (nesting_merged_le v) (nestingOfEntries_merged_le es)

end

end Value

/-! ## The items and entries of a container -/

/-- Items end where no further one comes. -/
theorem readItems_none {item : List Char → Reading α} (h : nextItem (i == 0) s = .ok (false, r)) :
    readItems item (fuel + 1) i s = .ok ([], r) := by
  rw [readItems, h]

/-- An item is read before those that come after it. -/
theorem readItems_some {item : List Char → Reading α} {a : α} {as : List α} {u : List Char}
    (h : nextItem (i == 0) s = .ok (true, t)) (hitem : item t = .ok (a, u))
    (hmore : readItems item fuel (i + 1) u = .ok (as, r)) :
    readItems item (fuel + 1) i s = .ok (a :: as, r) := by
  rw [readItems, h]
  simp only [hitem, hmore]

/-- Where items could be read there is none, or a first item that was read. -/
theorem readItems_eq_ok {item : List Char → Reading α} {as : List α}
    (h : readItems item (fuel + 1) i s = .ok (as, r)) :
    nextItem (i == 0) s = .ok (false, r) ∧ as = [] ∨
      ∃ t a u bs, nextItem (i == 0) s = .ok (true, t) ∧ item t = .ok (a, u) ∧
        readItems item fuel (i + 1) u = .ok (bs, r) ∧ as = a :: bs := by
  rw [readItems] at h
  split at h
  · cases h
  · rename_i hnext
    cases h
    exact .inl ⟨hnext, rfl⟩
  · rename_i t hnext
    cases hitem : item t with
    | error f => rw [hitem] at h; cases h
    | ok result =>
      obtain ⟨a, u⟩ := result
      simp only [hitem] at h
      cases hmore : readItems item fuel (i + 1) u with
      | error f => rw [hmore] at h; cases h
      | ok result =>
        rw [hmore] at h
        cases h
        exact .inr ⟨t, a, u, _, hnext, hitem, hmore, rfl⟩

/-- Items are read if each of them is, with room for one more step than there are items. -/
theorem readItems_of_spells {item : List Char → Reading α} {as : List α}
    (h : List.Forall₂ (fun v a => ∀ s r, Spells v s r → item s = .ok (a, r)) vs as)
    (hs : SpellsItems (i == 0) vs s r) (hfuel : vs.length < fuel) :
    readItems item fuel i s = .ok (as, r) := by
  induction h generalizing i s fuel with
  | nil =>
    obtain ⟨fuel, rfl⟩ := Nat.exists_eq_add_one.2 (Nat.zero_lt_of_lt hfuel)
    exact readItems_none hs
  | cons hv hvs ih =>
    obtain ⟨fuel, rfl⟩ := Nat.exists_eq_add_one.2 (Nat.zero_lt_of_lt hfuel)
    obtain ⟨t, u, hnext, hspells, hrest⟩ := hs
    exact readItems_some hnext (hv t u hspells) (ih hrest (by simpa using hfuel))

/-- If every item that is read spells something, so do the items together. -/
theorem exists_spellsItems_of_readItems {item : List Char → Reading α} {f : Value → α}
    {p : Value → Prop} {as : List α}
    (h : ∀ s a r, item s = .ok (a, r) → ∃ v, Spells v s r ∧ a = f v ∧ p v)
    (hread : readItems item fuel i s = .ok (as, r)) :
    ∃ vs, SpellsItems (i == 0) vs s r ∧ as = vs.map f ∧ ∀ v ∈ vs, p v := by
  induction fuel generalizing i s as with
  | zero => cases hread
  | succ fuel ih =>
    obtain ⟨hnext, rfl⟩ | ⟨t, a, u, bs, hnext, hitem, hmore, rfl⟩ := readItems_eq_ok hread
    · exact ⟨[], hnext, rfl, nofun⟩
    · obtain ⟨v, hv, rfl, hp⟩ := h _ _ _ hitem
      obtain ⟨vs, hvs, rfl, hps⟩ := ih hmore
      exact ⟨v :: vs, ⟨t, u, hnext, hv, hvs⟩, rfl, List.forall_mem_cons.2 ⟨hp, hps⟩⟩

/-- Entries end where no further key comes. -/
theorem foldEntries_none {σ : Type} {entry : σ → String → List Char → Reading σ} {state : σ}
    (h : nextKey first s = .ok (none, r)) :
    foldEntries entry (fuel + 1) first state s = .ok (state, r) := by
  rw [foldEntries, h]

/-- An entry changes the state before those that come after it. -/
theorem foldEntries_some {σ : Type} {entry : σ → String → List Char → Reading σ} {state state' : σ}
    (h : nextKey first s = .ok (some key, t)) (hentry : entry state key t = .ok (state', r)) :
    foldEntries entry (fuel + 1) first state s = foldEntries entry fuel false state' r := by
  rw [foldEntries, h]
  simp only [hentry]

/-- Where entries could be read there is no key, or a first entry that was read. -/
theorem foldEntries_eq_ok {σ : Type} {entry : σ → String → List Char → Reading σ} {state state' : σ}
    (h : foldEntries entry (fuel + 1) first state s = .ok (state', r)) :
    nextKey first s = .ok (none, r) ∧ state' = state ∨
      ∃ key t next u, nextKey first s = .ok (some key, t) ∧ entry state key t = .ok (next, u) ∧
        foldEntries entry fuel false next u = .ok (state', r) := by
  rw [foldEntries] at h
  split at h
  · cases h
  · rename_i hnext
    cases h
    exact .inl ⟨hnext, rfl⟩
  · rename_i key t hnext
    cases hentry : entry state key t with
    | error f => rw [hentry] at h; cases h
    | ok result =>
      obtain ⟨next, u⟩ := result
      rw [hentry] at h
      exact .inr ⟨key, t, next, u, hnext, hentry, h⟩

/-! ## Reading a value -/

/-- What `readValue` makes of an entry: one more entry among those read so far. -/
def insertRead (value : List Char → Reading Value) (acc : List (String × Value)) (key : String)
    (s : List Char) : Reading (List (String × Value)) :=
  match readEntryValue value key s with
  | .error f => .error f
  | .ok (v, rest) => .ok (Value.insertEntry key v acc, rest)

/-- A text that starts with a bracket is read as an array, one level down. -/
theorem readValue_array (h : skipBlanks s = '[' :: t) :
    readValue (levels + 1) s = .ok (v, r) ↔ ∃ items, inside closeArray
      (readItems (readValue levels) (t.length + 1) 0 t) = .ok (items, r) ∧ v = .array items := by
  rw [readValue, h]
  simp only [if_true]
  cases inside closeArray (readItems (readValue levels) (t.length + 1) 0 t) with
  | error f => simp
  | ok result => simp [Prod.ext_iff, and_comm, eq_comm]

/-- A text that starts with a brace is read as an object, one level down. -/
theorem readValue_object (h : skipBlanks s = '\x7b' :: t) :
    readValue (levels + 1) s = .ok (v, r) ↔ ∃ es, inside closeObject
      (foldEntries (insertRead (readValue levels)) (t.length + 1) true [] t) = .ok (es, r) ∧
        v = .object es := by
  have hbrace : '\x7b' ≠ '[' := by decide
  rw [readValue, h]
  simp only [if_neg hbrace, if_true]
  constructor
  · intro hv
    split at hv
    · cases hv
    · rename_i es rest hread
      cases hv
      exact ⟨es, hread, rfl⟩
  · rintro ⟨es, hread, rfl⟩
    split
    · rename_i f hfail
      cases hfail.symm.trans hread
    · rename_i es' rest hread'
      cases hread'.symm.trans hread
      rfl

/-- Any other text is read as an atom. -/
theorem readValue_atom (h : skipBlanks s = c :: t) (harray : c ≠ '[') (hobject : c ≠ '\x7b') :
    readValue levels s = readAtom (c :: t) := by
  rw [readValue, h]
  simp only [if_neg harray, if_neg hobject]

/-- An atom that is spelled is read, unless it is a number that reading would change. -/
theorem readValue_of_spellsAtom (h : SpellsAtom v (skipBlanks s) r) (hv : ¬ v.IsInexact) :
    readValue levels s = .ok (v, r) := by
  have hread : readAtom (skipBlanks s) = .ok (v, r) := h.resolve_right fun h => hv h.1
  cases hs : skipBlanks s with
  | nil => rw [hs] at hread; cases hread
  | cons c t =>
    rw [hs] at hread
    obtain ⟨harray, hobject⟩ := head_of_skipAtom (skipAtom_of_readAtom hread)
    rw [readValue_atom hs harray hobject, hread]

/-- **Entries that are spelled are read one by one**, each into the object that there is so far. -/
theorem foldEntries_insertRead {value : List Char → Reading Value}
    (h : ∀ e ∈ es, ∀ s r, Spells e.2 s r → value s = .ok (e.2.merged, r))
    (hs : SpellsEntries first es s r) (hfuel : es.length < fuel) :
    foldEntries (insertRead value) fuel first acc s
      = .ok (Value.insertAll acc (Value.mergedEntries es), r) := by
  induction es generalizing first s acc fuel with
  | nil =>
    obtain ⟨fuel, rfl⟩ := Nat.exists_eq_add_one.2 (Nat.zero_lt_of_lt hfuel)
    exact foldEntries_none hs
  | cons e es ih =>
    obtain ⟨key, v⟩ := e
    obtain ⟨fuel, rfl⟩ := Nat.exists_eq_add_one.2 (Nat.zero_lt_of_lt hfuel)
    obtain ⟨k, t, u, hnext, hcolon, hv, hes⟩ := hs
    obtain ⟨hvalue, hvalues⟩ := List.forall_mem_cons.1 h
    have hentry : insertRead value acc key k = .ok (Value.insertEntry key v.merged acc, u) := by
      rw [insertRead, readEntryValue_of_readColon hcolon (hvalue t u hv)]
    rw [foldEntries_some hnext hentry, ih hvalues hes (by simpa using hfuel)]
    rfl

/-- **What a text spells is read from it, merged.** -/
theorem readValue_of_spells (h : Spells v s r) (hexact : v.Exact) (hnesting : v.nesting ≤ levels) :
    readValue levels s = .ok (v.merged, r) := by
  induction levels generalizing v s r with
  | zero =>
    cases v with
    | array | object => cases hnesting
    | null | bool | number | string => exact readValue_of_spellsAtom h hexact
  | succ levels ih =>
    cases v with
    | null | bool | number | string => exact readValue_of_spellsAtom h hexact
    | array vs =>
      obtain ⟨t, hs, hvs⟩ := h
      have hexact := Value.exact_array.1 hexact
      have hnesting := Value.nesting_array_le.1 hnesting
      have hitems : List.Forall₂ (fun v a => ∀ s r, Spells v s r → readValue levels s = .ok (a, r))
          vs (vs.map Value.merged) := by
        rw [List.forall₂_map_right_iff, List.forall₂_same]
        exact fun v hv s r h => ih h (hexact v hv) (hnesting v hv)
      have hle := length_le_of_spellsItems hvs
      have hread : readItems (readValue levels) (t.length + 1) 0 t
          = .ok (vs.map Value.merged, ']' :: r) := readItems_of_spells hitems hvs (by omega)
      refine (readValue_array hs).2 ⟨vs.map Value.merged, ?_, ?_⟩
      · rw [hread, inside_closeArray]
      · rw [Value.merged, Value.mergedItems_eq]
    | object es =>
      obtain ⟨t, hs, hes⟩ := h
      -- a value that a later entry replaces is read too, so it has to be exact and flat enough
      have hexact := Value.exact_object.1 hexact
      have hnesting := Value.nesting_object_le.1 hnesting
      have hvalue : ∀ e ∈ es, ∀ s r, Spells e.2 s r → readValue levels s = .ok (e.2.merged, r) :=
        fun e he s r h => ih h (hexact e he) (hnesting e he)
      have hle := length_le_of_spellsEntries hes
      refine (readValue_object hs).2 ⟨Value.insertAll [] (Value.mergedEntries es), ?_, rfl⟩
      rw [foldEntries_insertRead hvalue hes (by omega), inside_closeObject]

/-! ## What was read -/

/-- Entries that are read are spelled by the text, with the repeated ones among them. -/
theorem exists_spellsEntries_of_foldEntries {value : List Char → Reading Value}
    {es' : List (String × Value)}
    (h : ∀ s w r, value s = .ok (w, r) → ∃ v, Spells v s r ∧ w = v.merged ∧ v.nesting ≤ levels)
    (hread : foldEntries (insertRead value) fuel first acc s = .ok (es', r)) :
    ∃ es, SpellsEntries first es s r ∧ es' = Value.insertAll acc (Value.mergedEntries es) ∧
      ∀ e ∈ es, e.2.nesting ≤ levels := by
  induction fuel generalizing first s acc with
  | zero => cases hread
  | succ fuel ih =>
    obtain ⟨hnext, rfl⟩ | ⟨key, k, next, u, hnext, hentry, hmore⟩ := foldEntries_eq_ok hread
    · exact ⟨[], hnext, rfl, nofun⟩
    · rw [insertRead] at hentry
      split at hentry
      · cases hentry
      · rename_i hvalue
        cases hentry
        obtain ⟨t, hcolon, hread⟩ := readEntryValue_eq_ok hvalue
        obtain ⟨v, hv, rfl, hnesting⟩ := h _ _ _ hread
        obtain ⟨es, hes, rfl, hes'⟩ := ih hmore
        exact ⟨(key, v) :: es, ⟨k, t, u, hnext, hcolon, hv, hes⟩, rfl,
          List.forall_mem_cons.2 ⟨hnesting, hes'⟩⟩

/-- The text at the bracket behind the last item. -/
theorem exists_bracket_of_spellsItems (h : SpellsItems first vs s r) : ∃ t, r = ']' :: t := by
  induction vs generalizing first s with
  | nil =>
    obtain ⟨t, -, hr⟩ := nextItem_false h
    exact ⟨t, hr⟩
  | cons v vs ih =>
    obtain ⟨t, u, -, -, hvs⟩ := h
    exact ih hvs

/-- The text at the brace behind the last entry. -/
theorem exists_brace_of_spellsEntries (h : SpellsEntries first es s r) : ∃ t, r = '\x7d' :: t := by
  induction es generalizing first s with
  | nil =>
    obtain ⟨t, -, hr⟩ := nextKey_none h
    exact ⟨t, hr⟩
  | cons e es ih =>
    obtain ⟨k, t, u, -, -, -, hes⟩ := h
    exact ih hes

/-- An atom that is read is spelled by the text. -/
theorem spells_of_readAtom (hs : skipBlanks s = c :: t) (h : readAtom (c :: t) = .ok (v, r)) :
    Spells v s r ∧ v.merged = v ∧ v.nesting = 0 := by
  have hspells : SpellsAtom v (skipBlanks s) r := .inl (hs ▸ h)
  cases v with
  | null | bool | number | string => exact ⟨hspells, rfl, rfl⟩
  | array | object => cases atom_of_readAtom h

/-- **A text that is read spells a value, which is read merged.** -/
theorem exists_spells_of_readValue {w : Value} (h : readValue levels s = .ok (w, r)) :
    ∃ v, Spells v s r ∧ w = v.merged ∧ v.nesting ≤ levels := by
  induction levels generalizing s w r with
  | zero =>
    rw [readValue] at h
    split at h
    · cases h
    · rename_i c t hs
      split_ifs at h
      obtain ⟨hspells, hmerged, hnesting⟩ := spells_of_readAtom hs h
      exact ⟨w, hspells, hmerged.symm, hnesting.le⟩
  | succ levels ih =>
    cases hs : skipBlanks s with
    | nil => rw [readValue, hs] at h; cases h
    | cons c t =>
      by_cases harray : c = '['
      · subst harray
        obtain ⟨items, hinside, rfl⟩ := (readValue_array hs).1 h
        obtain ⟨u, hitems, -, hrest⟩ := inside_eq_ok hinside
        obtain ⟨vs, hvs, rfl, hnesting⟩ := exists_spellsItems_of_readItems (fun s w r => ih) hitems
        obtain ⟨u, rfl⟩ := exists_bracket_of_spellsItems hvs
        rw [closeArray_bracket] at hrest
        subst hrest
        refine ⟨.array vs, ⟨t, hs, hvs⟩, ?_, Value.nesting_array_le.2 hnesting⟩
        rw [Value.merged, Value.mergedItems_eq]
      · by_cases hobject : c = '\x7b'
        · subst hobject
          obtain ⟨es', hinside, rfl⟩ := (readValue_object hs).1 h
          obtain ⟨u, hentries, -, hrest⟩ := inside_eq_ok hinside
          obtain ⟨es, hes, rfl, hnesting⟩ :=
            exists_spellsEntries_of_foldEntries (fun s w r => ih) hentries
          obtain ⟨u, rfl⟩ := exists_brace_of_spellsEntries hes
          rw [closeObject_brace] at hrest
          subst hrest
          exact ⟨.object es, ⟨t, hs, hes⟩, rfl, Value.nesting_object_le.2 hnesting⟩
        · rw [readValue_atom hs harray hobject] at h
          obtain ⟨hspells, hmerged, hnesting⟩ := spells_of_readAtom hs h
          exact ⟨w, hspells, hmerged.symm, by omega⟩

end Exemplar.Json
