import Exemplar.Proofs.Sample.Override
import Mathlib.Data.List.Nodup

/-!
# Proofs/Sample/TextMap — overrides given as a table of texts

    [("String", "a"), ("Int", "7"), ("String", "b")]   ▸   {"String": "b", "Int": "7"}

A table of texts made from a list of pairs has the first place and the last value of every key.
What it gives as overrides is what the list gives, but for two things: a value that is replaced is
never looked at, and of two keys that differ in blanks only the later one in the table need not be
the later one in the list.  Where neither can happen the two agree (`ofMap_agrees`).
-/

namespace Exemplar

open Text

/-! ## Inserting a pair -/

namespace TextMap

variable {key value : String} {es ps : List (String × String)}

/-- **All that inserting can do.** A new key is put at the end, and a key that is there gets the
value where it stands. -/
theorem insertEntry_cases (key value : String) (es : List (String × String)) :
    key ∉ es.map Prod.fst ∧ insertEntry key value es = es ++ [(key, value)] ∨
      ∃ l old r, es = l ++ (key, old) :: r ∧ insertEntry key value es = l ++ (key, value) :: r := by
  induction es with
  | nil => exact .inl ⟨List.not_mem_nil, rfl⟩
  | cons e es ih =>
    by_cases he : e.1 = key
    · refine .inr ⟨[], e.2, es, ?_, ?_⟩
      · rw [← he, List.nil_append]
      · rw [insertEntry, if_pos he, List.nil_append]
    obtain ⟨hnew, heq⟩ | ⟨l, old, r, rfl, heq⟩ := ih
    · refine .inl ⟨?_, ?_⟩
      · rw [List.map_cons, List.mem_cons, not_or]
        exact ⟨Ne.symm he, hnew⟩
      · rw [insertEntry, if_neg he, heq, List.cons_append]
    · refine .inr ⟨e :: l, old, r, rfl, ?_⟩
      rw [insertEntry, if_neg he, heq, List.cons_append]

/-- A new key comes last. -/
theorem insertEntry_of_notMem (h : key ∉ es.map Prod.fst) (value : String) :
    insertEntry key value es = es ++ [(key, value)] := by
  obtain ⟨-, heq⟩ | ⟨l, old, r, rfl, -⟩ := insertEntry_cases key value es
  · exact heq
  · exact absurd (List.mem_map_of_mem List.mem_append_cons_self) h

theorem mem_insertEntry {e : String × String} (h : e ∈ insertEntry key value es) :
    e ∈ es ∨ e = (key, value) := by
  obtain ⟨-, heq⟩ | ⟨l, old, r, rfl, heq⟩ := insertEntry_cases key value es
  · rw [heq] at h
    simpa using h
  · rw [heq] at h
    simp only [List.mem_append, List.mem_cons] at h ⊢
    tauto

/-- No key comes twice in a table. -/
theorem nodup_insertEntry (h : (es.map Prod.fst).Nodup) :
    ((insertEntry key value es).map Prod.fst).Nodup := by
  obtain ⟨hnew, heq⟩ | ⟨l, old, r, rfl, heq⟩ := insertEntry_cases key value es
  · rw [heq, List.map_append, List.nodup_append]
    refine ⟨h, List.nodup_singleton key, ?_⟩
    rintro k hk _ hkey rfl
    obtain rfl : k = key := List.mem_singleton.1 hkey
    exact hnew hk
  · rw [heq]
    simpa using h

/-- A table is made pair by pair. -/
theorem ofPairs_concat (ps : List (String × String)) (p : String × String) :
    (ofPairs (ps ++ [p])).entries = insertEntry p.1 p.2 (ofPairs ps).entries := by
  rw [ofPairs, List.foldl_concat]
  rfl

/-- A table has no key twice. -/
theorem nodup_ofPairs (ps : List (String × String)) :
    ((ofPairs ps).entries.map Prod.fst).Nodup := by
  induction ps using List.reverseRecOn with
  | nil => exact List.nodup_nil
  | append_singleton ps p ih =>
    rw [ofPairs_concat]
    exact nodup_insertEntry ih

/-- A table has no pairs but those it is made from. -/
theorem subset_ofPairs (ps : List (String × String)) : (ofPairs ps).entries ⊆ ps := by
  induction ps using List.reverseRecOn with
  | nil => exact List.Subset.refl []
  | append_singleton ps p ih =>
    intro e he
    rw [ofPairs_concat] at he
    obtain he | rfl := mem_insertEntry he
    · exact List.mem_append_left _ (ih he)
    · exact List.mem_append_right _ (List.mem_singleton_self _)

/-- Pairs with distinct keys are a table as they stand. -/
theorem ofPairs_of_nodup (h : (ps.map Prod.fst).Nodup) : (ofPairs ps).entries = ps := by
  induction ps using List.reverseRecOn with
  | nil => rfl
  | append_singleton ps p ih =>
    rw [List.map_append, List.nodup_append] at h
    obtain ⟨hps, -, hdisjoint⟩ := h
    have hnew : p.1 ∉ ps.map Prod.fst := fun hmem =>
      hdisjoint p.1 hmem p.1 (List.mem_singleton_self p.1) rfl
    rw [ofPairs_concat, ih hps, insertEntry_of_notMem hnew]

end TextMap

/-! ## The last value of a kind -/

namespace Overrides

open TextMap

variable {kind : OverrideKind} {key value : String} {es ps qs : List (String × String)}

/-- The last value is looked for in the later list first. -/
theorem lastValue?_append (ps qs : List (String × String)) :
    lastValue? kind (ps ++ qs) = (lastValue? kind qs).or (lastValue? kind ps) := by
  rw [lastValue?, List.reverse_append, List.find?_append, Option.map_or, lastValue?, lastValue?]

theorem lastValue?_eq_none (h : ∀ p ∈ ps, trimmed p.1 ≠ kind.typeName) :
    lastValue? kind ps = none := by
  rw [lastValue?, Option.map_eq_none_iff, List.find?_eq_none]
  intro p hp
  simpa using h p (List.mem_reverse.1 hp)

/-- No two keys of the pairs differ in blanks only. -/
def Unpadded (ps : List (String × String)) : Prop :=
  ∀ p ∈ ps, ∀ q ∈ ps, trimmed p.1 = trimmed q.1 → p.1 = q.1

instance (ps : List (String × String)) : Decidable (Unpadded ps) :=
  inferInstanceAs (Decidable (∀ p ∈ ps, ∀ q ∈ ps, trimmed p.1 = trimmed q.1 → p.1 = q.1))

theorem Unpadded.subset (h : Unpadded ps) (hsubset : qs ⊆ ps) : Unpadded qs :=
  fun p hp q hq => h p (hsubset hp) q (hsubset hq)

/-- **The last value of each kind is the same** whether a value replaces the one its key has, or
comes last: no other key is for that kind. -/
theorem lastValue?_insertEntry (hnodup : (es.map Prod.fst).Nodup)
    (h : Unpadded (es ++ [(key, value)])) :
    lastValue? kind (insertEntry key value es) = lastValue? kind (es ++ [(key, value)]) := by
  obtain ⟨-, heq⟩ | ⟨l, old, r, rfl, heq⟩ := insertEntry_cases key value es
  · rw [heq]
  by_cases hkind : trimmed key = kind.typeName
  · have hr : lastValue? kind r = none := by
      refine lastValue?_eq_none fun p hp hpkind => ?_
      have hkey : p.1 = key :=
        h p (by simp [hp]) (key, value) (by simp) (hpkind.trans hkind.symm)
      rw [List.map_append, List.map_cons, List.nodup_append] at hnodup
      obtain ⟨-, hcons, -⟩ := hnodup
      have hmem : p.1 ∈ r.map Prod.fst := List.mem_map_of_mem hp
      exact (List.nodup_cons.1 hcons).1 (hkey ▸ hmem)
    rw [heq, List.append_cons, lastValue?_append, hr, Option.none_or,
      lastValue?_concat_of_eq kind hkind, lastValue?_concat_of_eq kind hkind]
  · have hskip : ∀ v, lastValue? kind (l ++ (key, v) :: r)
        = (lastValue? kind r).or (lastValue? kind l) := by
      intro v
      rw [List.append_cons, lastValue?_append, lastValue?_concat_of_ne kind hkind]
    rw [heq, lastValue?_concat_of_ne kind hkind, hskip, hskip]

/-- **A table has the last value of each kind that the list has**, if no two keys differ in blanks
only. -/
theorem lastValue?_ofPairs (kind : OverrideKind) (h : Unpadded ps) :
    lastValue? kind (TextMap.ofPairs ps).entries = lastValue? kind ps := by
  induction ps using List.reverseRecOn with
  | nil => rfl
  | append_singleton ps p ih =>
    have hps : ps ⊆ ps ++ [p] := List.subset_append_left ps [p]
    have hentries : (TextMap.ofPairs ps).entries ++ [p] ⊆ ps ++ [p] :=
      List.append_subset.2
        ⟨List.Subset.trans (subset_ofPairs ps) hps, List.subset_append_right ps [p]⟩
    rw [TextMap.ofPairs_concat, lastValue?_insertEntry (nodup_ofPairs ps) (h.subset hentries),
      lastValue?_append, lastValue?_append, ih (h.subset hps)]

/-- **A list of pairs and the table of texts made from it give the same overrides**, and the same
errors, where no key comes twice in the list.  Where keys do, but no two of them differ in blanks
only, a list that is taken still gives what its table gives. -/
theorem ofMap_agrees (ps : List (String × String)) :
    ((ps.map Prod.fst).Nodup → ofMap (TextMap.ofPairs ps) = ofPairs ps) ∧
      (Unpadded ps → ∀ o, ofPairs ps = .ok o → ofMap (TextMap.ofPairs ps) = .ok o) := by
  constructor
  · intro h
    rw [ofMap, ofPairs_of_nodup h]
  · intro h o ho
    obtain ⟨hfits, rfl⟩ := ofPairs_eq_ok_iff.1 ho
    refine ofPairs_eq_ok_iff.2 ⟨fun p hp => hfits p (subset_ofPairs ps hp), ?_⟩
    simp only [table, lastValue?_ofPairs _ h]

/-- A list that is refused although its keys are distinct, and one with a repeated key. -/
theorem ofMap_agrees_of_repeated :
    let refused := [("Int", "x"), ("Date", "now")]
    let repeated := [("String", "a"), (" Int ", "7"), ("String", "b")]
    (refused.map Prod.fst).Nodup ∧
      ofMap (TextMap.ofPairs refused) = .error (.invalidOverride .int "x") ∧
      Unpadded repeated ∧
      ofMap (TextMap.ofPairs repeated) = .ok { string := some "b", int := some 7 } := by
  intro refused repeated
  have hnodup : (refused.map Prod.fst).Nodup := by decide
  have hunpadded : Unpadded repeated := by decide +kernel
  have hrefused : ofPairs refused = .error (.invalidOverride .int "x") := by decide +kernel
  have hrepeated : ofPairs repeated = .ok { string := some "b", int := some 7 } := by decide +kernel
  exact ⟨hnodup, ((ofMap_agrees refused).1 hnodup).trans hrefused, hunpadded,
    (ofMap_agrees repeated).2 hunpadded _ hrepeated⟩

/-- The first key keeps its place before one that differs from it in blanks, and with its last value
no longer comes last. -/
example :
    let ps := [("String", "a"), (" String", "b"), ("String", "c")]
    ofPairs ps = .ok { string := some "c" } ∧
      ofMap (TextMap.ofPairs ps) = .ok { string := some "b" } := by
  decide +kernel

end Overrides

end Exemplar
