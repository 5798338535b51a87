import Exemplar.Proofs.Json.Decode
import Exemplar.Proofs.Json.Reading
import Exemplar.Proofs.Json.Spacing

/-!
# Proofs/Json/Agrees — reading a text agrees with decoding what it spells

    v.compactChars ──read──▸ a   ⟸   v ──decode──▸ a

A format takes data from a value or straight from a text.  It `Agrees` if what it decodes from a
value is what it reads from any spelling of the value, and if what it reads from a text is no other
than what it decodes from the value that the text is read to, where it decodes that at all.  The two
halves are not each other's converse: a text may be read whose value is not decoded.

Agreement goes through every way to build a format: `agrees_atom`, `Agrees.map`, `Agrees.optional`,
`Agrees.list` and `agrees_choice`.
-/

namespace Exemplar.Json

variable {α β : Type} {c : Char} {s t u r rest : List Char} {v w x : Value} {vs : List Value}
  {levels fuel i : ℕ} {name : String}

/-- Reading with the format agrees with decoding by it. -/
structure Format.Agrees (F : Format α) : Prop where
  /-- What is decoded from a value is read from its spellings. -/
  read_of_decode : ∀ {levels v s r a}, Spells v s r → v.nesting ≤ levels → F.decode v = .ok a →
    F.read levels s = .ok (a, r)
  /-- What is read from a spelling ends where the value does, and nothing else is decoded from the
  value that the text is read to. -/
  eq_of_read : ∀ {levels v s r r' a}, Spells v s r → v.nesting ≤ levels →
    F.read levels s = .ok (a, r') → r' = r ∧ ∀ b, F.decode v.merged = .ok b → b = a

/-! ## Atoms -/

/-- An atom has no entries to merge. -/
theorem SpellsAtom.merged (h : SpellsAtom v s r) : v.merged = v := by
  obtain hread | ⟨⟨n, rfl, -⟩, -⟩ := h
  · cases atom_of_readAtom hread <;> rfl
  · rfl

/-- An atom that is read back as it is has its own spelling. -/
theorem exists_atom_of_spells (h : SpellsAtom v (skipBlanks s) r) (hv : ¬ v.IsInexact) :
    ∃ c t, skipBlanks s = c :: t ∧ readAtom (c :: t) = .ok (v, r) ∧ Atom v (c :: t) r := by
  have hread : readAtom (skipBlanks s) = .ok (v, r) := h.resolve_right fun h => hv h.1
  cases hs : skipBlanks s with
  | nil => rw [hs] at hread; cases hread
  | cons c t =>
    rw [hs] at hread
    exact ⟨c, t, rfl, hread, atom_of_readAtom hread⟩

/-- A null is told from other values by its first character, before it is read. -/
theorem skipBlanks_of_spells_null (h : Spells .null s r) :
    skipBlanks s = 'n' :: ("ull".toList ++ r) := by
  obtain ⟨c, t, hs, -, hatom⟩ := exists_atom_of_spells h nofun
  cases hatom
  exact hs

/-- Merging makes no nulls. -/
theorem Value.merged_eq_null : v.merged = .null ↔ v = .null := by
  cases v <;> simp [merged, ofEntries]

/-- A text whose value starts with a letter is the spelling of an atom. -/
theorem skipAtom_of_spells (h : Spells v s r) (hs : skipBlanks s = c :: t)
    (hskip : skipAtom (c :: t) = .ok u) : u = r ∧ SpellsAtom v (c :: t) r := by
  obtain ⟨harray, hobject⟩ := head_of_skipAtom hskip
  have hatom := spellsAtom_of_spells h hs harray hobject
  exact ⟨Except.ok.inj (hskip.symm.trans hatom.skipAtom), hatom⟩

namespace Format

/-- An atom is read if its first character is one that it starts with and the value is accepted. -/
theorem atom_read_eq_ok {expected : String} {starts : Char → Bool} {a : α}
    {accept : Value → Except Fault α} :
    (atom expected starts accept).read levels s = .ok (a, r) ↔ ∃ c t v, skipBlanks s = c :: t ∧
      starts c = true ∧ readAtom (c :: t) = .ok (v, r) ∧ accept v = .ok a := by
  simp only [atom]
  cases hs : skipBlanks s with
  | nil => simp
  | cons c t =>
    simp only [List.cons.injEq, and_assoc, exists_and_left, exists_eq_left']
    by_cases hc : starts c = true
    · cases hatom : readAtom (c :: t) with
      | error f => simp [hc]
      | ok result =>
        obtain ⟨v, u⟩ := result
        cases haccept : accept v <;> simp [hc, haccept, and_comm]
    · simp [hc]

/-- A format of atoms agrees if what it accepts is spelled by an atom that starts as it says. -/
theorem agrees_atom {expected : String} {starts : Char → Bool} {accept : Value → Except Fault α}
    (h : ∀ {v a s r}, accept v = .ok a → Spells v s r →
      ∃ c t, skipBlanks s = c :: t ∧ starts c = true ∧ readAtom (c :: t) = .ok (v, r)) :
    (atom expected starts accept).Agrees where
  read_of_decode hv _ hdecode := by
    have haccept := atom_decode_eq_ok.1 hdecode
    obtain ⟨c, t, hs, hstarts, hread⟩ := h haccept hv
    exact atom_read_eq_ok.2 ⟨c, t, _, hs, hstarts, hread, haccept⟩
  eq_of_read hv _ hread := by
    obtain ⟨c, t, w, hs, -, hatom, haccept⟩ := atom_read_eq_ok.1 hread
    obtain ⟨rfl, hspells⟩ := skipAtom_of_spells hv hs (skipAtom_of_readAtom hatom)
    refine ⟨rfl, fun b hb => ?_⟩
    rw [hspells.merged, atom_decode_eq_ok] at hb
    obtain ⟨c', t', hs', -, hread'⟩ := h hb hv
    rw [← hs', hs, hatom] at hread'
    cases hread'
    exact Except.ok.inj (hb.symm.trans haccept)

theorem agrees_text : text.Agrees := by
  refine agrees_atom fun {v a s r} haccept hv => ?_
  split at haccept
  · obtain ⟨c, t, hs, hread, hatom⟩ := exists_atom_of_spells hv nofun
    cases hatom
    exact ⟨'"', t, hs, rfl, hread⟩
  · cases haccept

theorem agrees_flag : flag.Agrees := by
  refine agrees_atom fun {v a s r} haccept hv => ?_
  split at haccept
  · obtain ⟨c, t, hs, hread, hatom⟩ := exists_atom_of_spells hv nofun
    refine ⟨c, t, hs, ?_, hread⟩
    cases hatom <;> rfl
  · cases haccept

theorem agrees_word32 : word32.Agrees := by
  refine agrees_atom fun {v a s r} haccept hv => ?_
  split at haccept
  · rename_i n
    split_ifs at haccept with hn
    have hexact : ¬ (Value.number (.integer n)).IsInexact := by
      rintro ⟨_, ⟨rfl⟩, hword⟩
      exact hword ⟨by omega, by omega⟩
    obtain ⟨c, t, hs, hread, hatom⟩ := exists_atom_of_spells hv hexact
    refine ⟨c, t, hs, ?_, hread⟩
    cases hatom with
    | number hc => simpa using hc
  · cases haccept

theorem agrees_unit : unit.Agrees := by
  refine agrees_atom fun {v a s r} haccept hv => ?_
  split at haccept
  · obtain ⟨c, t, hs, hread, hatom⟩ := exists_atom_of_spells hv nofun
    cases hatom
    exact ⟨'n', _, hs, rfl, hread⟩
  · cases haccept

/-- What is never decoded is never read. -/
theorem agrees_never : (never : Format α).Agrees where
  read_of_decode _ _ h := by cases h
  eq_of_read _ _ h := by cases h

/-! ## Data made from other data -/

/-- Data made from other data is read where the other is. -/
theorem map_read_eq_ok {f : α → β} {F : Format α} {b : β} :
    (F.map f).read levels s = .ok (b, r) ↔ ∃ a, F.read levels s = .ok (a, r) ∧ f a = b := by
  simp only [map]
  cases F.read levels s with
  | error e => simp
  | ok result => simp [Prod.ext_iff, and_comm, eq_comm]

/-- Agreement is kept by what is made of the data. -/
theorem Agrees.map {F : Format α} (h : F.Agrees) (f : α → β) : (F.map f).Agrees where
  read_of_decode hv hnesting hdecode := by
    obtain ⟨a, ha, rfl⟩ := map_decode_eq_ok.1 hdecode
    exact map_read_eq_ok.2 ⟨a, h.read_of_decode hv hnesting ha, rfl⟩
  eq_of_read hv hnesting hread := by
    obtain ⟨a, ha, rfl⟩ := map_read_eq_ok.1 hread
    obtain ⟨hr, heq⟩ := h.eq_of_read hv hnesting ha
    refine ⟨hr, fun b hb => ?_⟩
    obtain ⟨a', ha', rfl⟩ := map_decode_eq_ok.1 hb
    rw [heq a' ha']

/-! ## Data that may be absent -/

/-- Nothing that the format reads starts as null does. -/
def RejectsNull (F : Format α) : Prop :=
  ∀ {levels s t a r}, skipBlanks s = 'n' :: t → F.read levels s ≠ .ok (a, r)

/-- An atom that does not start as a null does is no null. -/
theorem rejectsNull_atom {expected : String} {starts : Char → Bool}
    {accept : Value → Except Fault α} (h : starts 'n' = false) :
    (atom expected starts accept).RejectsNull := by
  intro levels s t a r hs hread
  simp only [atom, hs, h, Bool.false_eq_true, if_false] at hread
  cases hread

/-- What starts as a null does has to be one, and is nothing. -/
theorem optional_read_null {F : Format α} {o : Option α} (h : skipBlanks s = 'n' :: t) :
    F.optional.read levels s = .ok (o, r) ↔ expectWord "ull".toList t = .ok r ∧ o = none := by
  simp only [optional, h]
  cases expectWord "ull".toList t <;> simp [and_comm, eq_comm]

/-- Whatever else there is, is read as the data itself. -/
theorem optional_read {F : Format α} (h : ∀ t, skipBlanks s ≠ 'n' :: t) :
    F.optional.read levels s = (F.map some).read levels s := by
  simp only [optional]

/-- **Optional data is read as it is decoded**, if a null is no such data. -/
theorem Agrees.optional {F : Format α} (h : F.Agrees) (hnull : F.RejectsNull) :
    F.optional.Agrees where
  read_of_decode {levels v s r o} hv hnesting hdecode := by
    by_cases hv' : v = .null
    · subst hv'
      cases hdecode
      have hs := skipBlanks_of_spells_null hv
      exact (optional_read_null hs).2 ⟨expectWord_append _ r, rfl⟩
    · rw [optional_decode hv'] at hdecode
      have hread := (h.map some).read_of_decode hv hnesting hdecode
      rw [optional_read, hread]
      intro t hs
      obtain ⟨a, ha, -⟩ := map_read_eq_ok.1 hread
      exact hnull hs ha
  eq_of_read {levels v s r r' o} hv hnesting hread := by
    by_cases hs : ∃ t, skipBlanks s = 'n' :: t
    · obtain ⟨t, hs⟩ := hs
      obtain ⟨hword, rfl⟩ := (optional_read_null hs).1 hread
      -- the word `null` also spells numbers without a numeral, which are no data either
      obtain ⟨rfl, hatom⟩ := skipAtom_of_spells hv hs (skipAtom_null.trans hword)
      refine ⟨rfl, fun b hb => ?_⟩
      rw [hatom.merged] at hb
      by_cases hv' : v = .null
      · subst hv'
        cases hb
        rfl
      · rw [optional_decode hv'] at hb
        obtain ⟨a, ha, -⟩ := map_read_eq_ok.1 ((h.map some).read_of_decode hv hnesting hb)
        exact absurd ha (hnull hs)
    · rw [optional_read (by simpa using hs)] at hread
      obtain ⟨hr, heq⟩ := (h.map some).eq_of_read hv hnesting hread
      refine ⟨hr, fun b hb => ?_⟩
      have hv' : v.merged ≠ .null := by
        intro hv'
        rw [Value.merged_eq_null.1 hv'] at hv
        exact hs ⟨_, skipBlanks_of_spells_null hv⟩
      rw [optional_decode hv'] at hb
      exact heq b hb

/-! ## Arrays -/

/-- A container is read one level further down and closed with its bracket. -/
theorem contained_eq_ok {close : List Char → Closing} {content : ℕ → List Char → Reading α} {a : α}
    (h : contained close levels (c :: s) content = .ok (a, r)) :
    ∃ n, levels = n + 1 ∧ ∃ t, content n s = .ok (a, t) ∧ (close t).failure = none ∧
      (close t).rest = r := by
  cases levels with
  | zero => cases h
  | succ n => exact ⟨n, rfl, inside_eq_ok h⟩

/-- Items that spell values end where these do, and are read one by one. -/
theorem of_readItems {item : List Char → Reading α} {P : Value → α → Prop} {as : List α}
    {r' : List Char}
    (h : ∀ v ∈ vs, ∀ {s r a r'}, Spells v s r → item s = .ok (a, r') → r' = r ∧ P v a)
    (hs : SpellsItems (i == 0) vs s r) (hread : readItems item fuel i s = .ok (as, r')) :
    r' = r ∧ List.Forall₂ P vs as := by
  induction vs generalizing i s fuel as with
  | nil =>
    have hclose : nextItem (i == 0) s = .ok (false, r) := hs
    cases fuel with
    | zero => cases hread
    | succ fuel =>
      obtain ⟨hnext, rfl⟩ | ⟨t, a, u, bs, hnext, -⟩ := readItems_eq_ok hread
      · cases hclose.symm.trans hnext
        exact ⟨rfl, .nil⟩
      · cases hclose.symm.trans hnext
  | cons v vs ih =>
    obtain ⟨t, u, hitem, hv, hvs⟩ := hs
    obtain ⟨hfirst, hothers⟩ := List.forall_mem_cons.1 h
    cases fuel with
    | zero => cases hread
    | succ fuel =>
      obtain ⟨hnext, rfl⟩ | ⟨t', a, u', bs, hnext, ha, hmore, rfl⟩ := readItems_eq_ok hread
      · cases hitem.symm.trans hnext
      · cases hitem.symm.trans hnext
        obtain ⟨rfl, hP⟩ := hfirst hv ha
        have hvs' : SpellsItems (i + 1 == 0) vs u' r := hvs
        obtain ⟨hr, hall⟩ := ih hothers hvs' hmore
        exact ⟨hr, .cons hP hall⟩

/-- If each value stands for one datum only, so does a list of values for a list of data. -/
theorem eq_of_forall₂ {P : Value → α → Prop} {as bs : List α}
    (has : List.Forall₂ (fun v a => ∀ b, P v b → b = a) vs as) (hbs : List.Forall₂ P vs bs) :
    bs = as := by
  induction has generalizing bs with
  | nil =>
    cases hbs
    rfl
  | cons ha _ ih =>
    cases hbs with
    | cons hb hbs => rw [ha _ hb, ih hbs]

/-- An array is read item by item between its brackets. -/
theorem list_read {F : Format α} (hs : skipBlanks s = '[' :: t) :
    F.list.read levels s = contained closeArray levels ('[' :: t) fun levels s =>
      readItems (F.read levels) (s.length + 1) 0 s := by
  simp only [list, hs, if_true]

/-- A list that was read starts with a bracket. -/
theorem exists_bracket_of_list_read {F : Format α} {as : List α}
    (h : F.list.read levels s = .ok (as, r)) : ∃ t, skipBlanks s = '[' :: t := by
  simp only [list] at h
  cases hs : skipBlanks s with
  | nil => rw [hs] at h; cases h
  | cons c t =>
    simp only [hs] at h
    split_ifs at h with hc
    exact ⟨t, by rw [hc]⟩

/-- **A list agrees if its items do.** -/
theorem Agrees.list {F : Format α} (h : F.Agrees) : F.list.Agrees where
  read_of_decode {levels v s r as} hv hnesting hdecode := by
    cases v with
    | null | bool | number | string | object => cases hdecode
    | array vs =>
      obtain ⟨t, hs, hvs⟩ := hv
      obtain ⟨n, rfl, hlevel⟩ := Value.exists_level_of_array hnesting
      have hitems :
          List.Forall₂ (fun v a => ∀ s r, Spells v s r → F.read n s = .ok (a, r)) vs as := by
        have hdecoded := (List.forall₂_and_left vs as).2 ⟨hlevel, decodeItems_eq_ok.1 hdecode⟩
        exact hdecoded.imp fun v a ha s r hspells => h.read_of_decode hspells ha.1 ha.2
      have hle := length_le_of_spellsItems hvs
      have hread : readItems (F.read n) (t.length + 1) 0 t = .ok (as, ']' :: r) :=
        readItems_of_spells hitems hvs (by omega)
      rw [list_read hs, contained, List.drop_one, List.tail_cons, hread, inside_closeArray]
  eq_of_read {levels v s r r' as} hv hnesting hread := by
    obtain ⟨t, hs⟩ := exists_bracket_of_list_read hread
    obtain ⟨vs, rfl, hvs⟩ := exists_array_of_spells hv hs
    rw [list_read hs] at hread
    obtain ⟨n, rfl, u, hitems, -, hrest⟩ := contained_eq_ok hread
    have hnesting := Value.nesting_array_le.1 hnesting
    have hitem : ∀ v ∈ vs, ∀ {s r a r'}, Spells v s r → F.read n s = .ok (a, r') →
        r' = r ∧ ∀ b, F.decode v.merged = .ok b → b = a :=
      fun v hv s r a r' hspells ha => h.eq_of_read hspells (hnesting v hv) ha
    have hvs' : SpellsItems (0 == 0) vs t (']' :: r) := hvs
    obtain ⟨rfl, hall⟩ := of_readItems hitem hvs' hitems
    rw [closeArray_bracket] at hrest
    subst hrest
    refine ⟨rfl, fun bs hbs => ?_⟩
    rw [Value.merged, Value.mergedItems_eq] at hbs
    exact eq_of_forall₂ hall (List.forall₂_map_left_iff.1 (decodeItems_eq_ok.1 hbs))

/-! ## Choices -/

/-- A bare name is read as text and then looked up. -/
theorem readBare_eq_ok {variants : List (Variant α)} {a : α} :
    readBare variants s = .ok (a, r) ↔ ∃ name, Quoted.read s = .ok (name, r) ∧
      decodeBare variants name = .ok a := by
  rw [readBare]
  cases hread : Quoted.read s with
  | error f => simp
  | ok result =>
    obtain ⟨name, u⟩ := result
    simp only [decodeBare_eq_ok]
    cases hvariant : variant? variants name with
    | error f => simp +contextual [hvariant]
    | ok variant => cases h : variant.content.bare <;> simp +contextual [hvariant, h, and_comm]

/-- A tag is a text that names a variant. -/
theorem readTag_eq_ok {variants : List (Variant α)} {variant : Variant α} :
    readTag variants s = .ok (variant, r) ↔ ∃ t name, skipBlanks s = '"' :: t ∧
      Quoted.read t = .ok (name, r) ∧ variant? variants name = .ok variant := by
  rw [readTag]
  cases hs : skipBlanks s with
  | nil => simp
  | cons c t =>
    by_cases hc : c = '"'
    · subst hc
      simp only [if_true, List.cons.injEq, true_and]
      cases hread : Quoted.read t with
      | error f => simp [hread]
      | ok result =>
        obtain ⟨name, u⟩ := result
        cases h : variant? variants name <;> simp [hread, h, and_comm]
    · simp only [List.cons.injEq, hc, false_and, exists_const, iff_false, if_false]
      split_ifs <;> simp

/-- Behind its content a choice has to close at once: there is no second key. -/
theorem closeChoice_eq_ok : closeChoice s = .ok r ↔ skipBlanks s = '\x7d' :: r := by
  rw [closeChoice]
  cases hs : skipBlanks s with
  | nil => simp
  | cons c t =>
    by_cases hc : c = '\x7d'
    · simp [hc]
    · simp [hc]

/-- Content behind a tag was read, and after it the brace. -/
theorem readTagged_eq_ok {variants : List (Variant α)} {a : α} :
    readTagged variants levels s = .ok (a, r) ↔
      ∃ variant k t u, readTag variants s = .ok (variant, k) ∧ readColon k = .ok t ∧
        variant.content.format.read levels t = .ok (a, u) ∧ closeChoice u = .ok r := by
  rw [readTagged]
  cases htag : readTag variants s with
  | error f => simp
  | ok result =>
    obtain ⟨variant, k⟩ := result
    cases hcolon : readColon k with
    | error f => simp [hcolon]
    | ok t =>
      cases hread : variant.content.format.read levels t with
      | error f => simp [hcolon, hread]
      | ok result =>
        obtain ⟨b, u⟩ := result
        cases hclose : closeChoice u <;> simp [hcolon, hread, hclose, and_comm]

/-- What starts as text does is a bare name. -/
theorem choice_read_quote {variants : List (Variant α)} (hs : skipBlanks s = '"' :: t) :
    (choice variants).read levels s = readBare variants t := by
  simp only [choice, hs, if_true]

/-- What starts as an object does has a tag. -/
theorem choice_read_brace {variants : List (Variant α)} (hs : skipBlanks s = '\x7b' :: t) :
    (choice variants).read (levels + 1) s = readTagged variants levels t := by
  have hbrace : '\x7b' ≠ '"' := by decide
  simp only [choice, hs, if_neg hbrace, if_true]

/-- A choice that was read starts with a quote, or with a brace and room for a level. -/
theorem of_choice_read {variants : List (Variant α)} {a : α}
    (h : (choice variants).read levels s = .ok (a, r)) :
    (∃ t, skipBlanks s = '"' :: t ∧ readBare variants t = .ok (a, r)) ∨
      ∃ t n, skipBlanks s = '\x7b' :: t ∧ levels = n + 1 ∧
        readTagged variants n t = .ok (a, r) := by
  simp only [choice] at h
  cases hs : skipBlanks s with
  | nil => rw [hs] at h; cases h
  | cons c t =>
    simp only [hs] at h
    split_ifs at h with hquote hbrace
    · exact .inl ⟨t, by rw [hquote], h⟩
    · cases levels with
      | zero => cases h
      | succ n => exact .inr ⟨t, n, by rw [hbrace], rfl, h⟩

section Choice

variable {variants : List (Variant α)} {a : α}

/-- A bare name that is decoded is read. -/
theorem choice_read_of_decodeBare (hv : Spells (.string name) s r)
    (hbare : decodeBare variants name = .ok a) : (choice variants).read levels s = .ok (a, r) := by
  obtain ⟨c, t, hs, -, hatom⟩ := exists_atom_of_spells hv nofun
  cases hatom with
  | string hread => rw [choice_read_quote hs, readBare_eq_ok.2 ⟨name, hread, hbare⟩]

/-- A tag with its content that is decoded is read, if the content is read as it is decoded. -/
theorem choice_read_of_decodeTagged (h : ∀ variant ∈ variants, variant.content.format.Agrees)
    (hv : Spells (.object [(name, x)]) s r) (hnesting : (Value.object [(name, x)]).nesting ≤ levels)
    (htagged : decodeTagged variants name x = .ok a) :
    (choice variants).read levels s = .ok (a, r) := by
  obtain ⟨variant, hvariant, hx⟩ := decodeTagged_eq_ok.1 htagged
  obtain ⟨t, hs, k, t', u, hnext, hcolon, hspells, hclose⟩ := hv
  obtain ⟨n, rfl, hlevel⟩ := Value.exists_level_of_object hnesting
  obtain ⟨q, hkey, ⟨-, hq⟩ | ⟨hfirst, -⟩⟩ := nextKey_some hnext
  · obtain ⟨r', hr, hr'⟩ := nextKey_none hclose
    cases hr'
    have hread := (h variant (of_variant? hvariant).1).read_of_decode hspells
      (hlevel (name, x) List.mem_cons_self) hx
    rw [choice_read_brace hs]
    exact readTagged_eq_ok.2 ⟨variant, k, t', u, readTag_eq_ok.2 ⟨q, name, hq, hkey, hvariant⟩,
      hcolon, hread, closeChoice_eq_ok.2 hr⟩
  · cases hfirst

/-- A bare name that was read is the whole value. -/
theorem eq_of_readBare (hv : Spells v s r) (hs : skipBlanks s = '"' :: t)
    (hread : readBare variants t = .ok (a, u)) :
    u = r ∧ ∀ b, (choice variants).decode v.merged = .ok b → b = a := by
  obtain ⟨name, hname, hbare⟩ := readBare_eq_ok.1 hread
  have hskip := skipAtom_of_readAtom (readAtom_string hname)
  obtain ⟨rfl, hatom⟩ := skipAtom_of_spells hv hs hskip
  refine ⟨rfl, fun b hb => ?_⟩
  rw [hatom.merged] at hb
  obtain hatom | ⟨⟨n, rfl, -⟩, -⟩ := hatom
  · rw [readAtom_string hname] at hatom
    cases hatom
    exact Except.ok.inj (hb.symm.trans hbare)
  · cases hb

/-- Tagged content that was read is that of the only entry. -/
theorem eq_of_readTagged (h : ∀ variant ∈ variants, variant.content.format.Agrees)
    {es : List (String × Value)} (hes : SpellsEntries true es t ('\x7d' :: r))
    (hnesting : (Value.object es).nesting ≤ levels + 1)
    (hread : readTagged variants levels t = .ok (a, u)) :
    u = r ∧ ∀ b, (choice variants).decode (Value.object es).merged = .ok b → b = a := by
  obtain ⟨variant, k, t', w, htag, hcolon, hread, hclose⟩ := readTagged_eq_ok.1 hread
  obtain ⟨q, name, hq, hkey, hvariant⟩ := readTag_eq_ok.1 htag
  have hnext : nextKey true t = .ok (some name, k) := nextKey_first hq hkey
  obtain ⟨x, more, w', rfl, hspells, hmore⟩ := exists_cons_of_spellsEntries hes hnext hcolon
  have hnesting := Value.nesting_object_le.1 hnesting (name, x) List.mem_cons_self
  obtain ⟨rfl, heq⟩ := (h variant (of_variant? hvariant).1).eq_of_read hspells hnesting hread
  have hend : nextKey false w = .ok (none, '\x7d' :: u) :=
    nextKey_close (closeChoice_eq_ok.1 hclose)
  obtain ⟨rfl, hr⟩ := eq_nil_of_spellsEntries hmore hend
  refine ⟨(List.cons.inj hr).2, fun b hb => ?_⟩
  obtain ⟨variant', hvariant', hb⟩ := decodeTagged_eq_ok.1 hb
  rw [hvariant] at hvariant'
  cases hvariant'
  exact heq b hb

/-- **A choice agrees if the contents of its variants do.** -/
theorem agrees_choice (h : ∀ variant ∈ variants, variant.content.format.Agrees) :
    (choice variants).Agrees where
  read_of_decode hv hnesting hdecode := by
    obtain ⟨name, rfl, hbare⟩ | ⟨name, x, rfl, htagged⟩ := choice_decode_eq_ok.1 hdecode
    · exact choice_read_of_decodeBare hv hbare
    · exact choice_read_of_decodeTagged h hv hnesting htagged
  eq_of_read hv hnesting hread := by
    obtain ⟨t, hs, hbare⟩ | ⟨t, n, hs, rfl, htagged⟩ := of_choice_read hread
    · exact eq_of_readBare hv hs hbare
    · obtain ⟨es, rfl, hes⟩ := exists_object_of_spells hv hs
      exact eq_of_readTagged h hes hnesting htagged

end Choice

/-- A choice between names agrees. -/
theorem agrees_names (choices : List (String × α)) : (names choices).Agrees := by
  refine agrees_choice fun variant hvariant => ?_
  obtain ⟨choice, -, rfl⟩ := List.mem_map.1 hvariant
  exact agrees_unit.map _

end Format

/-! ## Whole documents -/

namespace Value

/-- A document has a value if one can be read at its start, whatever follows. -/
theorem ofText_eq_ok {source : String} :
    ofText source = .ok v ↔ ∃ r, readValue maxLevels source.toList = .ok (v, r) := by
  rw [ofText]
  cases readValue maxLevels source.toList with
  | error f => simp
  | ok result => simp [Prod.ext_iff]

end Value

namespace Format

theorem ofText_eq_ok {F : Format α} {a : α} {source : String} :
    F.ofText source = .ok a ↔ ∃ r, F.read maxLevels source.toList = .ok (a, r) := by
  rw [ofText]
  cases F.read maxLevels source.toList with
  | error f => simp
  | ok result => simp [Prod.ext_iff]

/-- **What is decoded from a value is read from its compact text**, unless that nests too deep. -/
theorem Agrees.ofText_compact {F : Format α} (h : F.Agrees) {a : α}
    (hnesting : v.nesting ≤ maxLevels) (hdecode : F.decode v = .ok a) :
    F.ofText v.compact = .ok a := by
  exact ofText_eq_ok.2 ⟨[], h.read_of_decode (spells_compact v) hnesting hdecode⟩

/-- What is read from a text is no other than what is decoded from the text's value. -/
theorem Agrees.eq_of_ofText {F : Format α} (h : F.Agrees) {a b : α} {source : String}
    (hvalue : Value.ofText source = .ok w) (hdecode : F.decode w = .ok b)
    (hread : F.ofText source = .ok a) : b = a := by
  obtain ⟨r, hvalue⟩ := Value.ofText_eq_ok.1 hvalue
  obtain ⟨r', hread⟩ := ofText_eq_ok.1 hread
  obtain ⟨v, hv, rfl, hnesting⟩ := exists_spells_of_readValue hvalue
  exact (h.eq_of_read hv hnesting hread).2 b hdecode

end Format

end Exemplar.Json
