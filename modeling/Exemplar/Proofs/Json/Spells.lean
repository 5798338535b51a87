import Exemplar.Proofs.Json.Layout

/-!
# Proofs/Json/Spells — which texts spell a value

    Spells {"a": 1}  (  {"a": 1}, …  )  (  , …  )

The readers of a document differ in what they make of a value and agree on where it ends.  That
common ground is `Spells v s r`: the text `s` starts with a spelling of `v` and `r` follows it,
blanks, escapes and repeated keys as the text has them.  It goes down the value as the readers go
down the text, so a reader is described by an induction on the value.  What a program writes spells
the value that it writes; for a number see `spellsAtom_number`.
-/

namespace Exemplar.Json

variable {c : Char} {s t u r rest : List Char} {v : Value} {first : Bool} {vs : List Value}
  {es : List (String × Value)}

/-- The number is read back as it is: it is whole and fits 64 bits. -/
def Number.IsWord : Number → Prop
  | integer n => Numeral.IsWord n
  | real _ => False

/-- The value is a number that is not read back as it is.  Its text may stand for another number,
for null or for nothing that can be read. -/
def Value.IsInexact (v : Value) : Prop := ∃ n : Number, v = .number n ∧ ¬ n.IsWord

/-- An atom is spelled by a text that is read as it.  If there is none, a text that can be skipped
will do. -/
def SpellsAtom (v : Value) (s r : List Char) : Prop :=
  readAtom s = .ok (v, r) ∨ v.IsInexact ∧ skipAtom s = .ok r

mutual

/-- `Spells v s r`: the text `s` starts with a spelling of `v`, and `r` follows it. -/
def Spells : Value → List Char → List Char → Prop
  | .array items, s, r => ∃ t, skipBlanks s = '[' :: t ∧ SpellsItems true items t (']' :: r)
  | .object es, s, r => ∃ t, skipBlanks s = '\x7b' :: t ∧ SpellsEntries true es t ('\x7d' :: r)
  | v, s, r => SpellsAtom v (skipBlanks s) r

/-- The text `s` starts with the items of an array, its `first` ones or further ones, and `r` is at
the bracket behind them. -/
def SpellsItems : Bool → List Value → List Char → List Char → Prop
  | first, [], s, r => nextItem first s = .ok (false, r)
  | first, v :: vs, s, r =>
    ∃ t u, nextItem first s = .ok (true, t) ∧ Spells v t u ∧ SpellsItems false vs u r

/-- The text `s` starts with the entries of an object, its `first` ones or further ones, and `r` is
at the brace behind them. -/
def SpellsEntries : Bool → List (String × Value) → List Char → List Char → Prop
  | first, [], s, r => nextKey first s = .ok (none, r)
  | first, (key, v) :: es, s, r =>
    ∃ k t u, nextKey first s = .ok (some key, k) ∧ readColon k = .ok t ∧ Spells v t u ∧
      SpellsEntries false es u r

end

/-! ## A value takes up text -/

theorem SpellsAtom.skipAtom (h : SpellsAtom v s r) : skipAtom s = .ok r :=
  h.elim skipAtom_of_readAtom And.right

theorem length_lt_of_spellsAtom (h : SpellsAtom v (skipBlanks s) r) : r.length < s.length :=
  Nat.lt_of_lt_of_le (length_lt_of_skipAtom h.skipAtom) (length_skipBlanks_le s)

mutual

/-- **A value takes up text**, so what follows it is shorter. -/
theorem length_lt_of_spells {s r : List Char} : ∀ {v : Value}, Spells v s r → r.length < s.length
  | .array _, ⟨t, hs, hitems⟩ => by
    have hle := length_le_of_spellsItems hitems
    have hlt := length_lt_of_skipBlanks hs
    rw [List.length_cons] at hle
    omega
  | .object _, ⟨t, hs, hentries⟩ => by
    have hle := length_le_of_spellsEntries hentries
    have hlt := length_lt_of_skipBlanks hs
    rw [List.length_cons] at hle
    omega
  | .null, h | .bool _, h | .number _, h | .string _, h => length_lt_of_spellsAtom h

/-- Each item takes up a character at least. -/
theorem length_le_of_spellsItems {first : Bool} {s r : List Char} : ∀ {vs : List Value},
    SpellsItems first vs s r → vs.length + r.length ≤ s.length
  | [], h => by simpa using length_le_of_nextItem h
  | v :: vs, ⟨t, u, hnext, hv, hvs⟩ => by
    have hitem := length_le_of_nextItem hnext
    have hlt := length_lt_of_spells hv
    have hle := length_le_of_spellsItems hvs
    rw [List.length_cons]
    omega

theorem length_le_of_spellsEntries {first : Bool} {s r : List Char} :
    ∀ {es : List (String × Value)}, SpellsEntries first es s r → es.length + r.length ≤ s.length
  | [], h => by
    obtain ⟨rest, hs, rfl⟩ := nextKey_none h
    have hle := length_skipBlanks_le s
    rw [hs] at hle
    simpa using hle
  | (key, v) :: es, ⟨k, t, u, hnext, hcolon, hv, hes⟩ => by
    have hkey := length_lt_of_nextKey hnext
    have hvalue := length_lt_of_readColon hcolon
    have hlt := length_lt_of_spells hv
    have hle := length_le_of_spellsEntries hes
    rw [List.length_cons]
    omega

end

/-! ## The first character tells containers and atoms apart -/

/-- A text that starts with a bracket spells an array. -/
theorem exists_array_of_spells (h : Spells v s r) (hs : skipBlanks s = '[' :: t) :
    ∃ vs, v = .array vs ∧ SpellsItems true vs t (']' :: r) := by
  cases v with
  | array vs =>
    obtain ⟨t', hs', hvs⟩ := h
    obtain ⟨-, rfl⟩ := List.cons.inj (hs.symm.trans hs')
    exact ⟨vs, rfl, hvs⟩
  | object es =>
    obtain ⟨t', hs', -⟩ := h
    exact absurd (List.cons.inj (hs.symm.trans hs')).1 (by decide)
  | null | bool | number | string =>
    have hskip : skipAtom (skipBlanks s) = .ok r := SpellsAtom.skipAtom h
    rw [hs] at hskip
    exact absurd rfl (head_of_skipAtom hskip).1

/-- A text that starts with a brace spells an object. -/
theorem exists_object_of_spells (h : Spells v s r) (hs : skipBlanks s = '\x7b' :: t) :
    ∃ es, v = .object es ∧ SpellsEntries true es t ('\x7d' :: r) := by
  cases v with
  | object es =>
    obtain ⟨t', hs', hes⟩ := h
    obtain ⟨-, rfl⟩ := List.cons.inj (hs.symm.trans hs')
    exact ⟨es, rfl, hes⟩
  | array vs =>
    obtain ⟨t', hs', -⟩ := h
    exact absurd (List.cons.inj (hs.symm.trans hs')).1 (by decide)
  | null | bool | number | string =>
    have hskip : skipAtom (skipBlanks s) = .ok r := SpellsAtom.skipAtom h
    rw [hs] at hskip
    exact absurd rfl (head_of_skipAtom hskip).2

/-- Any other text spells an atom. -/
theorem spellsAtom_of_spells (h : Spells v s r) (hs : skipBlanks s = c :: t) (harray : c ≠ '[')
    (hobject : c ≠ '\x7b') : SpellsAtom v (c :: t) r := by
  rw [← hs]
  cases v with
  | array vs =>
    obtain ⟨t', hs', -⟩ := h
    exact absurd (List.cons.inj (hs.symm.trans hs')).1 harray
  | object es =>
    obtain ⟨t', hs', -⟩ := h
    exact absurd (List.cons.inj (hs.symm.trans hs')).1 hobject
  | null | bool | number | string => exact h

/-! ## What comes next tells whether there are further items or entries -/

/-- There are no more items where none comes next. -/
theorem eq_nil_of_spellsItems (h : SpellsItems first vs s r)
    (hs : nextItem first s = .ok (false, t)) : vs = [] ∧ t = r := by
  cases vs with
  | nil =>
    have hr : nextItem first s = .ok (false, r) := h
    rw [hs] at hr
    cases hr
    exact ⟨rfl, rfl⟩
  | cons v vs =>
    obtain ⟨_, _, hmore, -⟩ := h
    rw [hs] at hmore
    cases hmore

/-- There are no more entries where no key comes next. -/
theorem eq_nil_of_spellsEntries (h : SpellsEntries first es s r)
    (hs : nextKey first s = .ok (none, t)) : es = [] ∧ t = r := by
  cases es with
  | nil =>
    have hr : nextKey first s = .ok (none, r) := h
    rw [hs] at hr
    cases hr
    exact ⟨rfl, rfl⟩
  | cons e es =>
    obtain ⟨_, _, _, hmore, -⟩ := h
    rw [hs] at hmore
    cases hmore

/-- Where a key comes next, there is an entry with it. -/
theorem exists_cons_of_spellsEntries {key : String} {k : List Char}
    (h : SpellsEntries first es s r) (hs : nextKey first s = .ok (some key, k))
    (hk : readColon k = .ok t) :
    ∃ v more u, es = (key, v) :: more ∧ Spells v t u ∧ SpellsEntries false more u r := by
  cases es with
  | nil =>
    have hr : nextKey first s = .ok (none, r) := h
    rw [hs] at hr
    cases hr
  | cons e es =>
    obtain ⟨key', v⟩ := e
    obtain ⟨k', t', u, hs', hk', hv, hmore⟩ := h
    rw [hs] at hs'
    cases hs'
    rw [hk] at hk'
    cases hk'
    exact ⟨v, es, u, rfl, hv, hmore⟩

/-! ## Numbers -/

/-- A number has a digit in front. -/
theorem exists_digit_of_skipUnsigned (h : Numeral.skipUnsigned s = .ok r) :
    ∃ d t, s = d :: t ∧ d.isDigit = true := by
  cases s with
  | nil => cases h
  | cons d t =>
    refine ⟨d, t, rfl, ?_⟩
    by_contra hd
    rw [Numeral.skipUnsigned, List.takeWhile_cons_of_neg hd] at h
    cases h

/-- A number that is written with digits starts with one or with a sign, and can be skipped. -/
theorem exists_skip_chars (n : Number) (hr : Numeral.Ends r) :
    (∃ c t, n.chars ++ r = c :: t ∧ (c = '-' ∨ c.isDigit) ∧ Numeral.skip (c :: t) = .ok r) ∨
      ¬ n.IsWord ∧ n.chars = "null".toList := by
  cases n with
  | integer n =>
    left
    cases n with
    | ofNat n =>
      obtain ⟨d, ds, hd, hdigit, -⟩ := Decimal.exists_toDigits_eq_cons n
      have hsign : d ≠ '-' := by rintro rfl; exact absurd hdigit (by decide)
      have hskip := (Numeral.skipUnsigned_leading (Decimal.leading_toDigits n) hr.digits).trans
        (Numeral.skipTail_of_ends hr)
      rw [Number.chars, Decimal.intChars]
      rw [hd, List.cons_append] at hskip ⊢
      refine ⟨d, ds ++ r, rfl, .inr hdigit, ?_⟩
      rw [Numeral.skip, hskip]
      rintro t ⟨rfl⟩
      exact hsign rfl
    | negSucc n =>
      have hskip :=
        (Numeral.skipUnsigned_leading (Decimal.leading_toDigits (n + 1)) hr.digits).trans
          (Numeral.skipTail_of_ends hr)
      exact ⟨'-', Nat.toDigits 10 (n + 1) ++ r, rfl, .inl rfl, hskip⟩
  | real x =>
    rw [Number.chars]
    cases hfinite : x.isFinite with
    -- infinities and NaN have no numeral: they are written as a null
    | false => exact .inr ⟨not_false, rfl⟩
    | true =>
      left
      have hskip := Numeral.skipUnsigned_finiteChars x hr
      cases hnegative : x.isNegative with
      | true => exact ⟨'-', Number.finiteChars x ++ r, rfl, .inl rfl, hskip⟩
      | false =>
        obtain ⟨d, t, ht, hdigit⟩ := exists_digit_of_skipUnsigned hskip
        have hsign : d ≠ '-' := by rintro rfl; exact absurd hdigit (by decide)
        refine ⟨d, t, ht, .inr hdigit, ?_⟩
        rw [← ht, Numeral.skip, hskip]
        rintro t' ht'
        exact hsign (List.cons.inj (ht.symm.trans ht')).1

/-- **The text of a number spells it** if what follows does not go on with a number. -/
theorem spellsAtom_number (n : Number) (hr : Numeral.Ends r) :
    SpellsAtom (.number n) (n.chars ++ r) r := by
  obtain ⟨c, t, htext, hc, hskip⟩ | ⟨hn, htext⟩ := exists_skip_chars n hr
  · by_cases hn : n.IsWord
    · left
      cases n with
      | integer n =>
        have hread := Numeral.read_intChars hn hr
        rw [Number.chars] at htext ⊢
        rw [htext] at hread ⊢
        exact readAtom_numeral hc hread
      | real x => exact hn.elim
    · right
      refine ⟨⟨n, rfl, hn⟩, ?_⟩
      rw [htext, skipAtom_numeral hc, hskip]
  · rw [htext]
    exact .inr ⟨⟨n, rfl, hn⟩, skipAtom_of_readAtom readAtom_null⟩

end Exemplar.Json
