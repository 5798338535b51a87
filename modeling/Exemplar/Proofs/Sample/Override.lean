import Exemplar.Literal.Render
import Exemplar.Proofs.Decimal.Digits
import Exemplar.Proofs.Text.Trim
import Exemplar.Sample.Override

/-!
# Proofs/Sample/Override — which pairs of texts are a table of overrides

    [(" Int", "7"), ("String", " x"), ("Int", " +08 ")]   ▸   string " x",  int 8
    [("Int", "7"), ("Int", "eight"), ("Real", "1")]       ▸   invalid override of Int: eight

Whether a pair fits does not depend on the pairs before it.  So a list is taken when every pair of
it fits, the last one for a kind being the one that counts, and otherwise it is refused for the
first pair that does not fit (`pairs_checked`).  A 64-bit number reads back from its own text, so
there is a list of pairs for each table (`ofPairs_pairs`).
-/

namespace Exemplar.Overrides

open Text

theorem isBlank_of_isDigit {c : Char} (h : c.isDigit = true) : isBlank c = false := by
  obtain ⟨hlow, hhigh⟩ := Char.isDigit_iff_toNat.1 h
  have hzero : '0'.toNat = 48 := rfl
  have hnine : '9'.toNat = 57 := rfl
  refine List.any_eq_false.2 fun range hrange hin => ?_
  rw [Bool.and_eq_true, decide_eq_true_iff, decide_eq_true_iff] at hin
  simp only [blankRanges, List.mem_cons, List.not_mem_nil, or_false] at hrange
  rcases hrange with rfl | rfl | rfl | rfl | rfl | rfl | rfl | rfl | rfl | rfl <;> omega

/-- A number has no blanks to trim. -/
theorem isBlank_of_mem_intChars {n : ℤ} {c : Char} (h : c ∈ Decimal.intChars n) :
    isBlank c = false := by
  obtain hdigit | rfl := Decimal.isDigit_of_mem_intChars h
  · exact isBlank_of_isDigit hdigit
  · decide

/-- A 64-bit number lies in its own range. -/
theorem isWord_toInt (n : Int64) : isWord n.toInt = true := by
  have hle := n.le_toInt
  have hlt := n.toInt_lt
  refine decide_eq_true ⟨?_, ?_⟩ <;> omega

/-- **A 64-bit number reads back from its text.** -/
theorem readInt?_intChars (n : Int64) :
    readInt? (String.ofList (Decimal.intChars n.toInt)) = some n := by
  have htrim : trim (Decimal.intChars n.toInt) = Decimal.intChars n.toInt :=
    trim_of_forall_visible fun c hc => isBlank_of_mem_intChars hc
  rw [readInt?, String.toList_ofList, htrim, Decimal.readSigned?_intChars]
  simp [isWord_toInt]

/-! ## Single pairs -/

/-- The value of a pair is a whole number of 64 bits, blanks around it aside. -/
structure Writes (value : String) (z : ℤ) : Prop where
  numeral : Decimal.Numeral (trim value.toList) z
  low : -2 ^ 63 ≤ z
  high : z ≤ 2 ^ 63 - 1

/-- The pair is for a string, or it is for an int and its value is one. -/
inductive Fits : String × String → Prop
  | string {key value : String} (hkey : trimmed key = "String") : Fits (key, value)
  | int {key value : String} {z : ℤ} (hkey : trimmed key = "Int") (hz : Writes value z) :
      Fits (key, value)

/-- What is wrong with a pair: it is for neither kind, or it is for an int and its value is none. -/
inductive Refused : String × String → ExpandError → Prop
  | key {key value : String} (hstring : trimmed key ≠ "String") (hint : trimmed key ≠ "Int") :
      Refused (key, value) (.unsupportedOverride key)
  | value {key value : String} (hkey : trimmed key = "Int") (hz : ∀ z, ¬ Writes value z) :
      Refused (key, value) (.invalidOverride .int value)

variable {o : Overrides} {key value : String} {n : Int64} {p : String × String} {e : ExpandError}

/-- The range of a 64-bit number in figures. -/
theorem isWord_iff {z : ℤ} : isWord z = true ↔ -2 ^ 63 ≤ z ∧ z ≤ 2 ^ 63 - 1 := by
  rw [isWord, decide_eq_true_iff]
  norm_num

/-- **What is read as a number writes it**, in range, with blanks around it and with leading
zeros. -/
theorem readInt?_eq_some_iff : readInt? value = some n ↔ Writes value n.toInt := by
  rw [readInt?, Option.map_eq_some_iff]
  constructor
  · rintro ⟨z, hz, rfl⟩
    obtain ⟨hread, hword⟩ := Option.filter_eq_some_iff.1 hz
    obtain ⟨hlow, hhigh⟩ := isWord_iff.1 hword
    rw [Int64.toInt_ofInt_of_le hlow (by omega)]
    exact ⟨Decimal.readSigned?_eq_some_iff.1 hread, hlow, hhigh⟩
  · intro h
    have hread := Decimal.readSigned?_eq_some_iff.2 h.numeral
    exact ⟨n.toInt, Option.filter_eq_some_iff.2 ⟨hread, isWord_toInt n⟩, Int64.ofInt_toInt n⟩

/-- A text that writes a number is read as this number. -/
theorem Writes.readInt?_eq {z : ℤ} (h : Writes value z) :
    readInt? value = some (Int64.ofInt z) := by
  have hword : (Int64.ofInt z).toInt = z := Int64.toInt_ofInt_of_le h.low (by have := h.high; omega)
  exact readInt?_eq_some_iff.2 (hword.symm ▸ h)

/-- A key is that of a kind if it is its name in blanks. -/
theorem parse_of_eq {kind : OverrideKind} (h : trimmed key = kind.typeName) :
    OverrideKind.parse key = .ok kind := by
  rw [OverrideKind.parse, h]
  cases kind <;> rfl

/-- Any other key is refused as it stands, blanks included. -/
theorem parse_of_ne (hstring : trimmed key ≠ "String") (hint : trimmed key ≠ "Int") :
    OverrideKind.parse key = .error (.unsupportedOverride key) := by
  rw [OverrideKind.parse]
  simp [OverrideKind.typeName, hstring.symm, hint.symm]

/-- A value for strings is taken as it stands, whatever there was before. -/
theorem insert_of_string (h : trimmed key = "String") (o : Overrides) (value : String) :
    o.insert key value = .ok { o with string := some value } := by
  have hkind : OverrideKind.parse key = .ok .string := parse_of_eq h
  rw [insert, hkind]

/-- A value for ints is taken as the number it writes, whatever there was before. -/
theorem insert_of_int (h : trimmed key = "Int") (hn : readInt? value = some n) (o : Overrides) :
    o.insert key value = .ok { o with int := some n } := by
  have hkind : OverrideKind.parse key = .ok .int := parse_of_eq h
  rw [insert, hkind]
  dsimp only
  rw [hn]

theorem insert_string (o : Overrides) (s : String) :
    o.insert "String" s = .ok { o with string := some s } :=
  insert_of_string (by decide) o s

theorem insert_int (o : Overrides) (n : Int64) :
    o.insert "Int" (String.ofList (Decimal.intChars n.toInt)) = .ok { o with int := some n } :=
  insert_of_int (by decide) (readInt?_intChars n) o

/-- **What is wrong with a pair is the error**, whatever the table it is added to. -/
theorem insert_of_refused (h : Refused p e) (o : Overrides) : o.insert p.1 p.2 = .error e := by
  cases h with
  | key hstring hint => rw [insert, parse_of_ne hstring hint]
  | @value key value hkey hz =>
    have hread : readInt? value = none :=
      Option.eq_none_iff_forall_ne_some.2 fun n hn => hz _ (readInt?_eq_some_iff.1 hn)
    have hkind : OverrideKind.parse key = .ok .int := parse_of_eq hkey
    rw [insert, hkind]
    dsimp only
    rw [hread]

/-- A pair fits or there is something wrong with it. -/
theorem fits_or_refused (p : String × String) : Fits p ∨ ∃ e, Refused p e := by
  obtain ⟨key, value⟩ := p
  by_cases hstring : trimmed key = "String"
  · exact .inl (.string hstring)
  by_cases hint : trimmed key = "Int"
  · by_cases hz : ∃ z, Writes value z
    · obtain ⟨z, hz⟩ := hz
      exact .inl (.int hint hz)
    · exact .inr ⟨_, .value hint (not_exists.1 hz)⟩
  · exact .inr ⟨_, .key hstring hint⟩

/-! ## Lists of pairs -/

/-- The value of the last pair that is for the kind. -/
def lastValue? (kind : OverrideKind) (ps : List (String × String)) : Option String :=
  (ps.reverse.find? fun p => trimmed p.1 = kind.typeName).map Prod.snd

/-- The table of a list of pairs that fit: the last value for each kind. -/
def table (ps : List (String × String)) : Overrides where
  string := lastValue? .string ps
  int := (lastValue? .int ps).bind readInt?

variable {kind : OverrideKind} {ps before after : List (String × String)}

/-- A pair for the kind is the last for it. -/
theorem lastValue?_concat_of_eq (kind : OverrideKind) (h : trimmed key = kind.typeName)
    (ps : List (String × String)) : lastValue? kind (ps ++ [(key, value)]) = some value := by
  rw [lastValue?, List.reverse_concat, List.find?_cons_of_pos (by simpa using h), Option.map_some]

/-- Any other pair changes nothing for the kind. -/
theorem lastValue?_concat_of_ne (kind : OverrideKind) (h : trimmed key ≠ kind.typeName)
    (ps : List (String × String)) :
    lastValue? kind (ps ++ [(key, value)]) = lastValue? kind ps := by
  rw [lastValue?, List.reverse_concat, List.find?_cons_of_neg (by simpa using h), lastValue?]

/-- The last value of a kind is the value of some pair for it. -/
theorem exists_of_lastValue? (h : lastValue? kind ps = some value) :
    ∃ key, (key, value) ∈ ps ∧ trimmed key = kind.typeName := by
  obtain ⟨p, hfind, rfl⟩ := Option.map_eq_some_iff.1 h
  have hkey := List.find?_some hfind
  exact ⟨p.1, List.mem_reverse.1 (List.mem_of_find?_eq_some hfind), of_decide_eq_true hkey⟩

/-- A list that is taken goes on with the table that it gives. -/
theorem ofPairs_append_of_ok (h : ofPairs ps = .ok o) (qs : List (String × String)) :
    ofPairs (ps ++ qs) = qs.foldlM (fun o p => o.insert p.1 p.2) o := by
  rw [ofPairs, List.foldlM_append, ← ofPairs, h]
  rfl

/-- A list that is refused is refused whatever follows. -/
theorem ofPairs_append_of_error (h : ofPairs ps = .error e) (qs : List (String × String)) :
    ofPairs (ps ++ qs) = .error e := by
  rw [ofPairs, List.foldlM_append, ← ofPairs, h]
  rfl

theorem ofPairs_concat_of_ok (h : ofPairs ps = .ok o) (p : String × String) :
    ofPairs (ps ++ [p]) = o.insert p.1 p.2 := by
  rw [ofPairs_append_of_ok h, List.foldlM_cons]
  simp only [List.foldlM_nil, bind_pure]

/-- **One more pair that fits** is the last one for its kind. -/
theorem insert_table (h : Fits p) (ps : List (String × String)) :
    (table ps).insert p.1 p.2 = .ok (table (ps ++ [p])) := by
  cases h with
  | @string key value hkey =>
    have hint : trimmed key ≠ OverrideKind.int.typeName := by
      rw [hkey]
      decide
    rw [insert_of_string hkey, table, table, lastValue?_concat_of_eq .string hkey,
      lastValue?_concat_of_ne .int hint]
  | @int key value z hkey hz =>
    have hstring : trimmed key ≠ OverrideKind.string.typeName := by
      rw [hkey]
      decide
    rw [insert_of_int hkey hz.readInt?_eq, table, table, lastValue?_concat_of_ne .string hstring,
      lastValue?_concat_of_eq .int hkey, Option.bind_some, hz.readInt?_eq]

/-- **Pairs that fit make a table.** -/
theorem ofPairs_of_fits (h : ∀ p ∈ ps, Fits p) : ofPairs ps = .ok (table ps) := by
  induction ps using List.reverseRecOn with
  | nil => rfl
  | append_singleton ps p ih =>
    obtain ⟨hps, hp⟩ := List.forall_mem_append.1 h
    rw [ofPairs_concat_of_ok (ih hps)]
    exact insert_table (hp p (List.mem_singleton_self p)) ps

/-- **The first pair that does not fit is the one that is refused.** -/
theorem ofPairs_of_refused (hbefore : ∀ q ∈ before, Fits q) (h : Refused p e)
    (after : List (String × String)) : ofPairs (before ++ p :: after) = .error e := by
  rw [ofPairs_append_of_ok (ofPairs_of_fits hbefore), List.foldlM_cons, insert_of_refused h]
  rfl

/-- Either all pairs fit or there is a first one that does not. -/
theorem fits_or_exists_refused (ps : List (String × String)) : (∀ p ∈ ps, Fits p) ∨
    ∃ before p after e, ps = before ++ p :: after ∧ (∀ q ∈ before, Fits q) ∧ Refused p e := by
  induction ps with
  | nil => exact .inl nofun
  | cons p ps ih =>
    obtain hp | ⟨e, he⟩ := fits_or_refused p
    · obtain hps | ⟨before, q, after, e, rfl, hbefore, he⟩ := ih
      · exact .inl (List.forall_mem_cons.2 ⟨hp, hps⟩)
      · exact .inr ⟨p :: before, q, after, e, rfl, List.forall_mem_cons.2 ⟨hp, hbefore⟩, he⟩
    · exact .inr ⟨[], p, ps, e, rfl, nofun, he⟩

/-- **A list is taken exactly if all its pairs fit**, and then it gives the last values. -/
theorem ofPairs_eq_ok_iff : ofPairs ps = .ok o ↔ (∀ p ∈ ps, Fits p) ∧ o = table ps := by
  constructor
  · intro h
    obtain hps | ⟨before, p, after, e, rfl, hbefore, he⟩ := fits_or_exists_refused ps
    · rw [ofPairs_of_fits hps] at h
      exact ⟨hps, (Except.ok.inj h).symm⟩
    · rw [ofPairs_of_refused hbefore he] at h
      cases h
  · rintro ⟨hps, rfl⟩
    exact ofPairs_of_fits hps

/-- **A list is refused exactly for its first pair that does not fit.** -/
theorem ofPairs_eq_error_iff : ofPairs ps = .error e ↔
    ∃ before p after, ps = before ++ p :: after ∧ (∀ q ∈ before, Fits q) ∧ Refused p e := by
  constructor
  · intro h
    obtain hps | ⟨before, p, after, e', rfl, hbefore, he⟩ := fits_or_exists_refused ps
    · rw [ofPairs_of_fits hps] at h
      cases h
    · rw [ofPairs_of_refused hbefore he] at h
      obtain rfl := Except.error.inj h
      exact ⟨before, p, after, rfl, hbefore, he⟩
  · rintro ⟨before, p, after, rfl, hbefore, he⟩
    exact ofPairs_of_refused hbefore he after

/-- The number in a table of pairs that fit is what the last value for an int writes. -/
theorem rel_int_table (h : ∀ p ∈ ps, Fits p) :
    Option.Rel (fun n value => Writes value n.toInt) (table ps).int (lastValue? .int ps) := by
  rw [table]
  cases hlast : lastValue? .int ps with
  | none => exact .none
  | some value =>
    obtain ⟨key, hmem, hkey⟩ := exists_of_lastValue? hlast
    cases h _ hmem with
    | string hstring => exact absurd (hstring.symm.trans hkey) (by decide)
    | int _ hz =>
      have hread := hz.readInt?_eq
      rw [Option.bind_some, hread]
      exact .some (readInt?_eq_some_iff.1 hread)

/-- **How a list of pairs is checked.** It is a table exactly if every pair fits. In the table there
are the last value for a string, as it stands, and the number that the last value for an int writes,
and nothing for a kind that no pair is for.  Otherwise the list is refused for what is wrong with
the first pair that does not fit, whatever follows it.  The text of a 64-bit number overrides as
this number. -/
theorem pairs_checked (ps : List (String × String)) :
    ((∃ o, ofPairs ps = .ok o) ↔ ∀ p ∈ ps, Fits p) ∧
      (∀ o, ofPairs ps = .ok o → o.string = lastValue? .string ps ∧
        Option.Rel (fun n value => Writes value n.toInt) o.int (lastValue? .int ps)) ∧
      (∀ e, ofPairs ps = .error e ↔
        ∃ before p after, ps = before ++ p :: after ∧ (∀ q ∈ before, Fits q) ∧ Refused p e) ∧
      ∀ (n : Int64) (accessor : String),
        ofPairs (ps ++ [("Int", (Literal.integer n).render accessor)]) =
          (ofPairs ps).map fun o => { o with int := some n } := by
  refine ⟨⟨?_, fun h => ⟨_, ofPairs_of_fits h⟩⟩, fun o h => ?_, fun e => ofPairs_eq_error_iff,
    fun n accessor => ?_⟩
  · rintro ⟨o, h⟩
    exact (ofPairs_eq_ok_iff.1 h).1
  · obtain ⟨hps, rfl⟩ := ofPairs_eq_ok_iff.1 h
    exact ⟨rfl, rel_int_table hps⟩
  · have htext : (Literal.integer n).render accessor
        = String.ofList (Decimal.intChars n.toInt) := rfl
    rw [htext]
    cases h : ofPairs ps with
    | error e => exact ofPairs_append_of_error h _
    | ok o => exact (ofPairs_concat_of_ok h _).trans (insert_int o n)

/-- The first value for an int counts as little as the blanks around the last one. -/
theorem pairs_checked_of_padded :
    let ps := [(" Int", "7"), ("String", " x"), ("Int", " +08 ")]
    ofPairs ps = .ok { string := some " x", int := some 8 } ∧
      lastValue? .int ps = some " +08 " ∧ Writes " +08 " 8 := by
  intro ps
  have hok : ofPairs ps = .ok { string := some " x", int := some 8 } := by decide +kernel
  have hlast : lastValue? .int ps = some " +08 " := by decide +kernel
  obtain ⟨-, htable, -⟩ := pairs_checked ps
  have hint := (htable _ hok).2
  rw [hlast] at hint
  cases hint with
  | some hwrites => exact ⟨hok, hlast, hwrites⟩

/-! ## Tables as pairs -/

/-- Pairs that give a table: one for each override in force. -/
def pairs (o : Overrides) : List (String × String) :=
  (o.string.map fun s => ("String", s)).toList ++
    (o.int.map fun n => ("Int", String.ofList (Decimal.intChars n.toInt))).toList

/-- **Every table is that of a list of pairs.** -/
theorem ofPairs_pairs (o : Overrides) : ofPairs o.pairs = .ok o := by
  obtain ⟨string, int⟩ := o
  cases string <;> cases int <;> simp [ofPairs, pairs, insert_string, insert_int] <;> rfl

end Exemplar.Overrides
