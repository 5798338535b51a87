import Exemplar.Json.Write
import Exemplar.Proofs.Json.Spells
import Exemplar.Proofs.Text.Split

/-!
# Proofs/Json/Spacing — the text of a value spells it, wherever its blanks are

    {"a":[1]}      {
                     "a": [
                       1
                     ]
                   }

Texts of one value differ in the blanks between its tokens.  A `Spacing` says which ones there are:
none in the compact text (`Spacing.tight`), and in the indented one a line for each item and entry
(`Spacing.indented`).  A reader skips them all, so **the text with any spacing spells the value**
(`Spacing.spells_chars`), which covers both texts that are written (`spells_compact`,
`spells_pretty`).
-/

namespace Exemplar.Json

variable {c first last : Char} {s t r rest gap : List Char} {ts : List (List Char)} {v : Value}

/-! ## Blanks -/

/-- There is nothing to be seen in the text. -/
def Blanks (s : List Char) : Prop := ∀ c ∈ s, isBlank c = true

theorem blanks_nil : Blanks [] := nofun

/-- A reader that looks for the next token does not see the blanks before it. -/
theorem Blanks.skipBlanks_append (h : Blanks gap) : skipBlanks (gap ++ s) = skipBlanks s :=
  List.dropWhile_append_of_pos h

/-- No number goes on with a blank. -/
theorem Blanks.ends_append (h : Blanks gap) (hs : Numeral.Ends s) : Numeral.Ends (gap ++ s) := by
  cases gap with
  | nil => exact hs
  | cons c gap =>
    have hc := h c List.mem_cons_self
    simp only [isBlank, Bool.or_eq_true, decide_eq_true_eq] at hc
    rcases hc with ((rfl | rfl) | rfl) | rfl <;>
      exact Numeral.ends_cons (by decide) (by decide) (by decide)

/-- Blanks before a text change nothing in what it spells. -/
theorem Blanks.spells_append (h : Blanks gap) (hs : Spells v s r) : Spells v (gap ++ s) r := by
  cases v with
  | null | bool | number | string =>
    change SpellsAtom _ (skipBlanks (gap ++ s)) r
    rwa [h.skipBlanks_append]
  | array | object =>
    obtain ⟨t, ht, hrest⟩ := hs
    exact ⟨t, h.skipBlanks_append.trans ht, hrest⟩

theorem ends_comma : Numeral.Ends (',' :: rest) :=
  Numeral.ends_cons (by decide) (by decide) (by decide)

theorem ends_bracket : Numeral.Ends (']' :: rest) :=
  Numeral.ends_cons (by decide) (by decide) (by decide)

theorem ends_brace : Numeral.Ends ('\x7d' :: rest) :=
  Numeral.ends_cons (by decide) (by decide) (by decide)

/-! ## Texts of a value -/

/-- The blanks in a text: those where a line may start inside so many containers, and those behind a
colon. -/
structure Spacing where
  line : ℕ → List Char
  colon : List Char
  blank_line : ∀ depth, Blanks (line depth)
  blank_colon : Blanks colon

namespace Spacing

/-- No blanks at all. -/
def tight : Spacing := ⟨fun _ => [], [], fun _ => blanks_nil, blanks_nil⟩

theorem blanks_newline (depth : ℕ) : Blanks (Value.newline depth) := by
  intro c hc
  rcases List.mem_cons.1 hc with rfl | hc
  · decide
  · rw [List.eq_of_mem_replicate hc]
    decide

/-- A line for each item and entry, indented by two spaces for each container around it. -/
def indented : Spacing where
  line := Value.newline
  colon := [' ']
  blank_line := blanks_newline
  blank_colon c hc := by rw [List.mem_singleton.1 hc]; decide

variable (b : Spacing)

/-- A container inside `depth` others, with these texts as its contents. -/
def container (first last : Char) (depth : ℕ) : List (List Char) → List Char
  | [] => [first, last]
  | t :: ts =>
    first :: b.line (depth + 1) ++ (',' :: b.line (depth + 1)).intercalate (t :: ts) ++
      b.line depth ++ [last]

mutual

/-- The text of a value inside `depth` containers. -/
def chars (depth : ℕ) : Value → List Char
  | .null => Value.null.compactChars
  | .bool value => (Value.bool value).compactChars
  | .number value => (Value.number value).compactChars
  | .string text => (Value.string text).compactChars
  | .array items => b.container '[' ']' depth (itemsChars (depth + 1) items)
  | .object entries => b.container '\x7b' '\x7d' depth (entriesChars (depth + 1) entries)

/-- The text of each value. -/
def itemsChars (depth : ℕ) : List Value → List (List Char)
  | [] => []
  | v :: vs => chars depth v :: itemsChars depth vs

/-- The text of each entry. -/
def entriesChars (depth : ℕ) : List (String × Value) → List (List Char)
  | [] => []
  | (key, v) :: es =>
    (Value.keyChars key (':' :: b.colon) ++ chars depth v) :: entriesChars depth es

end

/-- Without blanks there are commas only. -/
theorem container_tight (first last : Char) (depth : ℕ) (ts : List (List Char)) :
    tight.container first last depth ts = first :: [','].intercalate ts ++ [last] := by
  cases ts <;> simp [container, tight]

/-- With blanks each content has a line of its own. -/
theorem container_indented (first last : Char) (depth : ℕ) (ts : List (List Char)) :
    indented.container first last depth ts = Value.lines first last depth ts := by
  cases ts <;> rfl

mutual

/-- The compact text is the one without blanks. -/
theorem chars_tight (depth : ℕ) : ∀ v : Value, tight.chars depth v = v.compactChars
  | .null | .bool _ | .number _ | .string _ => rfl
  | .array items => by
    rw [chars, container_tight, itemsChars_tight, Value.compactChars]
  | .object entries => by
    rw [chars, container_tight, entriesChars_tight, Value.compactChars]

theorem itemsChars_tight (depth : ℕ) :
    ∀ vs : List Value, tight.itemsChars depth vs = Value.compactItems vs
  | [] => rfl
  | v :: vs => by rw [itemsChars, chars_tight, itemsChars_tight, Value.compactItems]

theorem entriesChars_tight (depth : ℕ) :
    ∀ es : List (String × Value), tight.entriesChars depth es = Value.compactEntries es
  | [] => rfl
  | (key, v) :: es => by
    rw [entriesChars, chars_tight, entriesChars_tight, Value.compactEntries]
    rfl

end

mutual

/-- The pretty text is the indented one. -/
theorem chars_indented (depth : ℕ) : ∀ v : Value, indented.chars depth v = v.prettyChars depth
  | .null | .bool _ | .number _ | .string _ => rfl
  | .array items => by
    rw [chars, container_indented, itemsChars_indented, Value.prettyChars]
  | .object entries => by
    rw [chars, container_indented, entriesChars_indented, Value.prettyChars]

theorem itemsChars_indented (depth : ℕ) :
    ∀ vs : List Value, indented.itemsChars depth vs = Value.prettyItems depth vs
  | [] => rfl
  | v :: vs => by rw [itemsChars, chars_indented, itemsChars_indented, Value.prettyItems]

theorem entriesChars_indented (depth : ℕ) :
    ∀ es : List (String × Value), indented.entriesChars depth es = Value.prettyEntries depth es
  | [] => rfl
  | (key, v) :: es => by
    rw [entriesChars, chars_indented, entriesChars_indented, Value.prettyEntries]
    rfl

end

/-! ## What comes behind the first content -/

/-- Further contents of a container, each behind a comma, its end, and what follows. -/
def more (last : Char) (depth : ℕ) (ts : List (List Char)) (rest : List Char) : List Char :=
  ts.flatMap (fun t => ',' :: (b.line (depth + 1) ++ t)) ++ (b.line depth ++ last :: rest)

variable {depth : ℕ}

/-- A container starts with its sign and its first content, and more follows. -/
theorem container_cons : b.container first last depth (t :: ts) ++ rest
    = first :: (b.line (depth + 1) ++ (t ++ b.more last depth ts rest)) := by
  rw [container, Text.intercalate_cons, more]
  simp only [List.cons_append, List.append_assoc, List.nil_append]

/-- Further contents come behind a comma. -/
theorem more_cons : b.more last depth (t :: ts) rest
    = ',' :: (b.line (depth + 1) ++ (t ++ b.more last depth ts rest)) := by
  simp only [more, List.flatMap_cons, List.cons_append, List.append_assoc]

/-- No number in a container goes on behind its own text. -/
theorem ends_more (depth : ℕ) (ts : List (List Char)) (h : Numeral.Ends (last :: rest)) :
    Numeral.Ends (b.more last depth ts rest) := by
  cases ts with
  | nil => exact (b.blank_line depth).ends_append h
  | cons t ts =>
    rw [more_cons]
    exact ends_comma

/-! ## Reading along the text -/

/-- The text of a value starts at once, and not with a bracket that ends an array. -/
theorem exists_chars_append (depth : ℕ) (v : Value) (hr : Numeral.Ends r) :
    ∃ c t, b.chars depth v ++ r = c :: t ∧ isBlank c = false ∧ c ≠ ']' := by
  have hcontainer : ∀ (first last : Char) ts, isBlank first = false → first ≠ ']' →
      ∃ c t, b.container first last depth ts ++ r = c :: t ∧ isBlank c = false ∧ c ≠ ']' := by
    intro first last ts hblank hbracket
    cases ts with
    | nil => exact ⟨first, _, rfl, hblank, hbracket⟩
    | cons t ts => exact ⟨first, _, b.container_cons, hblank, hbracket⟩
  cases v with
  | number n =>
    rw [chars, Value.compactChars]
    obtain ⟨c, t, htext, hc, -⟩ | ⟨-, htext⟩ := exists_skip_chars n hr
    · refine ⟨c, t, htext, ?_, ?_⟩
      · by_contra hblank
        simp only [isBlank, Bool.or_eq_false_iff, decide_eq_false_iff_not, not_and_or,
          not_not] at hblank
        rcases hblank with ((rfl | rfl) | rfl) | rfl <;> exact absurd hc (by decide)
      · rintro rfl
        exact absurd hc (by decide)
    · rw [htext]
      exact ⟨'n', "ull".toList ++ r, rfl, by decide, by decide⟩
  | null => exact ⟨'n', "ull".toList ++ r, rfl, by decide, by decide⟩
  | bool b => cases b <;> exact ⟨_, _, rfl, by decide, by decide⟩
  | string text => exact ⟨'"', _, rfl, by decide, by decide⟩
  | array items => exact hcontainer '[' ']' _ (by decide) (by decide)
  | object es => exact hcontainer '\x7b' '\x7d' _ (by decide) (by decide)

/-- What comes next is found behind the blanks before it. -/
theorem skipBlanks_line_append (h : isBlank c = false) :
    skipBlanks (b.line depth ++ c :: r) = c :: r :=
  (b.blank_line depth).skipBlanks_append.trans (skipBlanks_cons h)

/-- An item is found behind the blanks before it. -/
theorem nextItem_chars (v : Value) (hr : Numeral.Ends r) :
    nextItem true (b.line depth ++ (b.chars depth v ++ r)) = .ok (true, b.chars depth v ++ r) ∧
      nextItem false (',' :: (b.line depth ++ (b.chars depth v ++ r)))
        = .ok (true, b.chars depth v ++ r) := by
  obtain ⟨c, t, htext, hc, hbracket⟩ := b.exists_chars_append depth v hr
  have hitem : skipBlanks (b.line depth ++ c :: t) = c :: t := b.skipBlanks_line_append hc
  rw [htext]
  exact ⟨nextItem_first hitem hbracket, nextItem_comma (skipBlanks_cons (by decide)) hitem hbracket⟩

/-- A key is found behind the blanks before it. -/
theorem nextKey_keyChars (key : String) (s : List Char) :
    nextKey true (b.line depth ++ (Value.keyChars key (':' :: b.colon) ++ s))
        = .ok (some key, ':' :: (b.colon ++ s)) ∧
      nextKey false (',' :: (b.line depth ++ (Value.keyChars key (':' :: b.colon) ++ s)))
        = .ok (some key, ':' :: (b.colon ++ s)) := by
  have htext : Value.keyChars key (':' :: b.colon) ++ s
      = '"' :: (key.toList.flatMap Quoted.encodeChar ++ '"' :: ':' :: (b.colon ++ s)) := by
    simp [Value.keyChars, Quoted.encode]
  have hread := Quoted.read_encode key (':' :: (b.colon ++ s))
  have hquote (t : List Char) : skipBlanks (b.line depth ++ '"' :: t) = '"' :: t :=
    b.skipBlanks_line_append (by decide)
  rw [htext]
  exact ⟨nextKey_first (hquote _) hread,
    nextKey_comma (skipBlanks_cons (by decide)) (hquote _) hread⟩

/-- An atom is spelled where it stands alone. -/
theorem spells_atom (depth : ℕ) (hr : Numeral.Ends r)
    (hv : Spells v s r = SpellsAtom v (skipBlanks s) r) (hs : s = b.chars depth v ++ r)
    (h : SpellsAtom v s r) : Spells v s r := by
  obtain ⟨c, t, htext, hc, -⟩ := b.exists_chars_append depth v hr
  rw [hv]
  rwa [hs, htext, skipBlanks_cons hc, ← htext, ← hs]

mutual

/-- **The text of a value spells it**, with any spacing and whatever follows that does not go on
with a number. -/
theorem spells_chars {r : List Char} (hr : Numeral.Ends r) (depth : ℕ) :
    ∀ v : Value, Spells v (b.chars depth v ++ r) r
  | .null => b.spells_atom depth hr rfl rfl (.inl readAtom_null)
  | .bool true => b.spells_atom depth hr rfl rfl (.inl readAtom_true)
  | .bool false => b.spells_atom depth hr rfl rfl (.inl readAtom_false)
  | .number n => b.spells_atom depth hr rfl rfl (spellsAtom_number n hr)
  | .string text => by
    refine b.spells_atom depth hr rfl rfl (.inl ?_)
    have hread := readAtom_string (Quoted.read_encode text r)
    simpa [chars, Value.compactChars, Quoted.encode] using hread
  | .array [] =>
    ⟨']' :: r, skipBlanks_cons (by decide), nextItem_close (skipBlanks_cons (by decide))⟩
  | .array (v :: vs) => by
    have hend : Numeral.Ends (']' :: r) := ends_bracket
    have hmore := b.ends_more depth (b.itemsChars (depth + 1) vs) hend
    rw [chars, itemsChars, container_cons]
    exact ⟨_, skipBlanks_cons (by decide), _, _, (b.nextItem_chars v hmore).1,
      spells_chars hmore (depth + 1) v, spells_moreItems r depth vs⟩
  | .object [] =>
    ⟨'\x7d' :: r, skipBlanks_cons (by decide), nextKey_close (skipBlanks_cons (by decide))⟩
  | .object ((key, v) :: es) => by
    have hend : Numeral.Ends ('\x7d' :: r) := ends_brace
    have hmore := b.ends_more depth (b.entriesChars (depth + 1) es) hend
    rw [chars, entriesChars, container_cons, List.append_assoc]
    exact ⟨_, skipBlanks_cons (by decide), _, _, _, (b.nextKey_keyChars key _).1, readColon_colon _,
      b.blank_colon.spells_append (spells_chars hmore (depth + 1) v),
      spells_moreEntries r depth es⟩

/-- The further items of an array are spelled up to its bracket. -/
theorem spells_moreItems (r : List Char) (depth : ℕ) : ∀ vs : List Value,
    SpellsItems false vs (b.more ']' depth (b.itemsChars (depth + 1) vs) r) (']' :: r)
  | [] => nextItem_close (b.skipBlanks_line_append (by decide))
  | v :: vs => by
    have hend : Numeral.Ends (']' :: r) := ends_bracket
    have hmore := b.ends_more depth (b.itemsChars (depth + 1) vs) hend
    rw [itemsChars, more_cons]
    exact ⟨_, _, (b.nextItem_chars v hmore).2, spells_chars hmore (depth + 1) v,
      spells_moreItems r depth vs⟩

/-- The further entries of an object are spelled up to its brace. -/
theorem spells_moreEntries (r : List Char) (depth : ℕ) : ∀ es : List (String × Value),
    SpellsEntries false es (b.more '\x7d' depth (b.entriesChars (depth + 1) es) r) ('\x7d' :: r)
  | [] => nextKey_close (b.skipBlanks_line_append (by decide))
  | (key, v) :: es => by
    have hend : Numeral.Ends ('\x7d' :: r) := ends_brace
    have hmore := b.ends_more depth (b.entriesChars (depth + 1) es) hend
    rw [entriesChars, more_cons, List.append_assoc]
    exact ⟨_, _, _, (b.nextKey_keyChars key _).2, readColon_colon _,
      b.blank_colon.spells_append (spells_chars hmore (depth + 1) v),
      spells_moreEntries r depth es⟩

end

end Spacing

/-- **The compact text of a value spells it.** -/
theorem spells_compact (v : Value) : Spells v v.compact.toList [] := by
  have htext := Spacing.tight.spells_chars Numeral.ends_nil 0 v
  rw [List.append_nil, Spacing.chars_tight] at htext
  rwa [Value.compact, String.toList_ofList]

/-- **The pretty text of a value spells it.** -/
theorem spells_pretty (v : Value) : Spells v v.pretty.toList [] := by
  have htext := Spacing.indented.spells_chars Numeral.ends_nil 0 v
  rw [List.append_nil, Spacing.chars_indented] at htext
  rwa [Value.pretty, String.toList_ofList]

end Exemplar.Json
