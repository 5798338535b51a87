import Exemplar.Proofs.TypeExpr.Form

/-!
# Proofs/TypeExpr/Height — reading a container around a text that leaves room

A text whose type stays below the limit of levels reads the same within one level less
(`parseWithin_eq_of_height_le`), so a container written around it holds the very type that the text
has on its own.  The equations after `Roomy` say so for each way of writing a container.
-/

namespace Exemplar.TypeExpr

open Exemplar.Text

/-- How many nodes other than names are nested. -/
def height : TypeExpr → ℕ
  | named _ => 0
  | unsplit _ => 1
  | optional t => t.height + 1
  | array t => t.height + 1
  | set t => t.height + 1
  | dictionary k v => max k.height v.height + 1

variable {n : ℕ} {s : List Char}

/-- A reading does not nest more than it has levels. -/
theorem height_parseWithin_le (n : ℕ) (s : List Char) : (parseWithin n s).height ≤ n := by
  induction n generalizing s with
  | zero => exact Nat.le_refl 0
  | succ n ih =>
    rw [parseWithin_succ]
    cases Layer.of (trim s) with
    | name => exact Nat.zero_le _
    | unsplit => exact Nat.le_add_left 1 n
    | optional w | array w | set w => exact Nat.succ_le_succ (ih w)
    | dictionary k v => exact Nat.succ_le_succ (Nat.max_le.2 ⟨ih k, ih v⟩)

/-- **A level that is not used can be left out.** -/
theorem parseWithin_eq_of_height_le (h : (parseWithin (n + 1) s).height ≤ n) :
    parseWithin n s = parseWithin (n + 1) s := by
  induction n generalizing s with
  | zero =>
    rw [parseWithin_succ] at h ⊢
    cases hl : Layer.of (trim s) with
    | name => rfl
    | _ => simp [hl, Layer.map, Layer.toType, height] at h
  | succ n ih =>
    rw [parseWithin_succ] at h
    rw [parseWithin_succ, parseWithin_succ (n + 1)]
    cases hl : Layer.of (trim s) with
    | name | unsplit => rfl
    | optional w | array w | set w =>
      rw [hl] at h
      have hw := ih (Nat.le_of_succ_le_succ h)
      rw [Layer.map, Layer.map, hw]
    | dictionary k v =>
      rw [hl] at h
      obtain ⟨hk, hv⟩ := Nat.max_le.1 (Nat.le_of_succ_le_succ h)
      rw [Layer.map, Layer.map, ih hk, ih hv]

/-! ## Texts with room for one more level -/

/-- A balanced text that is read with a level to spare. -/
structure Roomy (s : String) : Prop where
  balanced : Balanced s.toList
  height_lt : (parse s).height < maxLevels

variable {t k v : String} {sep : Char}

/-- With room for one more level, a type is read alike one level down. -/
theorem Roomy.parseWithin_eq (h : Roomy t) : parseWithin 63 t.toList = parse t :=
  parseWithin_eq_of_height_le (Nat.le_of_lt_succ h.height_lt)

theorem Roomy.entry (hk : Roomy k) (hv : Roomy v) (hkb : ¬ Blank k.toList)
    (hvb : ¬ Blank v.toList) (hkf : TopFree sep k.toList) (hvf : TopFree sep v.toList) :
    Entry sep k.toList v.toList := ⟨hk.balanced, hv.balanced, hkf, hvf, hkb, hvb⟩

theorem parse_brackets (h : Roomy t) (hc : TopFree ':' t.toList) :
    parse ("[" ++ t ++ "]") = .array (parse t) := by
  have ht : ("[" ++ t ++ "]").toList = bracketed t.toList := by simp [bracketed]
  rw [parse, ht, maxLevels, parseWithin_brackets h.balanced hc, h.parseWithin_eq]

theorem parse_colon (hk : Roomy k) (hv : Roomy v) (h : Entry ':' k.toList v.toList) :
    parse ("[" ++ k ++ ":" ++ v ++ "]") = .dictionary (parse k) (parse v) := by
  have ht : ("[" ++ k ++ ":" ++ v ++ "]").toList = bracketed (k.toList ++ ':' :: v.toList) := by
    simp [bracketed]
  rw [parse, ht, maxLevels, parseWithin_colon h, hk.parseWithin_eq, hv.parseWithin_eq]

theorem parse_array (h : Roomy t) (hl : t.toList.getLast? ≠ some '-') :
    parse ("Array<" ++ t ++ ">") = .array (parse t) := by
  have ht : ("Array<" ++ t ++ ">").toList = generic "Array" t.toList := by simp [generic]
  rw [parse, ht, maxLevels, parseWithin_array ⟨h.balanced, hl⟩, h.parseWithin_eq]

theorem parse_set (h : Roomy t) (hl : t.toList.getLast? ≠ some '-') :
    parse ("Set<" ++ t ++ ">") = .set (parse t) := by
  have ht : ("Set<" ++ t ++ ">").toList = generic "Set" t.toList := by simp [generic]
  rw [parse, ht, maxLevels, parseWithin_set ⟨h.balanced, hl⟩, h.parseWithin_eq]

theorem parse_dictionary (hk : Roomy k) (hv : Roomy v) (h : Entry ',' k.toList v.toList)
    (hl : v.toList.getLast? ≠ some '-') :
    parse ("Dictionary<" ++ k ++ "," ++ v ++ ">") = .dictionary (parse k) (parse v) := by
  have ht : ("Dictionary<" ++ k ++ "," ++ v ++ ">").toList
      = generic "Dictionary" (k.toList ++ ',' :: v.toList) := by
    simp [generic]
  rw [parse, ht, maxLevels, parseWithin_dictionary h hl, hk.parseWithin_eq, hv.parseWithin_eq]

/-! ## Optionals

What an optional wraps need not leave room: that it is one is seen at the first level. -/

theorem isOptional_parse_question (t : String) : (parse (t ++ "?")).isOptional = true := by
  have ht : (t ++ "?").toList = t.toList ++ ['?'] := by simp
  rw [parse, ht, maxLevels, parseWithin_question, isOptional]

/-- An optional is written out around an argument, which is balanced and does not end in the dash of
an arrow. -/
theorem isOptional_parse_generic_iff :
    (parse ("Optional<" ++ t ++ ">")).isOptional = true ↔ Argument t.toList := by
  have ht : ("Optional<" ++ t ++ ">").toList = generic "Optional" t.toList := by simp [generic]
  rw [parse, ht, maxLevels]
  by_cases h : Argument t.toList
  · simp [parseWithin_optional h, isOptional, h]
  · rw [parseWithin_succ, trim_generic word_optional, of_optional_of_not h]
    simp [Layer.map, Layer.toType, isOptional, h]

end Exemplar.TypeExpr
