import Exemplar.Proofs.Text.Enclosed
import Exemplar.Proofs.Text.Split
import Exemplar.TypeExpr.Parse

/-!
# Proofs/TypeExpr/Form — the outermost form of a type text, as a relation

`Form t l` lists the seven ways in which a trimmed text can be written, each with the conditions
that make it readable: a text between brackets is balanced, a generic argument does not end in a
dash, and key and value are visible and free of the separator.  `Layer.of` finds a form exactly
where there is one (`form_of`, `of_eq_of_form`), so reading a type can be argued on `Form` alone.
-/

namespace Exemplar.TypeExpr

open Exemplar.Text

/-! ## The ways of writing a type -/

/-- `[s]` -/
def bracketed (s : List Char) : List Char := '[' :: s ++ [']']

/-- `name<s>` -/
def generic (name : String) (s : List Char) : List Char := name.toList ++ '<' :: s ++ ['>']

/-- What can stand alone between the angle brackets of a generic type. -/
structure Argument (s : List Char) : Prop where
  balanced : Balanced s
  last : s.getLast? ≠ some '-'

/-- A key and a value that can stand on either side of the separator of a dictionary. -/
structure Entry (sep : Char) (k v : List Char) : Prop where
  key_balanced : Balanced k
  value_balanced : Balanced v
  key_topFree : TopFree sep k
  value_topFree : TopFree sep v
  key_visible : ¬ Blank k
  value_visible : ¬ Blank v

/-- A name that can stand before an angle bracket: it starts visibly, and has no brackets and no
separators of its own. -/
structure Word (name : String) : Prop where
  flat : Flat name.toList
  trimStart_eq : trimStart name.toList = name.toList
  visible : ¬ Blank name.toList
  colon : ':' ∉ name.toList
  comma : ',' ∉ name.toList

/-- The trimmed text `t` is written in the outermost form `l`. -/
inductive Form : List Char → Layer (List Char) → Prop
  | question (s) : Form (s ++ ['?']) (.optional s)
  | optional {s} (h : Argument s) : Form (generic "Optional" s) (.optional s)
  | brackets {s} (h : Balanced s) (hc : TopFree ':' s) : Form (bracketed s) (.array s)
  | colon {k v} (h : Entry ':' k v) : Form (bracketed (k ++ ':' :: v)) (.dictionary k v)
  | dictionary {k v} (h : Entry ',' k v) (hv : v.getLast? ≠ some '-') :
      Form (generic "Dictionary" (k ++ ',' :: v)) (.dictionary k v)
  | array {s} (h : Argument s) : Form (generic "Array" s) (.array s)
  | set {s} (h : Argument s) : Form (generic "Set" s) (.set s)

variable {s t k v : List Char} {l : Layer (List Char)} {sep : Char} {name : String} {n : ℕ}

theorem word_optional : Word "Optional" := by constructor <;> decide

theorem word_dictionary : Word "Dictionary" := by constructor <;> decide

theorem word_array : Word "Array" := by constructor <;> decide

theorem word_set : Word "Set" := by constructor <;> decide

/-- Key and value are balanced with the separator between them. -/
theorem Entry.balanced (h : Entry sep k v) (hs : Separator sep) : Balanced (k ++ sep :: v) :=
  (balanced_append_cons_iff hs h.key_balanced.depth_eq).2 ⟨h.key_balanced, h.value_balanced⟩

theorem bracketed_inj : bracketed k = bracketed v ↔ k = v := by simp [bracketed]

theorem generic_inj : generic name k = generic name v ↔ k = v := by simp [generic]

/-- An entry ends as its value does. -/
theorem Entry.getLast?_eq (h : Entry sep k v) : (k ++ sep :: v).getLast? = v.getLast? := by
  cases v using List.reverseRecOn with
  | nil => exact absurd blank_nil h.value_visible
  | append_singleton v c =>
    rw [← List.cons_append, ← List.append_assoc, List.getLast?_concat, List.getLast?_concat]

/-! ## The scan of a written type -/

theorem generic_eq (name : String) (s : List Char) :
    generic name s = name.toList ++ ('<' :: s ++ ['>']) := List.append_assoc _ _ _

theorem grounded_bracketed (h : Grounded s) : Grounded (bracketed s) :=
  h.wrap depth_square_open ']'

theorem depth_bracketed (s : List Char) : depth (bracketed s) = depth s :=
  depth_wrap depth_square_open tilt_square_close

theorem balanced_bracketed (h : Balanced s) : Balanced (bracketed s) :=
  h.wrap depth_square_open tilt_square_close

theorem grounded_generic (hn : Word name) (h : Grounded s) : Grounded (generic name s) :=
  generic_eq name s ▸ hn.flat.grounded.append (h.wrap depth_angle_open '>')

/-- The bracket of a generic closes unless a dash makes it an arrow. -/
theorem depth_generic (hn : Word name) (hs : s.getLast? ≠ some '-') :
    depth (generic name s) = depth s := by
  rw [generic_eq, depth_append (apart_of_head (by simp)), hn.flat.depth_eq, Int.zero_add]
  exact depth_wrap depth_angle_open ((tilt_angle_close_iff noChar_ne_dash).2 hs)

theorem balanced_generic (hn : Word name) (h : Argument s) : Balanced (generic name s) :=
  ⟨grounded_generic hn h.balanced.grounded, (depth_generic hn h.last).trans h.balanced.depth_eq⟩

/-! ## Finding the form -/

/-- The arguments of a generic are what stands between its brackets. -/
theorem arguments_eq_some_iff :
    Layer.arguments name t = some s ↔ t = generic name s ∧ Argument s := by
  simp only [Layer.arguments, Option.bind_eq_some_iff, List.isPrefixOf?_eq_some_iff_append_eq,
    enclosed_angle_iff]
  constructor
  · rintro ⟨_, rfl, rfl, hb, hl⟩
    exact ⟨by simp [generic], hb, hl⟩
  · rintro ⟨rfl, hb, hl⟩
    exact ⟨_, by simp [generic], rfl, hb, hl⟩

theorem ofParts_pair (hk : ¬ Blank k) (hv : ¬ Blank v) :
    Layer.ofParts [k, v] = .dictionary k v := by
  simp [Layer.ofParts, trim_eq_nil_iff, hk, hv]

/-- Parts that are not one key and one value stay unsplit. -/
theorem ofParts_cases (ps : List (List Char)) : Layer.ofParts ps = .unsplit
    ∨ ∃ k v, ps = [k, v] ∧ ¬ Blank k ∧ ¬ Blank v ∧ Layer.ofParts ps = .dictionary k v := by
  match ps with
  | [] | [_] | _ :: _ :: _ :: _ => exact Or.inl rfl
  | [k, v] =>
    by_cases hk : Blank k
    · simp [Layer.ofParts, trim_eq_nil_iff, hk]
    by_cases hv : Blank v
    · simp [Layer.ofParts, trim_eq_nil_iff, hv]
    exact Or.inr ⟨k, v, rfl, hk, hv, ofParts_pair hk hv⟩

theorem ofBrackets_of_topFree (h : TopFree ':' s) : Layer.ofBrackets s = .array s := by
  rw [Layer.ofBrackets, splitTop_of_topFree h]

theorem ofBrackets_of_not_topFree (h : ¬ TopFree ':' s) :
    Layer.ofBrackets s = Layer.ofParts (splitTop ':' s) := by
  match hps : splitTop ':' s with
  | [] => exact absurd hps (splitTop_ne_nil ':' s)
  | [p] =>
    obtain rfl := eq_of_splitTop_eq_singleton hps
    exact absurd ((splitTop_eq_singleton_iff separator_colon.not_bracket).1 hps) h
  | p :: q :: ps => rw [Layer.ofBrackets, hps]

/-- A balanced text that splits in two visible parts is an entry. -/
theorem entry_of_split (hs : Separator sep) (hb : Balanced s) (h : splitTop sep s = [k, v])
    (hk : ¬ Blank k) (hv : ¬ Blank v) :
    s = k ++ sep :: v ∧ Entry sep k v := by
  obtain ⟨rfl, hd, hfk, hfv⟩ := (splitTop_eq_pair_iff hs).1 h
  obtain ⟨hbk, hbv⟩ := (balanced_append_cons_iff hs hd).1 hb
  exact ⟨rfl, hbk, hbv, hfk, hfv, hk, hv⟩

/-- An entry is split into its key and its value. -/
theorem ofParts_of_entry (h : Entry sep k v) (hs : Separator sep) :
    Layer.ofParts (splitTop sep (k ++ sep :: v)) = .dictionary k v := by
  have hsplit : splitTop sep (k ++ sep :: v) = [k, v] := (splitTop_eq_pair_iff hs).2
    ⟨rfl, h.key_balanced.depth_eq, h.key_topFree, h.value_topFree⟩
  rw [hsplit, ofParts_pair h.key_visible h.value_visible]

/-- **Brackets with a text that is balanced are an array or a dictionary**, or cannot be split. -/
theorem form_ofBrackets (h : Balanced s) :
    Layer.ofBrackets s = .unsplit ∨ Form (bracketed s) (Layer.ofBrackets s) := by
  by_cases hc : TopFree ':' s
  · rw [ofBrackets_of_topFree hc]
    exact Or.inr (.brackets h hc)
  rw [ofBrackets_of_not_topFree hc]
  rcases ofParts_cases (splitTop ':' s) with hu | ⟨k, v, hsplit, hk, hv, hd⟩
  · exact Or.inl hu
  · obtain ⟨rfl, he⟩ := entry_of_split separator_colon h hsplit hk hv
    rw [hd]
    exact Or.inr (.colon he)

theorem form_ofParts (h : Argument s) : Layer.ofParts (splitTop ',' s) = .unsplit
    ∨ Form (generic "Dictionary" s) (Layer.ofParts (splitTop ',' s)) := by
  rcases ofParts_cases (splitTop ',' s) with hu | ⟨k, v, hsplit, hk, hv, hd⟩
  · exact Or.inl hu
  · obtain ⟨rfl, he⟩ := entry_of_split separator_comma h.balanced hsplit hk hv
    rw [hd]
    exact Or.inr (.dictionary he (he.getLast?_eq ▸ h.last))

/-- **Every text is a name, or stays unsplit, or is written in one of the forms.** -/
theorem form_of (t : List Char) :
    Layer.of t = .name ∨ Layer.of t = .unsplit ∨ Form t (Layer.of t) := by
  unfold Layer.of
  split
  case isTrue hq =>
    obtain ⟨s, rfl⟩ := List.getLast?_eq_some_iff.1 hq
    rw [List.dropLast_concat]
    exact Or.inr (Or.inr (.question s))
  split
  case h_1 s h =>
    obtain ⟨rfl, hs⟩ := arguments_eq_some_iff.1 h
    exact Or.inr (Or.inr (.optional hs))
  split
  case h_1 s h =>
    obtain ⟨rfl, hs⟩ := enclosed_square_iff.1 h
    exact Or.inr (form_ofBrackets hs)
  split
  case h_1 s h =>
    obtain ⟨rfl, hs⟩ := arguments_eq_some_iff.1 h
    exact Or.inr (form_ofParts hs)
  split
  case h_1 s h =>
    obtain ⟨rfl, hs⟩ := arguments_eq_some_iff.1 h
    exact Or.inr (Or.inr (.array hs))
  split
  case h_1 s h =>
    obtain ⟨rfl, hs⟩ := arguments_eq_some_iff.1 h
    exact Or.inr (Or.inr (.set hs))
  case h_2 => exact Or.inl rfl

/-! ## Each form is found

A form is found once the tests before its own have failed, which the first character of the text is
enough to see. -/

theorem arguments_generic (h : Argument s) : Layer.arguments name (generic name s) = some s :=
  arguments_eq_some_iff.2 ⟨rfl, h⟩

theorem getLast?_generic (name : String) (s : List Char) : (generic name s).getLast? = some '>' :=
  List.getLast?_concat

theorem getLast?_bracketed (s : List Char) : (bracketed s).getLast? = some ']' :=
  List.getLast?_concat

/-- Brackets around a balanced text are taken as such, before any other way of writing a type. -/
theorem of_bracketed (h : Balanced s) : Layer.of (bracketed s) = Layer.ofBrackets s := by
  have ho : Layer.arguments "Optional" (bracketed s) = none := rfl
  have he : enclosed '[' ']' (bracketed s) = some s := enclosed_square_iff.2 ⟨rfl, h⟩
  simp [Layer.of, getLast?_bracketed, ho, he]

theorem of_optional_of_not (h : ¬ Argument s) : Layer.of (generic "Optional" s) = .name := by
  have ho : Layer.arguments "Optional" (generic "Optional" s) = none := by
    refine Option.eq_none_iff_forall_ne_some.2 fun a ha => h ?_
    obtain ⟨hs, harg⟩ := arguments_eq_some_iff.1 ha
    exact generic_inj.1 hs ▸ harg
  have he : enclosed '[' ']' (generic "Optional" s) = none := rfl
  have hd : Layer.arguments "Dictionary" (generic "Optional" s) = none := rfl
  have ha : Layer.arguments "Array" (generic "Optional" s) = none := rfl
  have hset : Layer.arguments "Set" (generic "Optional" s) = none := rfl
  simp [Layer.of, getLast?_generic, ho, he, hd, ha, hset]

theorem of_dictionary (h : Argument s) :
    Layer.of (generic "Dictionary" s) = Layer.ofParts (splitTop ',' s) := by
  have ho : Layer.arguments "Optional" (generic "Dictionary" s) = none := rfl
  have he : enclosed '[' ']' (generic "Dictionary" s) = none := rfl
  simp [Layer.of, getLast?_generic, ho, he, arguments_generic h]

theorem of_array (h : Argument s) : Layer.of (generic "Array" s) = .array s := by
  have ho : Layer.arguments "Optional" (generic "Array" s) = none := rfl
  have he : enclosed '[' ']' (generic "Array" s) = none := rfl
  have hd : Layer.arguments "Dictionary" (generic "Array" s) = none := rfl
  simp [Layer.of, getLast?_generic, ho, he, hd, arguments_generic h]

theorem of_set (h : Argument s) : Layer.of (generic "Set" s) = .set s := by
  have ho : Layer.arguments "Optional" (generic "Set" s) = none := rfl
  have he : enclosed '[' ']' (generic "Set" s) = none := rfl
  have hd : Layer.arguments "Dictionary" (generic "Set" s) = none := rfl
  have ha : Layer.arguments "Array" (generic "Set" s) = none := rfl
  simp [Layer.of, getLast?_generic, ho, he, hd, ha, arguments_generic h]

/-- **The form a text is written in is the one that is found.** -/
theorem of_eq_of_form (h : Form t l) : Layer.of t = l := by
  cases h with
  | question s => simp [Layer.of]
  | optional h => simp [Layer.of, getLast?_generic, arguments_generic h]
  | brackets h hc => rw [of_bracketed h, ofBrackets_of_topFree hc]
  | @colon k v h =>
    have hc : ¬ TopFree ':' (k ++ ':' :: v) := fun hf => hf k v rfl h.key_balanced.depth_eq
    rw [of_bracketed (h.balanced separator_colon), ofBrackets_of_not_topFree hc,
      ofParts_of_entry h separator_colon]
  | dictionary h hv =>
    have ha : Argument _ := ⟨h.balanced separator_comma, h.getLast?_eq ▸ hv⟩
    rw [of_dictionary ha, ofParts_of_entry h separator_comma]
  | array h => exact of_array h
  | set h => exact of_set h

/-! ## Reading what is written -/

theorem parseWithin_succ (n : ℕ) (s : List Char) : parseWithin (n + 1) s
    = ((Layer.of (trim s)).map (parseWithin n)).toType (trim s) := rfl

@[simp] theorem parseWithin_trim (n : ℕ) (s : List Char) :
    parseWithin n (trim s) = parseWithin n s := by
  cases n <;> simp [parseWithin]

@[simp] theorem parseWithin_trimStart (n : ℕ) (s : List Char) :
    parseWithin n (trimStart s) = parseWithin n s := by
  rw [← parseWithin_trim, trim_trimStart, parseWithin_trim]

/-- Blanks around an annotation are not seen. -/
theorem parse_trimmed (s : String) : parse (trimmed s) = parse s := by
  rw [parse, trimmed, String.toList_ofList, parseWithin_trim, parse]

/-- Blanks around a type are not seen. -/
theorem parseWithin_pad {l r : List Char} (hl : Blank l) (hr : Blank r) :
    parseWithin n (l ++ s ++ r) = parseWithin n s := by
  rw [← parseWithin_trim, trim_pad hl hr, parseWithin_trim]

theorem trim_bracketed (s : List Char) : trim (bracketed s) = bracketed s :=
  trim_between (by decide) (by decide)

theorem trim_generic (h : Word name) : trim (generic name s) = generic name s := by
  rw [generic, trim_concat (by decide), trimStart_append_right h.visible, h.trimStart_eq]

/-- **One level of reading peels the form off.** -/
theorem parseWithin_of_form (ht : trim s = t) (h : Form t l) :
    parseWithin (n + 1) s = (l.map (parseWithin n)).toType t := by
  rw [parseWithin_succ, ht, of_eq_of_form h]

/-- A question mark makes an optional of what stands before it. -/
theorem parseWithin_question (n : ℕ) (s : List Char) :
    parseWithin (n + 1) (s ++ ['?']) = .optional (parseWithin n s) := by
  rw [parseWithin_of_form (trim_concat (by decide)) (.question _), Layer.map, Layer.toType,
    parseWithin_trimStart]

theorem parseWithin_optional (h : Argument s) :
    parseWithin (n + 1) (generic "Optional" s) = .optional (parseWithin n s) :=
  parseWithin_of_form (trim_generic word_optional) (.optional h)

theorem parseWithin_brackets (h : Balanced s) (hc : TopFree ':' s) :
    parseWithin (n + 1) (bracketed s) = .array (parseWithin n s) :=
  parseWithin_of_form (trim_bracketed s) (.brackets h hc)

theorem parseWithin_colon (h : Entry ':' k v) : parseWithin (n + 1) (bracketed (k ++ ':' :: v))
    = .dictionary (parseWithin n k) (parseWithin n v) :=
  parseWithin_of_form (trim_bracketed _) (.colon h)

theorem parseWithin_dictionary (h : Entry ',' k v) (hv : v.getLast? ≠ some '-') :
    parseWithin (n + 1) (generic "Dictionary" (k ++ ',' :: v))
      = .dictionary (parseWithin n k) (parseWithin n v) :=
  parseWithin_of_form (trim_generic word_dictionary) (.dictionary h hv)

theorem parseWithin_array (h : Argument s) :
    parseWithin (n + 1) (generic "Array" s) = .array (parseWithin n s) :=
  parseWithin_of_form (trim_generic word_array) (.array h)

theorem parseWithin_set (h : Argument s) :
    parseWithin (n + 1) (generic "Set" s) = .set (parseWithin n s) :=
  parseWithin_of_form (trim_generic word_set) (.set h)

/-! ## What a text that reads as a container is written as -/

/-- **What reads as more than a name or an unsplit dictionary has a form.** -/
theorem exists_form {u : TypeExpr} (h : parseWithin (n + 1) s = u) (hn : ∀ x, u ≠ .named x)
    (hu : ∀ x, u ≠ .unsplit x) :
    ∃ l, Form (trim s) l ∧ (l.map (parseWithin n)).toType (trim s) = u := by
  rw [parseWithin_succ] at h
  rcases form_of (trim s) with hl | hl | hl
  · rw [hl] at h
    exact absurd h.symm (hn _)
  · rw [hl] at h
    exact absurd h.symm (hu _)
  · exact ⟨_, hl, h⟩

/-- **Induction along the reading of a text**: a property of what is read, within how many levels
and from which text, that holds of the leaves, goes from the texts inside a form to the form, and
does not see blanks around a text. -/
theorem parseWithin_induct {P : ℕ → TypeExpr → List Char → Prop}
    (hname : ∀ n t, trim t = t → parseWithin n t = .named (String.ofList t) →
      P n (.named (String.ofList t)) t)
    (hunsplit : ∀ n t, trim t = t → parseWithin n t = .unsplit (String.ofList t) →
      P n (.unsplit (String.ofList t)) t)
    (hform : ∀ n t l, Form t l → (∀ s, P n (parseWithin n s) s) →
      P (n + 1) ((l.map (parseWithin n)).toType t) t)
    (htrim : ∀ n u s, P n u (trim s) → P n u s) (n : ℕ) (s : List Char) :
    P n (parseWithin n s) s := by
  induction n generalizing s with
  | zero => exact htrim _ _ s (hname 0 _ (trim_trim s) (by rw [parseWithin, trim_trim]))
  | succ n ih =>
    refine htrim _ _ s ?_
    have hread := parseWithin_trim (n + 1) s
    rcases form_of (trim s) with h | h | h
    · rw [parseWithin_succ n s, h] at hread ⊢
      exact hname _ _ (trim_trim s) hread
    · rw [parseWithin_succ n s, h] at hread ⊢
      exact hunsplit _ _ (trim_trim s) hread
    · exact hform _ _ _ h ih

end Exemplar.TypeExpr
