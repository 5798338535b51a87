import Exemplar.Proofs.TypeExpr.Height
import Exemplar.Sample.Synthesis

/-!
# Proofs/Sample/Container — the sample of a written container

    synthesize "[T]" field  =  array [synthesize "T" field]

A name is sampled by a text, by a number, or by a literal that is fixed (`ofName_cases`).  The
sample for the text of a container is built from the samples for the texts inside, taken with room
for one container less.  `synthesize_containers` gives the law for each way of writing a container,
with what it asks of the texts inside; an optional asks nothing and is `nil`.
-/

namespace Exemplar

open Text TypeExpr

namespace Sample

variable {overrides : Overrides} {room : ℕ} {hint name : String} {u : TypeExpr}

/-- The samples of names that neither the hint nor an override has a part in. -/
inductive Fixed : Literal → Prop
  | integer : Fixed (.integer sampleInt)
  | float : Fixed (.float sampleFloat)
  | bool : Fixed (.bool true)
  | delegate (text : String) : Fixed (.delegate text)

/-- A string takes the override, or else the hint. -/
theorem ofName_string :
    ofName overrides hint "String" = .string (overrides.string.getD ("Sample " ++ hint)) := by
  have hnamed : Primitive.named? "String" = some .string := rfl
  rw [ofName, hnamed]
  cases h : overrides.string <;> simp [Overrides.literal?, h]

theorem ofName_int : ofName overrides hint "Int" = .integer (overrides.int.getD sampleInt) := by
  have hnamed : Primitive.named? "Int" = some .int := rfl
  rw [ofName, hnamed]
  cases h : overrides.int <;> simp [Overrides.literal?, h]

/-- **Only `String` and `Int` have samples that are not fixed.** -/
theorem ofName_cases (name : String) :
    name = "String" ∨ name = "Int" ∨
      ∃ l, Fixed l ∧ ∀ overrides hint, ofName overrides hint name = l := by
  by_cases hs : name = "String"
  · exact .inl hs
  by_cases hi : name = "Int"
  · exact .inr (.inl hi)
  have hnamed : Primitive.named? name =
      if Primitive.sizedIntNames.contains name then some .sizedInt
      else if Primitive.floatNames.contains name then some .float
      else if name = "Bool" then some .bool else none := by
    rw [Primitive.named?, if_neg hs, if_neg hi]
  refine .inr (.inr ?_)
  split_ifs at hnamed
  · exact ⟨_, .integer, fun overrides hint => by rw [ofName, hnamed]⟩
  · exact ⟨_, .float, fun overrides hint => by rw [ofName, hnamed]⟩
  · exact ⟨_, .bool, fun overrides hint => by rw [ofName, hnamed]⟩
  · exact ⟨_, .delegate name, fun overrides hint => by rw [ofName, hnamed]⟩

theorem Fixed.ne_nil {l : Literal} (h : Fixed l) : l ≠ .nil := by
  rintro rfl
  cases h

/-- Only an optional is sampled by `nil`. -/
theorem ofName_ne_nil : ofName overrides hint name ≠ .nil := by
  obtain rfl | rfl | ⟨l, hl, heq⟩ := ofName_cases name
  · simp [ofName_string]
  · simp [ofName_int]
  · exact heq _ _ ▸ hl.ne_nil

/-- **Only an optional is sampled by `nil`.** -/
theorem within_eq_nil_iff : within overrides room hint u = .nil ↔ u.isOptional = true := by
  cases u with
  | named => simp [within, isOptional, ofName_ne_nil]
  | optional | unsplit => simp [within, isOptional]
  | array | set | dictionary => cases room <;> simp [within, isOptional]

end Sample

namespace Options

/-- The options with room for `m` nested containers. -/
def capped (o : Options) (m : ℕ) : Options := { o with maxDepth := m }

variable (o : Options) (m : ℕ) (field : String) {t k v : String}

/-- Brackets without a colon at their top are an array. -/
theorem synthesize_brackets (h : Roomy t) (hc : TopFree ':' t.toList) :
    (o.capped (m + 1)).synthesize ("[" ++ t ++ "]") field
      = .array [(o.capped m).synthesize t field] := by
  rw [synthesize, parse_brackets h hc]
  rfl

/-- `Array` is written out like brackets, but for the dash that would make its end an arrow. -/
theorem synthesize_array (h : Roomy t) (hl : t.toList.getLast? ≠ some '-') :
    (o.capped (m + 1)).synthesize ("Array<" ++ t ++ ">") field
      = .array [(o.capped m).synthesize t field] := by
  rw [synthesize, parse_array h hl]
  rfl

/-- A set samples one value, named as such. -/
theorem synthesize_set (h : Roomy t) (hl : t.toList.getLast? ≠ some '-') :
    (o.capped (m + 1)).synthesize ("Set<" ++ t ++ ">") field
      = .set [(o.capped m).synthesize t "set value"] := by
  rw [synthesize, parse_set h hl]
  rfl

/-- Brackets with one colon at their top are a dictionary. -/
theorem synthesize_colon (hk : Roomy k) (hv : Roomy v) (h : Entry ':' k.toList v.toList) :
    (o.capped (m + 1)).synthesize ("[" ++ k ++ ":" ++ v ++ "]") field
      = .dictionary [((o.capped m).synthesize k "key", (o.capped m).synthesize v "value")] := by
  rw [synthesize, parse_colon hk hv h]
  rfl

/-- `Dictionary` has a comma in the place of the colon. -/
theorem synthesize_dictionary (hk : Roomy k) (hv : Roomy v) (h : Entry ',' k.toList v.toList)
    (hl : v.toList.getLast? ≠ some '-') :
    (o.capped (m + 1)).synthesize ("Dictionary<" ++ k ++ "," ++ v ++ ">") field
      = .dictionary [((o.capped m).synthesize k "key", (o.capped m).synthesize v "value")] := by
  rw [synthesize, parse_dictionary hk hv h hl]
  rfl

theorem synthesize_eq_nil_iff : o.synthesize t field = .nil ↔ (parse t).isOptional = true :=
  Sample.within_eq_nil_iff

/-- **The sample for the text of a container, from the samples for the texts inside.**  A text with
brackets around it must not show the separator that would make it a dictionary, and a text before
an angle bracket must not end in a dash. -/
theorem synthesize_containers :
    (∀ t, Roomy t → TopFree ':' t.toList →
      (o.capped (m + 1)).synthesize ("[" ++ t ++ "]") field
        = .array [(o.capped m).synthesize t field])
    ∧ (∀ t, Roomy t → t.toList.getLast? ≠ some '-' →
      (o.capped (m + 1)).synthesize ("Array<" ++ t ++ ">") field
          = .array [(o.capped m).synthesize t field]
        ∧ (o.capped (m + 1)).synthesize ("Set<" ++ t ++ ">") field
          = .set [(o.capped m).synthesize t "set value"])
    ∧ (∀ k v, Roomy k → Roomy v → ¬ Blank k.toList → ¬ Blank v.toList →
      TopFree ':' k.toList → TopFree ':' v.toList →
      (o.capped (m + 1)).synthesize ("[" ++ k ++ ":" ++ v ++ "]") field
        = .dictionary [((o.capped m).synthesize k "key", (o.capped m).synthesize v "value")])
    ∧ (∀ k v, Roomy k → Roomy v → ¬ Blank k.toList → ¬ Blank v.toList →
      TopFree ',' k.toList → TopFree ',' v.toList → v.toList.getLast? ≠ some '-' →
      (o.capped (m + 1)).synthesize ("Dictionary<" ++ k ++ "," ++ v ++ ">") field
        = .dictionary [((o.capped m).synthesize k "key", (o.capped m).synthesize v "value")])
    ∧ (∀ t, (o.capped m).synthesize (t ++ "?") field = .nil)
    ∧ (∀ t, (o.capped m).synthesize ("Optional<" ++ t ++ ">") field = .nil
      ↔ Balanced t.toList ∧ t.toList.getLast? ≠ some '-') := by
  refine ⟨fun t => synthesize_brackets o m field, fun t ht hl => ?_,
    fun k v hk hv hkb hvb hkc hvc => ?_, fun k v hk hv hkb hvb hkc hvc => ?_, fun t => ?_,
    fun t => ?_⟩
  · exact ⟨synthesize_array o m field ht hl, synthesize_set o m field ht hl⟩
  · exact synthesize_colon o m field hk hv (hk.entry hv hkb hvb hkc hvc)
  · exact synthesize_dictionary o m field hk hv (hk.entry hv hkb hvb hkc hvc)
  · rw [synthesize_eq_nil_iff, isOptional_parse_question]
  · rw [synthesize_eq_nil_iff, isOptional_parse_generic_iff]
    exact ⟨fun h => ⟨h.balanced, h.last⟩, fun h => ⟨h.1, h.2⟩⟩

/-- A function type has parentheses and an arrow inside, none of which counts as a bracket. -/
theorem synthesize_containers_of_function :
    (capped {} 1).synthesize ("[" ++ "(A, B) -> C" ++ "]") "f"
        = .array [(capped {} 0).synthesize "(A, B) -> C" "f"]
      ∧ (capped {} 1).synthesize ("Set<" ++ "(A, B) -> C" ++ ">") "f"
        = .set [(capped {} 0).synthesize "(A, B) -> C" "set value"]
      ∧ (capped {} 1).synthesize ("[" ++ "String" ++ ":" ++ "(A, B) -> C" ++ "]") "f"
        = .dictionary [((capped {} 0).synthesize "String" "key",
          (capped {} 0).synthesize "(A, B) -> C" "value")]
      ∧ (capped {} 1).synthesize ("Dictionary<" ++ "String" ++ "," ++ "(A, B) -> C" ++ ">") "f"
        = .dictionary [((capped {} 0).synthesize "String" "key",
          (capped {} 0).synthesize "(A, B) -> C" "value")] := by
  have hs : Roomy "String" := ⟨by decide, by decide⟩
  have hf : Roomy "(A, B) -> C" := ⟨by decide, by decide⟩
  obtain ⟨hbrackets, hgeneric, hcolon, hdictionary, -⟩ := synthesize_containers {} 0 "f"
  refine ⟨hbrackets _ hf (by decide), (hgeneric _ hf (by decide)).2, hcolon _ _ hs hf ?_ ?_ ?_ ?_,
    hdictionary _ _ hs hf ?_ ?_ ?_ ?_ ?_⟩
  all_goals decide

end Options

end Exemplar
