import Exemplar.Proofs.Command.Expand
import Exemplar.Proofs.Decl.RoundTrip
import Exemplar.Proofs.Sample.Log
import Exemplar.Proofs.Sample.Override
import Exemplar.Proofs.TypeExpr.Form

/-!
# Proofs/Command/Fields — the three commands tell the same of a declaration

    fields   ▸  tags: [String]            fields --all   ▸  tags: [String],  count: Int = 0
    expand   ▸  Model(tags: ["Sample tags"])
    literal "[String]" --field tags       ▸  ["Sample tags"]

What `fields` reports are the fields that `expand` makes arguments of, unless it reports all, and a
reader of the report gets them back (`ofText_reports`).  The text of each argument is what `literal`
shows for the type and the name reported, and for the annotation as it stands in the declaration too
(`commands_agree`).
-/

namespace Exemplar

open Text

namespace Decl

variable {d : Decl} {f : Field}

/-- The fields described are the stored bindings that have something to go by. -/
theorem mem_described : f ∈ d.described ↔ ∃ s ∈ d.stored, ¬ s.2.Untyped ∧ f = .ofStored s := by
  rw [described_eq, List.mem_map]
  simp only [List.mem_filter, decide_eq_true_eq, and_assoc, eq_comm (b := f)]

/-- **A field that needs a value has a type to go by**, which is trimmed. -/
theorem trimmed_declaredType (h : f ∈ d.described) (hf : f.hasInitializer = false) :
    f.declaredType ≠ "" ∧ trimmed f.declaredType = f.declaredType := by
  obtain ⟨s, -, htyped, rfl⟩ := mem_described.1 h
  have hnone : s.2.initializer = none := by simpa [Field.ofStored] using hf
  refine ⟨fun hempty => htyped ⟨hnone, Binding.shownType_eq_empty_iff.1 hempty⟩, ?_⟩
  simp [Field.ofStored, Binding.shownType, trimmed]

end Decl

namespace Command

variable {t t' : FileTree} {inputs : List String} {ds : List Decl} {d : Decl} {o : Options}
  {settings : Settings} {pss : List (List String)} {docs : List (List Decl)}

/-! ## What is reported -/

/-- All fields are those described; the others are those to be sampled. -/
theorem reported_eq (all : Bool) (d : Decl) :
    reported all d = if all then d.described else d.extracted := by
  cases all with
  | false => rfl
  | true => exact List.filter_eq_self.2 fun _ _ => rfl

/-- A declaration with its fields as JSON. -/
def report (d : Decl) (fields : List Field) : Json.Value :=
  .object [("aggregate", .string d.name), ("kind", .string d.kind.keyword),
    ("fields", .array (fields.map fun f =>
      .object [("name", .string f.name), ("declared_type", .string f.declaredType),
        ("has_initializer", .bool f.hasInitializer)]))]

/-- What `fields` reports of declarations: all of their fields, or those without an initializer. -/
def reports (all : Bool) (ds : List Decl) : Json.Value :=
  .array (ds.map fun d => report d (if all then d.described else d.extracted))

/-- What holds of three things holds of all in the list of them. -/
theorem forall_mem_three {α : Type} {p : α → Prop} {a b c : α} :
    (∀ x ∈ [a, b, c], p x) ↔ p a ∧ p b ∧ p c := by
  simp only [List.forall_mem_cons, List.not_mem_nil, false_implies, implies_true, and_true]

/-- A report repeats no keys. -/
theorem plain_report (d : Decl) (fields : List Field) : (report d fields).Plain := by
  have hkeys : ["aggregate", "kind", "fields"].Nodup := by decide
  have hkeysOfField : ["name", "declared_type", "has_initializer"].Nodup := by decide
  refine Json.Value.plain_object.2 ⟨hkeys, forall_mem_three.2 ?_⟩
  refine ⟨Json.Value.plain_string _, Json.Value.plain_string _, Json.Value.plain_array_map ?_ _⟩
  intro f
  refine Json.Value.plain_object.2 ⟨hkeysOfField, forall_mem_three.2 ?_⟩
  exact ⟨Json.Value.plain_string _, Json.Value.plain_string _, Json.Value.plain_bool _⟩

/-- A report holds the object of a field in the array of all, in the object of their declaration. -/
theorem nesting_report_le (d : Decl) (fields : List Field) : (report d fields).nesting ≤ 3 := by
  refine Json.Value.nesting_object_le.2 (forall_mem_three.2 ⟨Nat.zero_le _, Nat.zero_le _, ?_⟩)
  refine Json.Value.nesting_array_le.2 (List.forall_mem_map.2 fun f _ => ?_)
  exact Json.Value.nesting_object_le.2 (forall_mem_three.2
    ⟨Nat.zero_le _, Nat.zero_le _, Nat.zero_le _⟩)

/-- **The text of a report tells the fields**: reading it gives back name, type and initializer of
each. -/
theorem ofText_reports (all : Bool) (ds : List Decl) :
    Json.Value.ofText (reports all ds).pretty = .ok (reports all ds) := by
  refine Json.Value.ofText_pretty (Json.Value.plain_array_map (fun d => plain_report d _) ds) ?_
  have hnesting : (reports all ds).nesting ≤ 4 :=
    Json.Value.nesting_array_le.2 (List.forall_mem_map.2 fun d _ => nesting_report_le d _)
  exact hnesting.trans (by decide)

/-- What is logged by a run of `fields` over so many files: that they are loaded, and the fields
that have nothing to go by. -/
def fieldsLog (files : ℕ) (ds : List Decl) : Log :=
  ⟨.loaded files ds.length :: ds.flatMap fun d => d.untyped.map fun s => .untyped d.name s.1, []⟩

/-- **A run of `fields`** prints its report, or writes it to a file. -/
theorem run_fields (all : Bool) (out : Option String) (h : Loads t inputs pss docs) :
    let text := (reports all docs.flatten).pretty
    let log := fieldsLog pss.flatten.length docs.flatten
    (out = none → run t (.fields inputs all out) = ⟨0, text, "", t, log⟩) ∧
      ∀ path t', out = some path → writeFile t path text = .ok t' →
        run t (.fields inputs all out) = ⟨0, "", "", t', log⟩ ∧ t'.read path = .ok text := by
  intro text log
  have hrun : run t (.fields inputs all out) = finish t out text "" none log := by
    have hdescribed : (fun d : Decl => d.untyped.map fun s => .untyped d.name s.1)
        = Decl.describeEvents := funext fun _ => Decl.describeEvents_eq.symm
    rw [run, runFields, h.load_eq]
    simp only [h.loadEvents_eq, text, log, reports, fieldsLog, ← reported_eq, hdescribed]
    rfl
  refine ⟨?_, ?_⟩
  · rintro rfl
    exact hrun
  · rintro path t' rfl hwrite
    exact ⟨hrun.trans (finish_eq_of_writeFile hwrite), (file?_writeFile hwrite).1⟩

/-! ## What is shown -/

/-- The text of the literal for a type, as the sample of `field`. -/
def shown (o : Options) (type field : String) : String :=
  (o.synthesize type field).render o.accessor

/-- **A run of `literal`** prints the text of the literal. -/
theorem run_literal (h : settings.options = .ok o) (t : FileTree) (type field : String) :
    run t (.literal type field settings)
      = ⟨0, shown o type field ++ "\n", "", t, ⟨o.sampleEvents (.parse type), []⟩⟩ := by
  rw [run, runLiteral, h]
  rfl

/-- Blanks around a type are not seen. -/
theorem shown_trimmed (o : Options) (type field : String) :
    shown o (trimmed type) field = shown o type field := by
  rw [shown, shown, Options.synthesize, Options.synthesize, TypeExpr.parse_trimmed]

/-- There are settings for all options. -/
theorem exists_options_eq (o : Options) : ∃ settings : Settings, settings.options = .ok o := by
  refine ⟨⟨o.overrides.pairs, o.maxDepth, o.accessor⟩, ?_⟩
  rw [Settings.options, Overrides.ofPairs_pairs]

/-- **An argument is what is shown for its field.** -/
theorem pairs_expand (o : Options) (hd : d.kind = .struct) :
    ∃ x, d.expand o = .ok x ∧
      x.pairs = d.extracted.map fun f => (f.name, shown o f.declaredType f.name) := by
  refine ⟨_, if_pos hd, ?_⟩
  rw [Expansion.pairs, List.map_map]
  rfl

/-- What a sampled binding shows by its annotation is what its field shows by the trimmed one. -/
theorem exists_shown_eq (o : Options) {s : String × Binding} (hs : s ∈ d.sampled) :
    ∃ type ∈ s.2.declaredType, shown o type s.1 = shown o s.2.shownType s.1 := by
  have hsampled : s.2.Sampled := of_decide_eq_true (List.mem_filter.1 hs).2
  obtain ⟨-, type, htype, -⟩ := hsampled
  refine ⟨type, htype, ?_⟩
  rw [Binding.shownType, htype, Option.getD_some, shown_trimmed]

/-- **The three commands tell the same of a declaration.** Of every declaration it loads `fields`
reports all fields, which are the stored bindings that have something to go by, or those without an
initializer, which have a type that is trimmed. There is a sample of every struct: its arguments are
these latter fields, in order, each with the text that `literal` prints under settings for the same
options, be it for the type reported or for the type as declared. -/
theorem commands_agree (d : Decl) (o : Options) :
    (∀ t inputs all out pss docs, Loads t inputs pss docs →
      let text := (reports all docs.flatten).pretty
      let log := fieldsLog pss.flatten.length docs.flatten
      Json.Value.ofText text = .ok (reports all docs.flatten) ∧
      (out = none → run t (.fields inputs all out) = ⟨0, text, "", t, log⟩) ∧
        ∀ path t', out = some path → writeFile t path text = .ok t' →
          run t (.fields inputs all out) = ⟨0, "", "", t', log⟩ ∧ t'.read path = .ok text) ∧
    List.Forall₂ Member.Stores (d.members.filter Member.IsStored) d.stored ∧
    d.described = (d.stored.filter fun s => ¬ s.2.Untyped).map Field.ofStored ∧
    d.extracted = d.described.filter (fun f => !f.hasInitializer) ∧
    (∀ f ∈ d.described, f.hasInitializer = false →
      f.declaredType ≠ "" ∧ trimmed f.declaredType = f.declaredType) ∧
    (∃ settings : Settings, settings.options = .ok o) ∧
    (d.kind = .struct → ∃ x, d.expand o = .ok x ∧
      List.Forall₂ (fun (f : Field) p => p.1 = f.name ∧
        ∀ (settings : Settings) t, settings.options = .ok o →
          run t (.literal f.declaredType f.name settings)
            = ⟨0, p.2 ++ "\n", "", t, ⟨o.sampleEvents (.parse f.declaredType), []⟩⟩)
        d.extracted x.pairs ∧
      List.Forall₂ (fun (s : String × Binding) p => p.1 = s.1 ∧ ∃ type ∈ s.2.declaredType,
        ∀ (settings : Settings) t, settings.options = .ok o →
          run t (.literal type s.1 settings)
            = ⟨0, p.2 ++ "\n", "", t, ⟨o.sampleEvents (.parse type), []⟩⟩)
        d.sampled x.pairs) := by
  refine ⟨fun t inputs all out pss docs h => ⟨ofText_reports all _, run_fields all out h⟩,
    Decl.forall₂_stored, Decl.described_eq, rfl, fun f => Decl.trimmed_declaredType,
    exists_options_eq o, fun hd => ?_⟩
  obtain ⟨x, hx, hpairs⟩ := pairs_expand o hd
  refine ⟨x, hx, ?_, ?_⟩
  · rw [hpairs, List.forall₂_map_right_iff, List.forall₂_same]
    exact fun f _ => ⟨rfl, fun settings t h => run_literal h t _ _⟩
  -- the type as declared is the type reported with blanks around it, which are not seen
  · rw [hpairs, Decl.extracted_eq, List.map_map, List.forall₂_map_right_iff, List.forall₂_same]
    intro s hs
    obtain ⟨type, htype, hshown⟩ := exists_shown_eq o hs
    refine ⟨rfl, type, htype, fun settings t h => ?_⟩
    rw [run_literal h, hshown]
    rfl

/-- A struct with a field to be sampled, one with an initializer and one with nothing to go by. -/
def tagged : Decl :=
  ⟨.struct, "M", [.property ⟨false, [⟨.identifier "tags", some " [String] ", none, []⟩]⟩,
    .property ⟨false, [⟨.identifier "count", none, some "0", []⟩]⟩,
    .property ⟨false, [⟨.identifier "x", none, none, []⟩]⟩], none⟩

/-- The document of the struct in a file. -/
def taggedTree : FileTree := { files := [(["m.json"], .text tagged.encode.compact)] }

/-- The one document of the tree has the struct. -/
theorem loads_tagged : Loads taggedTree ["m.json"] [["m.json"]] [[tagged]] :=
  have hheld : Holds taggedTree "m.json" [tagged] := ⟨_, rfl, Decl.document_object (by decide)⟩
  ⟨.cons rfl .nil, .cons hheld .nil⟩

theorem extracted_tagged : tagged.extracted = [⟨"tags", "[String]", false⟩] := by decide +kernel

/-- One of the three fields is reported and sampled; its blanks change nothing in what is shown. The
one with nothing to go by is a warning in the log. -/
theorem commands_agree_of_tagged :
    Loads taggedTree ["m.json"] [["m.json"]] [[tagged]] ∧
    run taggedTree (.fields ["m.json"] false none) = ⟨0,
      (Json.Value.array [report tagged [⟨"tags", "[String]", false⟩]]).pretty, "", taggedTree,
      ⟨[.loaded 1 1, .untyped "M" "x"], []⟩⟩ ∧
    tagged.kind = .struct ∧
    ∃ x, tagged.expand {} = .ok x ∧ x.pairs = [("tags", "[\"Sample tags\"]")] ∧
      run taggedTree (.literal "[String]" "tags" ⟨[], 16, "sampleData"⟩) =
        ⟨0, "[\"Sample tags\"]\n", "", taggedTree, {}⟩ ∧
      run taggedTree (.literal " [String] " "tags" ⟨[], 16, "sampleData"⟩) =
        ⟨0, "[\"Sample tags\"]\n", "", taggedTree, {}⟩ := by
  obtain ⟨hfields, -, -, -, -, -, hexpand⟩ := commands_agree tagged {}
  obtain ⟨-, hreport, -⟩ := hfields taggedTree ["m.json"] false none _ _ loads_tagged
  have hreported : reports false [tagged]
      = .array [report tagged [⟨"tags", "[String]", false⟩]] := by
    rw [reports, List.map_singleton, if_neg Bool.false_ne_true, extracted_tagged]
  obtain ⟨x, hx, hshown, hdeclared⟩ := hexpand rfl
  obtain ⟨y, hy, hpairs⟩ := pairs_expand (d := tagged) {} rfl
  obtain rfl := Except.ok.inj (hx.symm.trans hy)
  have hsample : shown {} "[String]" "tags" = "[\"Sample tags\"]" := by decide +kernel
  have hsampled : tagged.sampled = [("tags", ⟨.identifier "tags", some " [String] ", none, []⟩)] :=
    rfl
  have hevents : ({} : Options).sampleEvents (.parse "[String]") = [] := by decide +kernel
  have hevents' : ({} : Options).sampleEvents (.parse " [String] ") = [] := by decide +kernel
  rw [extracted_tagged, List.map_singleton, hsample] at hpairs
  rw [extracted_tagged, hpairs] at hshown
  rw [hsampled, hpairs] at hdeclared
  obtain ⟨-, type, htype, hliteral⟩ := (List.forall₂_cons.1 hdeclared).1
  obtain rfl := Option.mem_some.1 htype
  have hrun := (List.forall₂_cons.1 hshown).1.2 ⟨[], 16, "sampleData"⟩ taggedTree rfl
  have hrun' := hliteral ⟨[], 16, "sampleData"⟩ taggedTree rfl
  rw [hevents] at hrun
  rw [hevents'] at hrun'
  refine ⟨loads_tagged, ?_, rfl, x, hx, hpairs, hrun, hrun'⟩
  rw [← hreported]
  exact hreport rfl

end Command

end Exemplar
