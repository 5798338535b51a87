import Exemplar.Fixture.Run
import Exemplar.Proofs.Files.Tree
import Exemplar.Proofs.Text.Words
import Exemplar.Proofs.Traversal
import Mathlib.Data.List.Sort

/-!
# Proofs/Fixture/Run — what a run over a folder of fixtures reports

    a.json  ✅     b.json  ❌     c.json  ?     d.json  …

The files that end in `.json` are taken in the order of their paths.  Each fixture has its line, a
file that is none ends the run after the lines of those before it, and a run that comes to the end
succeeds if every fixture passes, and else counts those that do not (`run_folder`).
-/

namespace Exemplar.Fixture

variable {t : FileTree} {folder path : String} {paths before : List String} {f : Fixture}
  {fs : List Fixture} {c : Complaint}

/-! ## Passing -/

/-- The declaration has the expected source, word for word, or fails with the expected code. -/
inductive Passes (f : Fixture) : Prop where
  | source {text : String} {x : Expansion} (expect : f.expect = .source text)
      (expand : f.declaration.expandWith f.overrides = .ok x)
      (same : Text.words text.toList = Text.words (Source.ofExpansions false [x]).text.toList)
  | error {e : ExpandError} (expect : f.expect = .error e.code)
      (expand : f.declaration.expandWith f.overrides = .error e)

/-- Texts are compared by their words. -/
theorem sameLayout_iff {a b : String} :
    sameLayout a b = true ↔ Text.words a.toList = Text.words b.toList :=
  beq_iff_eq.trans Text.collapsed_eq_collapsed_iff

/-- The sample of a fixture is compared in plain mode, by itself. -/
theorem text_ofExpansions (x : Expansion) : (Source.ofExpansions false [x]).text = sourceOf x := rfl

/-- **No fault is found in a fixture exactly if it passes.** -/
theorem check_eq_none_iff : f.check = none ↔ f.Passes := by
  rw [check]
  constructor
  · intro h
    cases hexpect : f.expect with
    | source text =>
      cases hexpand : f.declaration.expandWith f.overrides with
      | error e =>
        rw [hexpect, hexpand] at h
        cases h
      | ok x =>
        rw [hexpect, hexpand, mismatch?] at h
        split_ifs at h with hsame
        refine .source hexpect hexpand ?_
        rw [text_ofExpansions]
        exact sameLayout_iff.1 hsame
    | error code =>
      cases hexpand : f.declaration.expandWith f.overrides with
      | error e =>
        rw [hexpect, hexpand, mismatch?] at h
        split_ifs at h with hcode
        obtain rfl : e.code = code := beq_iff_eq.1 hcode
        exact .error hexpect hexpand
      | ok x =>
        rw [hexpect, hexpand] at h
        cases h
  · intro h
    cases h with
    | source hexpect hexpand hsame =>
      rw [text_ofExpansions] at hsame
      rw [hexpect, hexpand, mismatch?, if_pos (sameLayout_iff.2 hsame)]
    | error hexpect hexpand =>
      rw [hexpect, hexpand, mismatch?, if_pos (beq_self_eq_true _)]

instance (f : Fixture) : Decidable f.Passes := decidable_of_iff _ check_eq_none_iff

/-- **The lines of a fixture** say that it passes, or that it fails and why. -/
theorem verdict_cases (path : String) (f : Fixture) :
    (f.Passes ∧ verdict path f = "✅ pass " ++ f.name ++ "\n") ∨
      ¬ f.Passes ∧ ∃ reason,
        verdict path f = "❌ fail " ++ f.name ++ " (" ++ path ++ ")\n" ++ reason ++ "\n" := by
  rw [← check_eq_none_iff, verdict]
  cases f.check with
  | none => exact .inl ⟨rfl, rfl⟩
  | some reason => exact .inr ⟨nofun, reason, rfl⟩

/-! ## The files of a folder -/

/-- The path is that of an entry of the folder whose name ends in `.json`. -/
def Listed (t : FileTree) (folder path : String) : Prop :=
  ∃ stem l m, stem ≠ "" ∧ path = Files.join folder (stem ++ ".json") ∧
    t.follow (t.origin folder) (Files.segments folder) = .ok l ∧
    m ∈ t.locations ∧ l ++ [stem ++ ".json"] <+: m

/-- A name with the extension has something before it. -/
theorem extension?_eq_json_iff {name : String} :
    Files.extension? name = some "json" ↔ ∃ stem, stem ≠ "" ∧ name = stem ++ ".json" := by
  have hdot : ".json" = "." ++ "json" := rfl
  rw [FileTree.extension?_eq_some_iff]
  constructor
  · rintro ⟨-, -, stem, hstem, rfl⟩
    exact ⟨stem, hstem, by rw [hdot, String.append_assoc]⟩
  · rintro ⟨stem, hstem, rfl⟩
    refine ⟨fun h => ?_, by decide, stem, hstem, by rw [hdot, String.append_assoc]⟩
    have hlength := congrArg String.length h
    rw [String.length_append] at hlength
    exact absurd hlength (by change stem.length + 5 ≠ 2; omega)

/-- **The fixtures of a folder** are the paths with the extension, in ascending order. -/
theorem exists_paths (h : t.lookup folder = .ok .folder) :
    ∃ ps, Fixture.paths t folder = .ok ps ∧ ps.Pairwise (· < ·) ∧
      ∀ path, path ∈ ps ↔ Listed t folder path := by
  obtain ⟨l, hl⟩ := FileTree.exists_follow_of_lookup h
  have hnames : t.names folder = .ok (t.namesAt l) := by
    rw [FileTree.names, h]
    exact congrArg (Except.map t.namesAt) hl
  refine ⟨_, by rw [Fixture.paths, hnames], ?_, fun path => ?_⟩
  · exact List.pairwise_map.2 <|
      (FileTree.pairwise_namesAt.filter _).imp FileTree.join_lt_join
  · simp only [List.mem_map, List.mem_filter, FileTree.mem_namesAt, beq_iff_eq,
      extension?_eq_json_iff]
    constructor
    · rintro ⟨_, ⟨⟨m, hm, hbelow⟩, stem, hstem, rfl⟩, rfl⟩
      exact ⟨stem, l, m, hstem, rfl, hl, hm, hbelow⟩
    · rintro ⟨stem, l', m, hstem, rfl, hl', hm, hbelow⟩
      obtain rfl := Except.ok.inj (hl.symm.trans hl')
      exact ⟨_, ⟨⟨m, hm, hbelow⟩, stem, hstem, rfl⟩, rfl⟩

/-! ## Checking one after the other -/

/-- The file at a path is this fixture. -/
def IsAt (t : FileTree) (path : String) (f : Fixture) : Prop :=
  ∃ source, t.read path = .ok source ∧ format.ofText source = .ok f

/-- What is loaded at a path is the fixture that is there. -/
theorem load_eq_ok_iff : load t path = .ok f ↔ IsAt t path f := by
  rw [load, IsAt]
  cases t.read path with
  | error e => simp
  | ok source => cases hformat : format.ofText source <;> simp [hformat]

theorem not_isAt_of_load (h : load t path = .error c) : ¬ ∃ f, IsAt t path f := by
  rintro ⟨f, hf⟩
  cases h.symm.trans (load_eq_ok_iff.2 hf)

/-- The complaint about a file that is no fixture names the file. -/
theorem exists_text_of_load (h : load t path = .error c) :
    ∃ cause, c.text = "Error: " ++ path ++ "\n" ++ cause := by
  have hmessage : c.message = path := by
    rw [load] at h
    split at h
    · rw [← Except.error.inj h]
    · split at h
      · rw [← Except.error.inj h]
      · cases h
  exact ⟨_, by rw [Complaint.text, hmessage]⟩

/-- Where all files are fixtures, all have their lines and those that fail are counted. -/
theorem checkAll_of_forall₂ (h : List.Forall₂ (fun path f => load t path = .ok f) paths fs) :
    checkAll t paths = (String.join (List.zipWith verdict paths fs),
      (fs.filter fun f => ¬ f.Passes).length, none) := by
  induction h with
  | nil => rfl
  | @cons path f _ _ hf _ ih =>
    rw [checkAll, hf]
    dsimp only
    rw [ih, List.zipWith_cons_cons, String.join_cons]
    by_cases hpasses : f.Passes
    · rw [check_eq_none_iff.2 hpasses, List.filter_cons_of_neg (by simpa using hpasses)]
      rfl
    · have hfails : f.check.isSome = true :=
        Option.isSome_iff_ne_none.2 (check_eq_none_iff.not.2 hpasses)
      rw [if_pos hfails, List.filter_cons_of_pos (by simpa using hpasses)]
      rfl

/-- Where a file is no fixture, those before it have their lines. -/
theorem checkAll_of_stopsAt (h : StopsAt (load t) paths before fs path c) :
    ∃ k, checkAll t paths = (String.join (List.zipWith verdict before fs), k, some c) := by
  obtain ⟨⟨after, rfl⟩, hbefore, herror⟩ := h
  induction hbefore with
  | nil => exact ⟨0, by rw [List.nil_append, checkAll, herror]; rfl⟩
  | @cons path f _ _ hf _ ih =>
    obtain ⟨k, hk⟩ := ih
    refine ⟨k + (if f.check.isSome then 1 else 0), ?_⟩
    rw [List.cons_append, checkAll, hf]
    dsimp only
    rw [hk, List.zipWith_cons_cons, String.join_cons]

/-! ## The run -/

/-- How a run ends in which all files were fixtures: it fails if one of them does. -/
def ending (t : FileTree) (lines : String) (fs : List Fixture) : Outcome :=
  let failures := (fs.filter fun f => ¬ f.Passes).length
  if failures = 0 then ⟨0, "", lines, t, {}⟩
  else ⟨1, "", lines ++ ("Error: " ++ (toString failures ++ " fixture(s) failed") ++ "\n"), t, {}⟩

/-- A run over fixtures that all load has a line for each of them. -/
theorem run_of_forall₂ {words : List String}
    (hpaths : Fixture.paths t (words.headD defaultFolder) = .ok paths)
    (h : List.Forall₂ (fun path f => load t path = .ok f) paths fs) :
    run t words = ending t (String.join (List.zipWith verdict paths fs)) fs := by
  rw [run, hpaths]
  dsimp only
  rw [checkAll_of_forall₂ h, ending]
  cases (fs.filter fun f => ¬ f.Passes).length with
  | zero => rfl
  | succ k => exact Outcome.failed_of_message

/-- A run that comes to a file that is no fixture keeps the lines before it. -/
theorem run_of_stopsAt {words : List String}
    (hpaths : Fixture.paths t (words.headD defaultFolder) = .ok paths)
    (h : StopsAt (load t) paths before fs path c) :
    run t words = ⟨1, "", String.join (List.zipWith verdict before fs) ++ c.text, t, {}⟩ := by
  obtain ⟨k, hk⟩ := checkAll_of_stopsAt h
  rw [run, hpaths]
  dsimp only
  rw [hk]
  rfl

/-- **A run over a folder of fixtures** goes through the listed files by ascending path.  The first
that is no fixture ends it with an error that names the file, after the lines of those before; else
there are lines for all, and the failures are counted.  The lines of a fixture say whether it
passes.  All of it stands on the error channel, and nothing is logged. -/
theorem run_folder (words : List String) (h : t.lookup (words.headD defaultFolder) = .ok .folder) :
    (run t words).stderr = (run t words).report ∧
    ∃ paths : List String, paths.Pairwise (· < ·) ∧
      (∀ path, path ∈ paths ↔ Listed t (words.headD defaultFolder) path) ∧
      ((∃ before path after fs cause, paths = before ++ path :: after ∧
          List.Forall₂ (IsAt t) before fs ∧ (¬ ∃ f, IsAt t path f) ∧
          run t words = ⟨1, "", String.join (List.zipWith verdict before fs) ++
            ("Error: " ++ path ++ "\n" ++ cause), t, {}⟩) ∨
        ∃ fs, List.Forall₂ (IsAt t) paths fs ∧
          run t words = ending t (String.join (List.zipWith verdict paths fs)) fs) ∧
      ∀ path f, (f.Passes ∧ verdict path f = "✅ pass " ++ f.name ++ "\n") ∨
        ¬ f.Passes ∧ ∃ reason,
          verdict path f = "❌ fail " ++ f.name ++ " (" ++ path ++ ")\n" ++ reason ++ "\n" := by
  obtain ⟨paths, hpaths, hsorted, hlisted⟩ := exists_paths h
  refine ⟨Outcome.stderr_silent _, paths, hsorted, hlisted, ?_, verdict_cases⟩
  obtain ⟨fs, hfs⟩ | ⟨before, fs, path, c, hstop⟩ := exists_forall₂_or_stopsAt (load t) paths
  · exact .inr ⟨fs, hfs.imp fun _ _ => load_eq_ok_iff.1, run_of_forall₂ hpaths hfs⟩
  · obtain ⟨after, hsplit⟩ := hstop.split
    obtain ⟨cause, hcause⟩ := exists_text_of_load hstop.error
    exact .inl ⟨before, path, after, fs, cause, hsplit, hstop.ok.imp fun _ _ => load_eq_ok_iff.1,
      not_isAt_of_load hstop.error, hcause ▸ run_of_stopsAt hpaths hstop⟩

/-- A folder with a fixture that passes and a file that is no fixture, which comes first in the
tree. -/
def stray : FileTree where
  files := [(["fixtures", "b.json"], .text ""), (["fixtures", "a.json"],
    .text ("\x7b\"name\":\"only structs\"," ++
      "\"declaration\":\x7b\"kind\":\"enum\",\"name\":\"E\"\x7d," ++
      "\"expect\":\x7b\"error\":\"NotAnAggregateType\"\x7d\x7d"))]

/-- The fixture is reported although the run fails at the other file. -/
theorem run_folder_of_stray :
    stray.lookup "fixtures" = .ok .folder ∧ ∃ f cause, IsAt stray "fixtures/a.json" f ∧ f.Passes ∧
      run stray [] = ⟨1, "", "✅ pass only structs\n" ++ ("Error: fixtures/b.json\n" ++ cause),
        stray, {}⟩ := by
  have hfolder : stray.lookup "fixtures" = .ok .folder := rfl
  obtain ⟨f, hf, hpasses, hname⟩ :
      ∃ f, IsAt stray "fixtures/a.json" f ∧ f.Passes ∧ f.name = "only structs" := by
    have hgood : ((load stray "fixtures/a.json").toOption.any fun f =>
        f.check.isNone && f.name == "only structs") = true := by decide +kernel
    cases hload : load stray "fixtures/a.json" with
    | error c => rw [hload] at hgood; cases hgood
    | ok f =>
      rw [hload] at hgood
      obtain ⟨hcheck, hname⟩ := Bool.and_eq_true_iff.1 hgood
      exact ⟨f, load_eq_ok_iff.1 hload, check_eq_none_iff.1 (Option.isNone_iff_eq_none.1 hcheck),
        beq_iff_eq.1 hname⟩
  have hbad : ¬ ∃ f, IsAt stray "fixtures/b.json" f := by
    have hnone : (load stray "fixtures/b.json").toOption.isNone = true := by decide +kernel
    rintro ⟨f, hf⟩
    rw [load_eq_ok_iff.2 hf] at hnone
    cases hnone
  obtain ⟨-, paths, hsorted, hlisted, hrun, hverdict⟩ := run_folder [] hfolder
  -- what is listed is in order in one way only
  obtain ⟨_, ⟨rfl⟩, hsorted', hlisted'⟩ := exists_paths hfolder
  obtain rfl : paths = ["fixtures/a.json", "fixtures/b.json"] :=
    hsorted.eq_of_mem_iff hsorted' fun path => (hlisted path).trans (hlisted' path).symm
  obtain ⟨before, path, after, fs, cause, hsplit, hbefore, hno, hrun⟩ | ⟨fs, hfs, -⟩ := hrun
  · -- the file that is none is not the first, so it is the second
    obtain ⟨rfl, rfl⟩ : before = ["fixtures/a.json"] ∧ path = "fixtures/b.json" := by
      obtain _ | ⟨first, _ | ⟨second, before⟩⟩ := before
      · obtain ⟨rfl, -⟩ := List.cons.inj hsplit
        exact absurd ⟨f, hf⟩ hno
      · obtain ⟨rfl, hrest⟩ := List.cons.inj hsplit
        obtain ⟨rfl, -⟩ := List.cons.inj hrest
        exact ⟨rfl, rfl⟩
      · simp at hsplit
    obtain ⟨g, _, hg, hnil, rfl⟩ := List.forall₂_cons_left_iff.1 hbefore
    obtain rfl := List.forall₂_nil_left_iff.1 hnil
    obtain rfl : f = g := Except.ok.inj ((load_eq_ok_iff.2 hf).symm.trans (load_eq_ok_iff.2 hg))
    obtain ⟨-, hline⟩ := (hverdict "fixtures/a.json" f).resolve_right fun h => h.1 hpasses
    rw [List.zipWith_cons_cons, hline, hname] at hrun
    exact ⟨hfolder, f, cause, hf, hpasses, hrun⟩
  · obtain ⟨g, -, hg⟩ := exists_of_forall₂ hfs.flip (b := "fixtures/b.json") (by simp)
    exact absurd ⟨g, hg⟩ hbad

end Exemplar.Fixture
