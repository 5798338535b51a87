import Exemplar.Command.Report
import Exemplar.Fixture.Basic

/-!
# Fixture/Run — checking a folder of fixtures

All fixtures of a folder are checked in the order of their file names, with a line for each. The
first file that is no fixture ends the run; else it fails if any fixture does. The checker has no
log: nobody subscribes to what is reported while it expands declarations.
-/

namespace Exemplar.Fixture

/-- The paths of the fixtures in a folder, ascending. -/
def paths (t : FileTree) (folder : String) : Except Complaint (List String) :=
  match t.names folder with
  | .error e =>
    .error { message := "cannot read fixture dir " ++ folder, causes := [e.message] }
  | .ok names =>
    .ok ((names.filter fun n => Files.extension? n == some "json").map (Files.join folder))

/-- The fixture in a file. -/
def load (t : FileTree) (path : String) : Except Complaint Fixture :=
  match t.read path with
  | .error e => .error { message := path, causes := [e.message] }
  | .ok source =>
    match format.ofText source with
    | .error e => .error { message := path, causes := [e.message] }
    | .ok f => .ok f

/-- The lines that report a fixture that was checked. -/
def verdict (path : String) (f : Fixture) : String :=
  match f.check with
  | none => "✅ pass " ++ f.name ++ "\n"
  | some reason => "❌ fail " ++ f.name ++ " (" ++ path ++ ")\n" ++ reason ++ "\n"

/-- What is reported of the files before the first that is no fixture, with the number of failed
fixtures, and what is wrong with that file. -/
def checkAll (t : FileTree) : List String → String × Nat × Option Complaint
  | [] => ("", 0, none)
  | path :: paths =>
    match load t path with
    | .error c => ("", 0, some c)
    | .ok f =>
      let (lines, failures, end?) := checkAll t paths
      (verdict path f ++ lines, failures + (if f.check.isSome then 1 else 0), end?)

/-- The folder that is checked if none is named. The name stands for the folder of the checker's own
sources, whose full path is settled when the program is built. -/
def defaultFolder : String := "fixtures"

/-- Checks the fixtures in the folder named by the first word. -/
def run (t : FileTree) (words : List String) : Outcome :=
  match paths t (words.headD defaultFolder) with
  | .error c => .failed t c
  | .ok paths =>
    match checkAll t paths with
    | (lines, _, some c) => .failed t c "" lines
    | (lines, 0, none) => { status := 0, report := lines, files := t }
    | (lines, failures, none) =>
      .failed t { message := toString failures ++ " fixture(s) failed" } "" lines

end Exemplar.Fixture
