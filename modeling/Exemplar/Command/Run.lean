import Exemplar.Command.Basic
import Exemplar.Command.Report
import Exemplar.Decl.Encode
import Exemplar.Decl.Format
import Exemplar.Files.Glob
import Exemplar.Json.Write
import Exemplar.Sample.Source

/-!
# Command/Run — carrying out a command

A command is a function of the files that it finds. What has to hold for a run to go on is looked
at in this order: the command line, the overrides, the patterns among the inputs, the documents.
Only a run that comes past all of them has output. Declarations that have no sample do not keep the
others from theirs, but they make the run fail in the end. What is logged on the way is kept apart
from what a run writes itself.
-/

namespace Exemplar

/-- Why a document gives no declarations. -/
inductive LoadError where
  | file (error : FileError)
  | json (error : Json.Error)
  deriving DecidableEq, Repr

namespace LoadError

/-- The causes, from the nearest on. -/
def causes : LoadError → List String
  | file error => ["io error: " ++ error.message, error.message]
  | json error => [error.message]

end LoadError

namespace Command

/-- The declarations of one document. -/
def loadFile (t : FileTree) (path : String) : Except LoadError (List Decl) :=
  match t.read path with
  | .error e => .error (.file e)
  | .ok source =>
    match Decl.document source with
    | .error e => .error (.json e)
    | .ok ds => .ok ds

/-- The paths that an input stands for: itself, or what its pattern finds. -/
def resolveInput (t : FileTree) (input : String) : Except String (List String) :=
  if Files.isPattern input then
    match Files.Pattern.parse input with
    | .error e => .error e.message
    | .ok p =>
      match p.search t with
      | [] => .error ("glob pattern matched no files: " ++ input)
      | paths => .ok paths
  else .ok [input]

/-- The paths that the inputs stand for, in order. -/
def resolve (t : FileTree) : List String → Except Complaint (List String)
  | [] => .ok []
  | input :: inputs =>
    match resolveInput t input with
    | .error e => .error { message := "failed to resolve input file paths: " ++ e }
    | .ok paths =>
      match resolve t inputs with
      | .error c => .error c
      | .ok others => .ok (paths ++ others)

/-- The declarations of all documents, in order. -/
def loadAll (t : FileTree) : List String → Except Complaint (List Decl)
  | [] => .ok []
  | path :: paths =>
    match loadFile t path with
    | .error e => .error { message := "failed to load " ++ path, causes := e.causes }
    | .ok ds =>
      match loadAll t paths with
      | .error c => .error c
      | .ok others => .ok (ds ++ others)

/-- The declarations of all inputs, in order. -/
def load (t : FileTree) (inputs : List String) : Except Complaint (List Decl) :=
  match resolve t inputs with
  | .error c => .error c
  | .ok paths => loadAll t paths

/-- The tree with the output file written. The folders that lead to it are made first. -/
def writeFile (t : FileTree) (path text : String) : Except Complaint FileTree :=
  let folder := Files.parent? path
  match folder.elim (.ok t) t.makeFolders with
  | .error e =>
    .error { message := "failed to create " ++ folder.getD "", causes := [e.message] }
  | .ok t =>
    match t.write path text with
    | .error e => .error { message := "failed to write " ++ path, causes := [e.message] }
    | .ok t => .ok t

/-- What is reported when all inputs are loaded. -/
def loadEvents (t : FileTree) (inputs : List String) : List Event :=
  match resolve t inputs with
  | .error _ => []
  | .ok paths =>
    match loadAll t paths with
    | .error _ => []
    | .ok ds => [.loaded paths.length ds.length]

/-- The end of a run whose output text is known: the text goes to the output file if one is named,
and a complaint that stands in spite of the output comes last. -/
def finish (t : FileTree) (out : Option String) (text report : String) (last : Option Complaint)
    (log : Log) : Outcome :=
  match out with
  | none =>
    match last with
    | none => { status := 0, stdout := text, report, files := t, log }
    | some c => .failed t c text report log
  | some path =>
    match writeFile t path text with
    | .error c => .failed t c "" report log
    | .ok t =>
      match last with
      | none => { status := 0, report, files := t, log }
      | some c => .failed t c "" report log

/-- The line that reports a declaration without a sample. -/
def errorLine (e : ExpandError) : String :=
  "error: " ++ e.message ++ "\n"

/-- The errors among results, in order. -/
def errors (results : List (Except ExpandError Expansion)) : List ExpandError :=
  results.filterMap fun
    | .ok _ => none
    | .error e => some e

/-- The samples among results, in order. -/
def samples (results : List (Except ExpandError Expansion)) : List Expansion :=
  results.filterMap Except.toOption

/-- What is wrong in the end with a run in which so many of all declarations have no sample. -/
def shortfall? (failures total : Nat) : Option Complaint :=
  if failures = 0 then none
  else
    let counts := toString failures ++ " of " ++ toString total
    some { message := counts ++ " declaration(s) could not be expanded" }

/-- The command `expand`. The declarations are expanded side by side, all of them before the first
error line. -/
def runExpand (t : FileTree) (inputs : List String) (settings : Settings) (inExtension : Bool)
    (out : Option String) : Outcome :=
  match settings.options with
  | .error e => .failed t { message := e.message }
  | .ok options =>
    match load t inputs with
    | .error c => .failed t c
    | .ok ds =>
      let results := ds.map (Decl.expand options)
      finish t out (Source.ofExpansions inExtension (samples results)).text
        (String.join ((errors results).map errorLine))
        (shortfall? (errors results).length ds.length)
        { opening := loadEvents t inputs, strands := ds.map (Decl.expandEvents options) }

/-- The fields of a declaration that `fields` reports: all of them, or those without an
initializer. -/
def reported (all : Bool) (d : Decl) : List Field :=
  d.described.filter fun f => all || !f.hasInitializer

/-- What `fields` reports of a declaration. -/
def describe (all : Bool) (d : Decl) : Json.Value :=
  .object [("aggregate", .string d.name), ("kind", .string d.kind.keyword),
    ("fields", .array ((reported all d).map Field.encode))]

/-- The command `fields`. -/
def runFields (t : FileTree) (inputs : List String) (all : Bool) (out : Option String) : Outcome :=
  match load t inputs with
  | .error c => .failed t c
  | .ok ds =>
    finish t out (Json.Value.array (ds.map (describe all))).pretty "" none
      { opening := loadEvents t inputs ++ ds.flatMap Decl.describeEvents }

/-- The command `literal`. -/
def runLiteral (t : FileTree) (type field : String) (settings : Settings) : Outcome :=
  match settings.options with
  | .error e => .failed t { message := e.message }
  | .ok options =>
    { status := 0, stdout := (options.synthesize type field).render options.accessor ++ "\n",
      files := t, log := { opening := options.sampleEvents (TypeExpr.parse type) } }

/-- Carries out a command. -/
def run (t : FileTree) : Command → Outcome
  | expand inputs settings inExtension out => runExpand t inputs settings inExtension out
  | fields inputs all out => runFields t inputs all out
  | literal type field settings => runLiteral t type field settings

/-- The program's name and version. -/
def versionText : String := "model-sampleable 0.1.0\n"

/-- How the program is used. -/
def usageText : String :=
  "Usage: model-sampleable <COMMAND>\n\n" ++
  "Commands:\n" ++
  "  expand   emit the static sample accessor for every input declaration\n" ++
  "  fields   print the stored fields each declaration exposes, as JSON\n" ++
  "  literal  synthesize the literal for a single type\n"

/-- Runs the program with the words of a command line. -/
def runLine (t : FileTree) (words : List String) : Outcome :=
  match parse words with
  | .ok command => run t command
  | .error .version => { status := 0, stdout := versionText, files := t }
  | .error .help => { status := 0, stdout := usageText, files := t }
  | .error (.refused cause) =>
    { status := 2, report := "error: " ++ cause.message ++ "\n\n" ++ usageText, files := t }

end Command

end Exemplar
