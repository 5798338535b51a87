import Exemplar.Command.Run
import Exemplar.Fixture.Run

/-!
# Main — the programs

Both programs look at the files that their words name, run on the tree of what they found, and then
show and write what the run left behind. Nothing is decided here.
-/

namespace Exemplar.Shell

/-- The names in a folder of the disk, if there is a folder. -/
def folderNames? (path : String) : IO (Option (List String)) := do
  try
    let entries ← ((← IO.currentDir) / path).readDir
    return some (entries.toList.map fun e => e.fileName)
  catch _ => return none

/-- The content of a file of the disk, if there is a file. -/
def content? (path : String) : IO (Option Content) := do
  try
    return some (Content.ofBytes (← IO.FS.readBinFile path))
  catch _ => return none

/-- The tree with what the disk holds at a path, and in folders there up to `levels` deep. -/
partial def survey (levels : Nat) (t : FileTree) (path : String) : IO FileTree := do
  match ← folderNames? path with
  | some names =>
    let t := t.addFolder path
    if levels = 0 then return t
    names.foldlM (fun t name => survey (levels - 1) t (Files.join path name)) t
  | none =>
    match ← content? path with
    | some content => return t.addFile path content
    | none => return t

/-- The tree with what the disk holds at a path and on the way to it. -/
partial def look (t : FileTree) (path : String) : IO FileTree := do
  let t ← match Files.parent? path with
    | some folder => if folder.isEmpty then pure t else look t folder
    | none => pure t
  survey 0 t path

/-- How deep below the folder where it starts a pattern can reach. -/
def reach (p : Files.Pattern) : Nat :=
  if p.segments.any Files.Wildcard.isAnyFolders then 64 else p.segments.length

/-- The tree with what an input can stand for. -/
def lookAtInput (t : FileTree) (input : String) : IO FileTree :=
  if Files.isPattern input then
    match Files.Pattern.parse input with
    | .ok p => survey (reach p) t p.start
    | .error _ => pure t
  else look t input

/-- The files that a command names. -/
def inputs : Command → List String
  | .expand inputs _ _ out | .fields inputs _ out => inputs ++ out.toList
  | .literal .. => []

/-- Shows and writes what a run left behind, with the log as a subscriber shows it. -/
def deliver (before : FileTree) (o : Outcome) (subscriber : Log → String := fun _ => "") :
    IO UInt32 := do
  for file in FileTree.changedSince before { o.files with home := [] } do
    match Files.parent? ("/" ++ file.1) with
    | some folder => IO.FS.createDirAll folder
    | none => pure ()
    IO.FS.writeFile ("/" ++ file.1) file.2
  (← IO.getStdout).putStr o.stdout
  (← IO.getStderr).putStr (o.stderr subscriber)
  return UInt32.ofNat o.status

/-- A tree of which only the home is known: the folder that the program runs in. -/
def atHome : IO FileTree := do
  let here := (← IO.currentDir).toString
  return { home := (Files.segments here).filter fun s => !Files.isVoid s }

/-- The fixture checker. -/
def checkFixtures (words : List String) : IO UInt32 := do
  let t ← survey 1 (← atHome) (words.headD Fixture.defaultFolder)
  deliver t (Fixture.run t words)

end Exemplar.Shell

/-- The command line program. -/
def main (words : List String) : IO UInt32 := do
  let start ← Exemplar.Shell.atHome
  let named := match Exemplar.Command.parse words with
    | .ok command => Exemplar.Shell.inputs command
    | .error _ => []
  let t ← named.foldlM Exemplar.Shell.lookAtInput start
  let quiet := (← IO.getEnv "RUST_LOG") == some "off"
  let subscriber := if quiet then fun _ => "" else Exemplar.Log.warnings
  Exemplar.Shell.deliver t (Exemplar.Command.runLine t words) subscriber
