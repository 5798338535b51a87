import Exemplar.Files.Path

/-!
# Files/Tree — files and folders

A file tree is what a program can see of the files around it: files with their contents and folders,
each at a location, which is the list of names that leads to it from the top. Paths are followed
name by name, those that do not start with a slash from the folder that the program runs in.
-/

namespace Exemplar

/-- What a file holds. -/
inductive Content where
  | text (s : String)
  /-- Bytes that are not UTF-8. -/
  | binary
  deriving DecidableEq, Repr, Inhabited

namespace Content

/-- The content made of these bytes. -/
def ofBytes (bytes : ByteArray) : Content :=
  match String.fromUTF8? bytes with
  | some s => text s
  | none => binary

end Content

/-- Why a file operation fails. -/
inductive FileError where
  | missing
  | alreadyThere
  | notFolder
  | isFolder
  | notText
  deriving DecidableEq, Repr

namespace FileError

/-- The wording of the system. -/
def message : FileError → String
  | missing => "No such file or directory (os error 2)"
  | alreadyThere => "File exists (os error 17)"
  | notFolder => "Not a directory (os error 20)"
  | isFolder => "Is a directory (os error 21)"
  | notText => "stream did not contain valid UTF-8"

end FileError

/-- Files and folders by location. The folders that lead to a file, to a folder or home need no
entry of their own. -/
structure FileTree where
  files : List (List String × Content) := []
  folders : List (List String) := []
  /-- The folder in which relative paths start. -/
  home : List String := []
  deriving Repr, Inhabited

namespace FileTree

/-- What a location holds. -/
inductive Node where
  | file (content : Content)
  | folder
  deriving DecidableEq, Repr

/-- The file at a location. -/
def file? (t : FileTree) (l : List String) : Option Content :=
  (t.files.find? fun f => f.1 == l).map Prod.snd

/-- The locations of all files and folders that are known of. -/
def locations (t : FileTree) : List (List String) :=
  t.files.map Prod.fst ++ t.folders ++ [t.home]

/-- Whether there is a folder at a location: one of its own, or one that leads to something. -/
def hasFolder (t : FileTree) (l : List String) : Bool :=
  l.isEmpty || t.folders.contains l || t.home == l ||
    t.locations.any fun m => l.isPrefixOf m && decide (l.length < m.length)

/-- What there is at a location. -/
def node? (t : FileTree) (l : List String) : Option Node :=
  match t.file? l with
  | some content => some (.file content)
  | none => if t.hasFolder l then some .folder else none

/-- The folder reached from `start` by a segment that has to lead to one. Above the top there is
nothing but the top. -/
def enter (t : FileTree) (start : List String) (segment : String) :
    Except FileError (List String) :=
  if Files.isVoid segment then .ok start
  else if segment == ".." then .ok start.dropLast
  else
    match t.node? (start ++ [segment]) with
    | some .folder => .ok (start ++ [segment])
    | some (.file _) => .error .notFolder
    | none => .error .missing

/-- The folder reached by segments that all have to lead to folders. -/
def follow (t : FileTree) : List String → List String → Except FileError (List String)
  | start, [] => .ok start
  | start, segment :: segments =>
    match t.enter start segment with
    | .error e => .error e
    | .ok next => follow t next segments

/-- Where a path starts. -/
def origin (t : FileTree) (path : String) : List String :=
  if Files.isAbsolute path then [] else t.home

/-- The last segment of a path. -/
def lastSegment (path : String) : String :=
  (Files.segments path).getLast?.getD ""

/-- What a path leads to. The last segment may lead to a file, all others lead to folders. -/
def lookup (t : FileTree) (path : String) : Except FileError Node :=
  if path.isEmpty then .error .missing
  else
    match t.follow (t.origin path) (Files.segments path).dropLast with
    | .error e => .error e
    | .ok start =>
      match t.file? (start ++ [lastSegment path]) with
      | some content => .ok (.file content)
      | none => (t.enter start (lastSegment path)).map fun _ => .folder

def exists? (t : FileTree) (path : String) : Bool :=
  (t.lookup path).isOk

def isFolder (t : FileTree) (path : String) : Bool :=
  match t.lookup path with
  | .ok .folder => true
  | _ => false

/-- The text of a file. -/
def read (t : FileTree) (path : String) : Except FileError String :=
  match t.lookup path with
  | .error e => .error e
  | .ok .folder => .error .isFolder
  | .ok (.file (.text s)) => .ok s
  | .ok (.file .binary) => .error .notText

/-- Puts a name in its place among ascending names, once. -/
def insertName (name : String) : List String → List String
  | [] => [name]
  | n :: ns =>
    if name < n then name :: n :: ns
    else if name = n then n :: ns
    else n :: insertName name ns

/-- The names in the folder at a location, ascending. -/
def namesAt (t : FileTree) (l : List String) : List String :=
  (t.locations.filterMap fun m => (l.isPrefixOf? m).bind List.head?).foldr insertName []

/-- The names in the folder that a path leads to, ascending. -/
def names (t : FileTree) (path : String) : Except FileError (List String) :=
  match t.lookup path with
  | .error e => .error e
  | .ok (.file _) => .error .notFolder
  | .ok .folder => (t.follow (t.origin path) (Files.segments path)).map t.namesAt

/-- The tree with a file at a location, in place of one that was there. -/
def putFile (t : FileTree) (l : List String) (content : Content) : FileTree :=
  { t with files := replace t.files }
where
  /-- The files with the new content. -/
  replace : List (List String × Content) → List (List String × Content)
    | [] => [(l, content)]
    | f :: fs => if f.1 = l then (l, content) :: fs else f :: replace fs

/-- Makes one folder in a folder that is there. -/
def makeFolder (t : FileTree) (path : String) : Except FileError FileTree :=
  if path.isEmpty then .error .missing
  else
    match t.follow (t.origin path) (Files.segments path).dropLast with
    | .error e => .error e
    | .ok start =>
      let segment := lastSegment path
      if Files.isVoid segment || segment == ".." then .error .alreadyThere
      else
        match t.node? (start ++ [segment]) with
        | some _ => .error .alreadyThere
        | none => .ok { t with folders := t.folders ++ [start ++ [segment]] }

/-- Makes a folder, first trying to make those that lead to it, at most `fuel` of them, if it cannot
be made without. A folder that is there already is fine. -/
def makeFoldersWithin : Nat → FileTree → String → Except FileError FileTree
  | 0, _, _ => .error .missing
  | fuel + 1, t, path =>
    if path.isEmpty then .ok t
    else
      match t.makeFolder path with
      | .ok t => .ok t
      | .error .missing =>
        match makeFoldersWithin fuel t ((Files.parent? path).getD "") with
        | .error e => .error e
        | .ok t => accept t path (t.makeFolder path)
      | .error e => accept t path (.error e)
where
  /-- The result of making a folder, where one that is there already is fine. -/
  accept (t : FileTree) (path : String) : Except FileError FileTree → Except FileError FileTree
    | .ok t => .ok t
    | .error e => if t.isFolder path then .ok t else .error e

/-- Makes a folder with all that lead to it. -/
def makeFolders (t : FileTree) (path : String) : Except FileError FileTree :=
  makeFoldersWithin ((Files.segments path).length + 2) t path

/-- Writes a text file into a folder that is there. A path that ends in slashes or in dots can only
be a folder. -/
def write (t : FileTree) (path text : String) : Except FileError FileTree :=
  if path.isEmpty then .error .missing
  else
    let named := (Files.segments path).reverse.dropWhile String.isEmpty
    let segment := named.head?.getD ""
    match t.follow (t.origin path) named.tail.reverse with
    | .error e => .error e
    | .ok start =>
      if Files.isVoid segment || segment == ".." || lastSegment path == "" then .error .isFolder
      else
        match t.node? (start ++ [segment]) with
        | some .folder => .error .isFolder
        | _ => .ok (t.putFile (start ++ [segment]) (.text text))

/-- The text files at home that are not in `old` with the same content, by path, ascending. -/
def changedSince (old t : FileTree) : List (String × String) :=
  let changed := t.files.filterMap fun f =>
    match f.2, t.home.isPrefixOf? f.1 with
    | .text s, some path =>
      if old.file? f.1 = some (.text s) then none else some (Files.joinSegments path, s)
    | _, _ => none
  (changed.map Prod.fst).foldr insertName [] |>.filterMap fun name =>
    changed.find? fun f => f.1 == name

/-- The location that a path without dots leads to. -/
def plainLocation (t : FileTree) (path : String) : List String :=
  t.origin path ++ (Files.segments path).filter fun s => !Files.isVoid s

/-- The tree with a file put where a plain path leads. -/
def addFile (t : FileTree) (path : String) (content : Content) : FileTree :=
  t.putFile (t.plainLocation path) content

/-- The tree with a folder put where a plain path leads. -/
def addFolder (t : FileTree) (path : String) : FileTree :=
  { t with folders := t.folders ++ [t.plainLocation path] }

end FileTree

end Exemplar
