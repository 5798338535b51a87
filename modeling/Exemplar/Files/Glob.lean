import Exemplar.Decimal.Digits
import Exemplar.Files.Tree

/-!
# Files/Glob — paths given by patterns

A pattern is a path whose segments may have wildcards: `?` is any character, `*` any run of
characters, brackets a choice of characters, and a segment `**` any number of folders. A leading
dot is nothing special to them. Matches come folder by folder, names ascending, and a folder before
what is in it.
-/

namespace Exemplar.Files

/-- What a bracket names: one character or a closed range. -/
inductive CharSet where
  | single (c : Char)
  | range (first last : Char)
  deriving DecidableEq, Repr

namespace CharSet

def contains (set : CharSet) (c : Char) : Bool :=
  match set with
  | single d => c == d
  | range first last => decide (first ≤ c ∧ c ≤ last)

/-- What stands between brackets: a dash between two characters makes a range of them. -/
def ofChars : List Char → List CharSet
  | first :: '-' :: last :: s => range first last :: ofChars s
  | c :: s => single c :: ofChars s
  | [] => []

end CharSet

/-- A piece of a pattern. -/
inductive Wildcard where
  | char (c : Char)
  | anyChar
  | anyRun
  /-- Any number of folders; it is a segment of its own. -/
  | anyFolders
  | among (sets : List CharSet)
  | except (sets : List CharSet)
  deriving DecidableEq, Repr

/-- Why a pattern has no meaning. -/
inductive PatternFault where
  | tooManyStars
  | starsInSegment
  | badBrackets
  deriving DecidableEq, Repr

/-- A fault with its place, counted in characters from 0. -/
structure PatternError where
  place : Nat
  fault : PatternFault
  deriving DecidableEq, Repr

namespace PatternFault

def message : PatternFault → String
  | tooManyStars => "wildcards are either regular `*` or recursive `**`"
  | starsInSegment => "recursive wildcards must form a single path component"
  | badBrackets => "invalid range pattern"

end PatternFault

namespace PatternError

def message (e : PatternError) : String :=
  "Pattern syntax error near position " ++ String.ofList (Decimal.intChars e.place) ++ ": " ++
    e.fault.message

end PatternError

/-- Whether a path is a pattern. An opening brace makes it one too, although it stands for itself
in patterns. -/
def isPattern (path : String) : Bool :=
  path.toList.any fun c => c == '*' || c == '?' || c == '[' || c == '\x7b'

namespace Wildcard

/-- The meaning of brackets, after the opening one, with the remainder. The first character inside
never closes them. -/
def ofBrackets? : List Char → Option (Wildcard × List Char)
  | '!' :: c :: s =>
    match s.span (· != ']') with
    | (others, ']' :: rest) => some (except (CharSet.ofChars (c :: others)), rest)
    | _ => none
  | ['!'] => none
  | c :: s =>
    match s.span (· != ']') with
    | (others, ']' :: rest) => some (among (CharSet.ofChars (c :: others)), rest)
    | _ => none
  | [] => none

/-- Whether two stars are a segment of their own, given that a segment starts with them: the
remainder after the slash that ends it. -/
def afterStars? : List Char → Option (List Char)
  | [] => some []
  | '/' :: rest => some rest
  | _ => none

/-- The pieces of a pattern from `place` on, at most `fuel` of them. -/
def parseFrom :
    (fuel place : Nat) → (atStart : Bool) → List Char → Except PatternError (List Wildcard)
  | 0, _, _, _ => .ok []
  | _ + 1, _, _, [] => .ok []
  | fuel + 1, place, atStart, c :: s =>
    let next (w : Wildcard) (atStart : Bool) (rest : List Char) :=
      (parseFrom fuel (place + (s.length + 1 - rest.length)) atStart rest).map (w :: ·)
    if c = '?' then next anyChar false s
    else if c = '*' then
      let stars := (s.takeWhile (· == '*')).length + 1
      let rest := s.dropWhile (· == '*')
      if 2 < stars then .error ⟨place + 2, .tooManyStars⟩
      else if stars = 1 then next anyRun false rest
      else if !atStart then .error ⟨place - 1, .starsInSegment⟩
      else
        match afterStars? rest with
        | some rest => next anyFolders true rest
        | none => .error ⟨place + 2, .starsInSegment⟩
    else if c = '[' then
      match ofBrackets? s with
      | some (w, rest) => next w false rest
      | none => .error ⟨place, .badBrackets⟩
    else next (char c) (c == '/') s

/-- The pieces of a pattern. -/
def parse (s : List Char) : Except PatternError (List Wildcard) :=
  parseFrom (s.length + 1) 0 true s

/-- Whether `p` holds of `s` or of what is left of it after some characters. -/
def anySuffix (p : List Char → Bool) : List Char → Bool
  | [] => p []
  | c :: s => p (c :: s) || anySuffix p s

/-- Whether the pieces match a whole name. -/
def matchesAll : List Wildcard → List Char → Bool
  | [], s => s.isEmpty
  | char d :: ws, c :: s => c == d && matchesAll ws s
  | anyChar :: ws, _ :: s => matchesAll ws s
  | among sets :: ws, c :: s => sets.any (·.contains c) && matchesAll ws s
  | except sets :: ws, c :: s => !sets.any (·.contains c) && matchesAll ws s
  | anyRun :: ws, s | anyFolders :: ws, s => anySuffix (matchesAll ws) s
  | _ :: _, [] => false

/-- The name that the pieces spell, if they have no wildcards. -/
def plain? : List Wildcard → Option (List Char)
  | [] => some []
  | char c :: ws => (plain? ws).map (c :: ·)
  | _ :: _ => none

/-- Whether the pieces are the segment `**`. -/
def isAnyFolders (ws : List Wildcard) : Bool := ws.contains anyFolders

end Wildcard

/-- A path with wildcards. -/
structure Pattern where
  /-- Where the search starts. -/
  start : String
  /-- The segments below it. -/
  segments : List (List Wildcard)
  /-- Whether only folders match. -/
  folderOnly : Bool
  deriving Repr

namespace Pattern

/-- The segments of a pattern. A slash at the end does not start another one. -/
def segmentTexts (s : List Char) : List (List Char) :=
  let parts := s.splitOn '/'
  if parts.getLast? = some [] then parts.dropLast else parts

/-- The meaning of a pattern, which is checked as a whole first and then segment by segment. -/
def parse (path : String) : Except PatternError Pattern := do
  let _ ← Wildcard.parse path.toList
  let absolute := isAbsolute path
  let below := if absolute then path.toList.drop 1 else path.toList
  let segments ← (segmentTexts below).mapM Wildcard.parse
  return { start := if absolute then "/" else ".", segments,
           folderOnly := path.toList.getLast? == some '/' }

/-- The path of a name in a folder. The working folder itself is not written. -/
def childPath (path name : String) : String :=
  if isCurrent path then name else join path name

/-- The path that ends a search, unless it has to be a folder and is none. -/
def final (t : FileTree) (folderOnly : Bool) (path : String) : List String :=
  if folderOnly && !t.isFolder path then [] else [path]

/-- The dots that a segment written with a leading dot may match besides the names in a folder. -/
def dotNames (segment : List Wildcard) : List String :=
  if segment.head? = some (.char '.') then
    ["..", "."].filter fun name => Wildcard.matchesAll segment name.toList
  else []

/-- What is to be found in a folder. The way goes on at `descend` for a path that is settled and
at `visit` for a name in the folder. -/
def searchFolder (t : FileTree) (segment : List Wildcard) (path : String)
    (descend : String → List String) (visit : String → String → List String) : List String :=
  match Wildcard.plain? segment with
  | some name =>
    let name := String.ofList name
    let next := childPath path name
    let isDot := name == "." || name == ".."
    if (isDot && t.isFolder path) || (!isDot && t.exists? next) then descend next else []
  | none =>
    match t.names path with
    | .error _ => []
    | .ok names =>
      (dotNames segment).flatMap (fun name => descend (join path name)) ++
        names.flatMap fun name => visit name (childPath path name)

/-- What `segments` find from the folder `path` on. If `name` is given, `path` was reached by that
name and has to match the first segment itself. The fuel bounds the steps down the tree and along
the pattern. -/
def searchFrom (t : FileTree) (folderOnly : Bool) :
    (fuel : Nat) → (segments : List (List Wildcard)) → (name : Option String) → String →
      List String
  | 0, _, _, _ => []
  | _ + 1, [], _, path => final t folderOnly path
  | fuel + 1, segment :: segments, none, path =>
    searchFolder t segment path
      (searchFrom t folderOnly fuel segments none)
      (fun name => searchFrom t folderOnly fuel (segment :: segments) (some name))
  | fuel + 1, segment :: segments, some name, path =>
    if Wildcard.isAnyFolders segment then
      let others := segments.dropWhile Wildcard.isAnyFolders
      let inside :=
        if t.isFolder path then searchFrom t folderOnly fuel (segment :: others) none path else []
      match others with
      | [] => if t.isFolder path then path :: inside else []
      | _ => searchFrom t folderOnly fuel others (some name) path ++ inside
    else if Wildcard.matchesAll segment name.toList then
      searchFrom t folderOnly fuel segments none path
    else []

/-- The paths that match, in order. -/
def search (p : Pattern) (t : FileTree) : List String :=
  let deepest := (t.locations.map List.length).foldl max 0
  searchFrom t p.folderOnly (4 * (p.segments.length + 1) * (deepest + 2)) p.segments none p.start

end Pattern

end Exemplar.Files
