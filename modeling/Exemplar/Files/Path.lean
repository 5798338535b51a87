/-!
# Files/Path — paths as text

A path is text with slashes between names. Its segments are what stands between the slashes; empty
segments and single dots name nothing, except a dot at the very start, which is kept as a name for
the working folder.
-/

namespace Exemplar.Files

/-- What stands between the slashes of a path. -/
def segments (path : String) : List String :=
  (path.toList.splitOn '/').map String.ofList

/-- Whether a path starts at the root. -/
def isAbsolute (path : String) : Bool :=
  path.toList.head? == some '/'

/-- Whether a segment other than the first names nothing. -/
def isVoid (segment : String) : Bool :=
  segment == "" || segment == "."

/-- The segments without those at the end that name nothing. A dot at the very start stays. -/
def dropVoid : List String → List String
  | [] => []
  | first :: others =>
    let kept := (others.reverse.dropWhile isVoid).reverse
    if first == "" && kept.isEmpty then [] else first :: kept

/-- Segments with slashes between them. -/
def joinSegments (segments : List String) : String :=
  "/".intercalate segments

/-- The path without its last name, if it has one. The text is kept but for what names nothing at
its end. -/
def parent? (path : String) : Option String :=
  match dropVoid (segments path) with
  | [] => none
  | named =>
    match dropVoid named.dropLast with
    | [] => some (if isAbsolute path then "/" else "")
    | rest => some (joinSegments rest)

/-- The path of `name` in the folder `path`. -/
def join (path name : String) : String :=
  if path.isEmpty || path.toList.getLast? == some '/' then path ++ name else path ++ "/" ++ name

/-- Whether a path is another way to write the working folder. -/
def isCurrent (path : String) : Bool :=
  dropVoid (segments path) == ["."]

/-- What follows the last dot of a name, if there is more than that dot before it. -/
def extension? (name : String) : Option String :=
  match (name.toList.reverse.span (· != '.')) with
  | (_, []) => none
  | (_, [_]) => none
  | (after, _ :: _) => if name == ".." then none else some (String.ofList after.reverse)

end Exemplar.Files
