import Exemplar.Decl.Format
import Exemplar.Sample.Source
import Exemplar.Text.Blank

/-!
# Fixture/Basic — a declaration with its expected sample

A fixture expects either the source of the sample, layout aside, or the code of an error. It is
checked by expanding its declaration under its overrides.
-/

namespace Exemplar

open Json

/-- What a fixture expects. -/
inductive Expectation where
  | source (text : String)
  | error (code : String)
  deriving DecidableEq, Repr, Inhabited

/-- A declaration with its expected sample. -/
structure Fixture where
  name : String
  overrides : TextMap := {}
  declaration : Decl
  expect : Expectation
  deriving Repr, Inhabited

namespace Expectation

/-- An expectation. -/
def format : Format Expectation :=
  Format.choice [
    ⟨"source", .single (Format.text.map source)⟩,
    ⟨"error", .single (Format.text.map error)⟩]

end Expectation

namespace Fixture

/-- The fields of a fixture read so far. -/
structure Draft where
  name : Option String := none
  overrides : Option TextMap := none
  declaration : Option Decl := none
  expect : Option Expectation := none

/-- Only overrides may be missing. -/
def record : Record Draft Fixture where
  title := "struct Fixture"
  slots := [
    ⟨"name", true, fun d => d.name.isSome,
      Format.text.map fun s d => { d with name := some s }⟩,
    ⟨"overrides", false, fun d => d.overrides.isSome,
      Format.text.entries.map fun es d => { d with overrides := some (TextMap.ofPairs es) }⟩,
    ⟨"declaration", true, fun d => d.declaration.isSome,
      Decl.format.map fun x d => { d with declaration := some x }⟩,
    ⟨"expect", true, fun d => d.expect.isSome,
      Expectation.format.map fun e d => { d with expect := some e }⟩]
  blank := {}
  finish d := do
    let name ← required "name" d.name
    let declaration ← required "declaration" d.declaration
    let expect ← required "expect" d.expect
    return { name, overrides := d.overrides.getD {}, declaration, expect }

/-- A fixture. -/
def format : Format Fixture := record.format

/-- The source that a sample is compared by. -/
def sourceOf (x : Expansion) : String :=
  (Source.emit {} x).text

/-- Whether two texts are the same but for their layout. -/
def sameLayout (a b : String) : Bool :=
  Text.collapsed a == Text.collapsed b

/-- Why the result of expanding the declaration is not the expected one, if it is not. -/
def mismatch? (expect : Expectation) (result : Except ExpandError Expansion) : Option String :=
  match expect, result with
  | .source text, .ok x =>
    if sameLayout text (sourceOf x) then none
    else some ("expected:\n" ++ text ++ "\nactual:\n" ++ sourceOf x)
  | .source _, .error e => some ("unexpected error: " ++ e.message)
  | .error code, .error e =>
    if e.code == code then none else some ("expected " ++ code ++ ", got " ++ e.code)
  | .error code, .ok x => some ("expected " ++ code ++ ", got " ++ x.call)

/-- Why a fixture fails, if it does. -/
def check (f : Fixture) : Option String :=
  mismatch? f.expect (f.declaration.expandWith f.overrides)

end Fixture

end Exemplar
