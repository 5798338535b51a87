import Exemplar.Command.Arguments
import Exemplar.Decimal.Digits
import Exemplar.Sample.Override
import Exemplar.Sample.Synthesis

/-!
# Command/Basic — the commands of the program

`expand` writes the accessors of all declarations in its inputs, `fields` lists their stored fields,
and `literal` shows the sample for one type.
-/

namespace Exemplar

/-- What a user chooses about samples, not checked yet. -/
structure Command.Settings where
  overrides : List (String × String)
  maxDepth : Nat
  accessor : String
  deriving DecidableEq, Repr

/-- A command with all that it was given. -/
inductive Command where
  | expand (inputs : List String) (settings : Command.Settings) (inExtension : Bool)
      (out : Option String)
  | fields (inputs : List String) (all : Bool) (out : Option String)
  | literal (type field : String) (settings : Command.Settings)
  deriving Repr

namespace Command

/-- The options checked by what they stand for. -/
def Settings.options (s : Settings) : Except ExpandError Options :=
  match Overrides.ofPairs s.overrides with
  | .error e => .error e
  | .ok overrides => .ok { overrides, maxDepth := s.maxDepth, accessor := s.accessor }

/-- A depth: digits after an optional plus sign, below 2⁶⁴. -/
def readDepth? (value : String) : Option Nat :=
  (Decimal.readUnsigned? value.toList).filter fun n => decide (n ≤ 0xFFFFFFFFFFFFFFFF)

/-- The options that give inputs. -/
def inputSpecs : List OptionSpec :=
  [{ long := "input", short := some 'i', arity := .oneOrMore, repeatable := true }]

/-- The options that choose about samples. -/
def settingSpecs : List OptionSpec := [
  { long := "override", arity := .one, repeatable := true,
    accepts := fun v => (splitOverride? v).isSome },
  { long := "max-depth", arity := .one, accepts := fun v => (readDepth? v).isSome },
  { long := "accessor-name", arity := .one }]

/-- The option that names an output file. -/
def outputSpecs : List OptionSpec :=
  [{ long := "out", short := some 'o', arity := .one, accepts := fun v => !v.isEmpty }]

/-- The settings given by arguments. -/
def settingsOf (a : Arguments) : Settings where
  overrides := (a.values "override").filterMap splitOverride?
  maxDepth := ((a.value? "max-depth").bind readDepth?).getD ({} : Options).maxDepth
  accessor := (a.value? "accessor-name").getD defaultAccessor

/-- The inputs given by arguments; there is at least one. -/
def inputsOf (a : Arguments) : Except Stop (List String) :=
  if a.has "input" then .ok (a.values "input") else .error (.refused (.missingOption "input"))

/-- The command `expand`. -/
def parseExpand (words : List String) : Except Stop Command := do
  let specs :=
    inputSpecs ++ settingSpecs ++ [{ long := "extension", arity := .none }] ++ outputSpecs
  let a ← Arguments.parse specs 0 words
  return .expand (← inputsOf a) (settingsOf a) (a.has "extension") (a.value? "out")

/-- The command `fields`. -/
def parseFields (words : List String) : Except Stop Command := do
  let a ← Arguments.parse (inputSpecs ++ [{ long := "all", arity := .none }] ++ outputSpecs) 0 words
  return .fields (← inputsOf a) (a.has "all") (a.value? "out")

/-- The command `literal`. -/
def parseLiteral (words : List String) : Except Stop Command := do
  let a ← Arguments.parse ([{ long := "field", arity := .one }] ++ settingSpecs) 1 words
  match a.operands with
  | type :: _ => return .literal type ((a.value? "field").getD "value") (settingsOf a)
  | [] => .error (.refused (.missingOperand "TYPE"))

/-- The words that a request for help may be about. -/
def helpTopics : List String := ["expand", "fields", "literal", "help"]

/-- What a request for help with these words after it asks for. -/
def parseHelp : List String → Stop
  | [] => .help
  | word :: words =>
    if helpTopics.contains word then
      match words with
      | [] => .help
      | extra :: _ => .refused (.unknownCommand extra)
    else .refused (.unknownCommand word)

/-- What a line asks for if its first word names none of the commands that do work. -/
def parseLeading (word : String) (words : List String) : Stop :=
  match word.toList with
  | '-' :: 'V' :: _ => .version
  | '-' :: 'h' :: _ => .help
  | '-' :: _ :: _ =>
    if word == "--version" then .version
    else if word == "--help" then .help
    else .refused (.unknownOption word)
  | _ => if word == "help" then parseHelp words else .refused (.unknownCommand word)

/-- The command given by the words of a command line. -/
def parse : List String → Except Stop Command
  | [] => .error (.refused .noCommand)
  | word :: words =>
    if word == "expand" then parseExpand words
    else if word == "fields" then parseFields words
    else if word == "literal" then parseLiteral words
    else .error (parseLeading word words)

end Command

end Exemplar
