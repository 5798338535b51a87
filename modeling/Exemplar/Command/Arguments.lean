/-!
# Command/Arguments — options and operands of a command line

A command declares the options it knows; `Arguments.parse` sorts the words of a command line into
values of options and operands. A long option takes its value after an equals sign or from the next
word, a short one from the rest of its own word as well. A word that starts with a dash is always
an option, unless it is a lone dash or stands after `--`. A line that does not fit is refused with
the first thing wrong in it.
-/

namespace Exemplar.Command

/-- How many values an option takes each time it is given. -/
inductive Arity where
  | none
  | one
  | oneOrMore
  deriving DecidableEq, Repr

/-- An option that a command knows. -/
structure OptionSpec where
  /-- The name after two dashes. -/
  long : String
  /-- The letter after one dash. -/
  short : Option Char := .none
  arity : Arity
  /-- Whether the option may be given more than once. -/
  repeatable : Bool := false
  /-- Whether a value is acceptable. -/
  accepts : String → Bool := fun _ => true

/-- Why a command line is refused. -/
inductive Usage where
  | noCommand
  | unknownCommand (word : String)
  | unknownOption (word : String)
  | unexpectedOperand (word : String)
  | unexpectedValue (long : String)
  | missingValue (long : String)
  | badValue (long value : String)
  | givenTwice (long : String)
  | missingOption (long : String)
  | missingOperand (name : String)
  deriving DecidableEq, Repr

namespace Usage

def message : Usage → String
  | noCommand => "a command is required"
  | unknownCommand word => "unknown command `" ++ word ++ "`"
  | unknownOption word => "unknown option `" ++ word ++ "`"
  | unexpectedOperand word => "unexpected argument `" ++ word ++ "`"
  | unexpectedValue long => "`--" ++ long ++ "` takes no value"
  | missingValue long => "`--" ++ long ++ "` needs a value"
  | badValue long value => "`" ++ value ++ "` is no value for `--" ++ long ++ "`"
  | givenTwice long => "`--" ++ long ++ "` is given twice"
  | missingOption long => "`--" ++ long ++ "` is required"
  | missingOperand name => "`" ++ name ++ "` is required"

end Usage

/-- What a command line gives: options with their values in order, and operands. -/
structure Arguments where
  options : List (String × List String) := []
  operands : List String := []
  deriving DecidableEq, Repr

/-- Why a command line is not carried out. -/
inductive Stop where
  | refused (cause : Usage)
  | help
  | version
  deriving DecidableEq, Repr

namespace Arguments

/-- All values given to an option. -/
def values (a : Arguments) (long : String) : List String :=
  (a.options.filter fun o => o.1 == long).flatMap Prod.snd

/-- The value given to an option. -/
def value? (a : Arguments) (long : String) : Option String :=
  (a.values long).head?

/-- Whether an option is given. -/
def has (a : Arguments) (long : String) : Bool :=
  a.options.any fun o => o.1 == long

/-- The arguments with one more use of an option, once its values are known. -/
def add (a : Arguments) (spec : OptionSpec) (values : List String) : Except Stop Arguments :=
  if spec.arity != .none && values.isEmpty then .error (.refused (.missingValue spec.long))
  else
    match values.find? fun v => !spec.accepts v with
    | some v => .error (.refused (.badValue spec.long v))
    | none =>
      if !spec.repeatable && a.has spec.long then .error (.refused (.givenTwice spec.long))
      else .ok { a with options := a.options ++ [(spec.long, values)] }

/-- A command line in the middle of being sorted. -/
structure State where
  done : Arguments := {}
  /-- An option that may take more of the words that follow, with its values so far. -/
  open? : Option (OptionSpec × List String) := none
  /-- Whether `--` was seen. -/
  onlyOperands : Bool := false

/-- The state without an option that takes more words. -/
def State.close (s : State) : Except Stop State :=
  match s.open? with
  | none => .ok s
  | some (spec, values) => (s.done.add spec values).map fun done => { s with done, open? := none }

/-- The state after one more complete use of an option. -/
def State.add (s : State) (spec : OptionSpec) (values : List String) : Except Stop State := do
  let s ← s.close
  let done ← s.done.add spec values
  return { s with done }

/-- The state after an option, with the value that came in the same word if there was one. -/
def State.takeOption (s : State) (spec : OptionSpec) (attached : Option String) :
    Except Stop State :=
  match spec.arity, attached with
  | .none, .none => s.add spec []
  | .none, some _ => .error (.refused (.unexpectedValue spec.long))
  | _, some value => s.add spec [value]
  | _, .none => s.close.map fun s => { s with open? := some (spec, []) }

/-- The state after a long option: a name and perhaps a value. -/
def State.takeLong (specs : List OptionSpec) (s : State) (word : List Char) : Except Stop State :=
  let name := String.ofList (word.takeWhile (· != '='))
  let attached := match word.dropWhile (· != '=') with
    | [] => none
    | _ :: value => some (String.ofList value)
  match specs.find? fun spec => spec.long == name with
  | some spec => s.takeOption spec attached
  | none =>
    if name == "help" && attached.isNone then s.close.bind fun _ => .error .help
    else .error (.refused (.unknownOption ("--" ++ String.ofList word)))

/-- The value in the rest of a word of short options. -/
def attachedValue? : List Char → Option String
  | [] => none
  | '=' :: value => some (String.ofList value)
  | value => some (String.ofList value)

/-- The state after a word of short options. -/
def State.takeShort (specs : List OptionSpec) : State → List Char → Except Stop State
  | s, [] => .ok s
  | s, letter :: rest =>
    match specs.find? fun spec => spec.short == some letter with
    | some spec =>
      if spec.arity = .none then (s.takeOption spec none).bind fun s => takeShort specs s rest
      else s.takeOption spec (attachedValue? rest)
    | none =>
      if letter = 'h' then s.close.bind fun _ => .error .help
      else .error (.refused (.unknownOption (String.ofList ['-', letter])))

/-- The state after an operand or a value of the option that takes more words. -/
def State.takeWord (operands : Nat) (s : State) (word : String) : Except Stop State :=
  match s.open?, s.onlyOperands with
  | some (spec, values), false =>
    if spec.arity = .oneOrMore then .ok { s with open? := some (spec, values ++ [word]) }
    else ({ s with open? := none } : State).add spec [word]
  | _, _ => do
    let s ← s.close
    if s.done.operands.length < operands then
      return { s with done := { s.done with operands := s.done.operands ++ [word] } }
    else .error (.refused (.unexpectedOperand word))

/-- The state after one more word. -/
def State.take (specs : List OptionSpec) (operands : Nat) (s : State) (word : String) :
    Except Stop State :=
  if s.onlyOperands then s.takeWord operands word
  else
    match word.toList with
    | ['-', '-'] => .ok { s with onlyOperands := true }
    | '-' :: '-' :: rest => s.takeLong specs rest
    | '-' :: c :: rest => s.takeShort specs (c :: rest)
    | _ => s.takeWord operands word

/-- The options and operands given by `words`, at most so many operands. -/
def parse (specs : List OptionSpec) (operands : Nat) (words : List String) :
    Except Stop Arguments := do
  let s ← words.foldlM (State.take specs operands) {}
  return (← s.close).done

end Arguments

end Exemplar.Command
