import Exemplar.Files.Tree
import Exemplar.Sample.Event

/-!
# Command/Report — how a run ends

A run leaves text on two channels, a status, a file tree and a log. A run that fails reports its
failure last: the message, then the chain of causes, numbered if there are several. A cause of
several lines is indented throughout.

The log is kept as events. What is shown of it, and in which words, is up to a subscriber, whose
text stands on the error channel before the run's own report (`Outcome.stderr`). Nothing here has
colour: a terminal may show the labels `error:`, `pass` and `fail` in some.
-/

namespace Exemplar

/-- A failure of a run, with its causes from the nearest on. -/
structure Complaint where
  message : String
  causes : List String := []
  deriving DecidableEq, Repr

namespace Complaint

/-- A text with every line but the first moved in by `indent`. -/
def indented (indent : String) (s : String) : String :=
  String.ofList (s.toList.flatMap fun c => if c = '\n' then '\n' :: indent.toList else [c])

/-- Causes with their numbers from `i` on. -/
def numbered (i : Nat) : List String → String
  | [] => ""
  | cause :: causes =>
    let number := toString i
    let label := String.ofList (List.replicate (5 - number.length) ' ') ++ number ++ ": "
    label ++ indented "       " cause ++ "\n" ++ numbered (i + 1) causes

/-- The report of a failure. -/
def text (c : Complaint) : String :=
  "Error: " ++ c.message ++ "\n" ++
    match c.causes with
    | [] => ""
    | [cause] => "\nCaused by:\n    " ++ indented "    " cause ++ "\n"
    | causes => "\nCaused by:\n" ++ numbered 0 causes

end Complaint

/-- What a run reports on the way: first events in their order, then strands that are written side
by side. The order of events is kept within a strand; how the strands mix is not determined. -/
structure Log where
  opening : List Event := []
  strands : List (List Event) := []
  deriving Repr

namespace Log

/-- A line for each warning, strand after strand, without time, target or colour. -/
def warnings (l : Log) : String :=
  let events := (l.opening ++ l.strands.flatten).filter fun e => e.level = .warn
  String.join <| events.map fun e =>
    "WARN " ++ e.message ++ String.join (e.values.map fun v => " " ++ v.1 ++ "=" ++ v.2) ++ "\n"

end Log

/-- What a run leaves behind. The report is what the run itself writes on the error channel; all
that is logged is logged before its first line. -/
structure Outcome where
  status : Nat
  stdout : String := ""
  report : String := ""
  files : FileTree
  log : Log := {}
  deriving Repr

namespace Outcome

/-- The text on the error channel: what a subscriber to the log writes there, and the report.
Without one, as where logging is turned off, the log is silent. -/
def stderr (o : Outcome) (subscriber : Log → String := fun _ => "") : String :=
  subscriber o.log ++ o.report

/-- A run that ends with a failure after the given report. -/
def failed (files : FileTree) (c : Complaint) (stdout : String := "") (report : String := "")
    (log : Log := {}) : Outcome :=
  { status := 1, stdout, report := report ++ c.text, files, log }

/-- The report of a failure without causes is one line more. -/
theorem failed_of_message {files : FileTree} {message stdout report : String} {log : Log} :
    failed files { message } stdout report log =
      ⟨1, stdout, report ++ ("Error: " ++ message ++ "\n"), files, log⟩ := by
  simp [failed, Complaint.text]

/-- Without a subscriber only the report is seen. -/
theorem stderr_silent (o : Outcome) : o.stderr = o.report := String.empty_append

end Outcome

end Exemplar
