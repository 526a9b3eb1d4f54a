import NameSearch.CommandLine.Help
import NameSearch.Entry.Streaming
import NameSearch.FileTree
import NameSearch.Prompt
import NameSearch.Report

/-!
# The program

A run with a query reads the input, reports on the entries it chose and exports them.  A run
without one loads the input first and then asks for queries until a blank line, reporting on each;
an export that fails is told and does not end it.

What is opened, read, printed and written, and in which order, is the same for every host: for files
and a terminal as values, and for those of a system.
-/

namespace NameSearch
namespace CommandLine

/-- Why a run fails. -/
inductive Failure where
  /-- The input cannot be opened. -/
  | unopened (path : String) (fault : PathFault)
  /-- The input cannot be read. -/
  | unread (failure : ReadFailure)
  /-- The entries cannot be exported. -/
  | unsaved (path : String) (fault : PathFault)
  /-- Queries would be asked for where the entries should come from. -/
  | noInput
  /-- A query cannot be read. -/
  | unanswered (fault : LineFault)
  deriving DecidableEq

namespace Failure

/-- What went wrong. -/
def message : Failure → String
  | unopened path _ => s!"Failed to open {path}"
  | unread failure => failure.message
  | unsaved path _ => s!"Failed to export results to {path}"
  | noInput => "interactive mode needs an input file; pass --query to filter stdin"
  | unanswered fault => fault.message

/-- Why it went wrong, where that is another matter. -/
def cause? : Failure → Option String
  | unopened _ fault => some fault.message
  | unread failure => some failure.cause
  | unsaved _ fault => some fault.message
  | noInput => none
  | unanswered _ => none

/-- What is printed when a run fails. -/
def report (failure : Failure) : String :=
  s!"Error: {failure.message}\n"
    ++ match failure.cause? with
      | some cause => s!"\nCaused by:\n    {cause}\n"
      | none => ""

/-- What went wrong and why, in one line. -/
def brief (failure : Failure) : String :=
  match failure.cause? with
  | some cause => s!"{failure.message}: {cause}"
  | none => failure.message

end Failure

/-- The text in front of the first prompt. -/
def header (count : Nat) : String :=
  s!"Name Filter - interactive search over {count} entries\n"
    ++ "Terms are ANDed. Use OR, NOT, ( ), ^start, end$ and \"quoted words\".\n"
    ++ "Submit an empty line to quit.\n\n"

/-- The prompt for a query. -/
def promptText : String := "filter> "

/-- What is said after an export. -/
def exportedText (count : Nat) (path : String) : String := s!"Exported {count} entries to {path}\n"

/-- What is said after an export that failed and did not end the run. -/
def exportFailedText (path : String) (fault : PathFault) : String :=
  s!"Export failed: {(Failure.unsaved path fault).brief}\n\n"

/-- What a run needs of the place it takes place in; something that can be read from is a source
there. -/
class Host (m : Type → Type) (source : outParam Type) where
  /-- The terminal, as a source. -/
  terminal : m source
  /-- Open a file. -/
  openFile (path : String) : m (Except PathFault source)
  /-- Read from a source as far as a reading goes. -/
  readThrough (source : source) (reading : Reading) : m Choice.Result
  /-- Show a message at the terminal and take the answer to it. -/
  ask (message : String) : m (Except LineFault (Option String))
  /-- Print a text. -/
  print (text : String) : m Unit
  /-- Print a text on the channel for errors. -/
  warn (text : String) : m Unit
  /-- Write a file. -/
  save (path : String) (content : Bytes) : m (Except PathFault Unit)

/-- How far a run has come. -/
inductive Phase where
  /-- It has ended with an exit code: zero unless it failed. -/
  | ended (code : Nat)
  /-- It asks for queries about some entries. -/
  | asking (command : Command) (entries : List Entry)

section Steps

variable {m : Type → Type} [Monad m] {source : Type} [Host m source]

/-- Tell why a run failed; the exit code. -/
def Failure.tell (failure : Failure) : m Nat := do
  Host.warn failure.report
  return 1

namespace Command

/-- The comparison that a run searches with, unless it is the exact one. -/
def comparison (command : Command) : Option Comparison :=
  if command.isLoose then some Comparison.loose else none

/-- Path of the input, unless it is the terminal. -/
def inputPath? (command : Command) : Option String :=
  command.input.filter (· != "-")

/-- A reading that chooses the entries that satisfy a query. -/
def selecting (command : Command) (query : String) : Reading :=
  command.settings.selecting (Query.parse (Bytes.ofString query)) command.comparison

/-- Choose those of the loaded entries that satisfy a query. -/
def selectFrom (command : Command) (query : String) (entries : List Entry) : Selection :=
  let query := Query.parse (Bytes.ofString query)
  ⟨entries.length, Entry.choose command.settings query command.comparison entries⟩

/-- The report on a selection. -/
def report (command : Command) (selection : Selection) : String :=
  Report.text command.isVerbose selection

/-- Open the input. -/
def openSource (command : Command) : m (Except Failure source) := do
  match command.inputPath? with
  | none => return .ok (← Host.terminal)
  | some path =>
    match ← Host.openFile path with
    | .error fault => return .error (.unopened path fault)
    | .ok source => return .ok source

/-- Answer one query; the exit code. -/
def answerOnce (command : Command) (query : String) : m Nat := do
  match ← command.openSource with
  | .error failure => failure.tell
  | .ok source =>
    match ← Host.readThrough source (command.selecting query) with
    | .error failure => (Failure.unread failure).tell
    | .ok selection =>
      Host.print (command.report selection)
      match command.exportPath with
      | none => return 0
      | some path =>
        match ← Host.save path (command.format.content selection.matched) with
        | .error fault => (Failure.unsaved path fault).tell
        | .ok _ =>
          Host.print (exportedText selection.matched.length path)
          return 0

/-- Read the input before queries are asked for. -/
def prepare (command : Command) : m Phase := do
  if command.inputPath?.isNone then return .ended (← Failure.noInput.tell)
  else
    match ← command.openSource with
    | .error failure => return .ended (← failure.tell)
    | .ok source =>
      match ← Host.readThrough source command.settings.loading with
      | .error failure => return .ended (← (Failure.unread failure).tell)
      | .ok loaded =>
        Host.print (header loaded.matched.length)
        return .asking command loaded.matched

/-- Answer one of many queries. -/
def answer (command : Command) (entries : List Entry) (query : String) : m Unit := do
  let selection := command.selectFrom query entries
  Host.print (command.report selection ++ "\n")
  match command.exportPath with
  | none => return
  | some path =>
    match ← Host.save path (command.format.content selection.matched) with
    | .error fault => Host.warn (exportFailedText path fault)
    | .ok _ => Host.print (exportedText selection.matched.length path ++ "\n")

/-- Ask for a query and answer it; the exit code if none is given. -/
def turn (command : Command) (entries : List Entry) : m (Option Nat) := do
  match ← Host.ask promptText with
  | .error fault => return some (← (Failure.unanswered fault).tell)
  | .ok none => return some 0
  | .ok (some query) =>
    command.answer entries query
    return none

end Command

/-- Do what is asked for, up to the first prompt if there is one. -/
def Request.start : Request → m Phase
  | .question asked => do
    Host.print asked.answer
    return .ended 0
  | .search command =>
    match command.query with
    | some query => return .ended (← command.answerOnce query)
    | none => command.prepare

end Steps
end CommandLine
end NameSearch
