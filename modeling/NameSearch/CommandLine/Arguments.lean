import NameSearch.Entry
import NameSearch.Export

/-!
# Arguments

Switches and parameters may stand in any order around the one positional argument, the input.  Long
names take their value behind an equals sign or as the next argument; short names may be written
together, and the last of them takes the rest as its value.  Nothing may be given twice.
-/

namespace NameSearch
namespace CommandLine

/-- What a run is asked to do. -/
structure Command where
  /-- Path of the input; the terminal if there is none. -/
  input : Option String := none
  /-- The query of a run that answers one; without it queries are asked for. -/
  query : Option String := none
  /-- How entries are read and chosen. -/
  settings : Settings := {}
  /-- Whether the comparison is loose. -/
  isLoose : Bool := false
  /-- Whether reports are detailed. -/
  isVerbose : Bool := false
  /-- Path of the file that chosen entries are exported to. -/
  exportPath : Option String := none
  /-- How that file is written. -/
  format : ExportFormat := .plain
  deriving DecidableEq

/-- Arguments without a value. -/
inductive Switch where
  /-- Read a table. -/
  | table
  /-- The table has a heading. -/
  | heading
  /-- Search the fields of an entry as one text. -/
  | joined
  /-- Compare loosely. -/
  | loose
  /-- Report in detail. -/
  | verbose
  deriving DecidableEq

/-- Arguments with a value. -/
inductive Parameter where
  /-- The query. -/
  | query
  /-- How many entries are wanted. -/
  | limit
  /-- Path of the exported file. -/
  | exportPath
  /-- Format of the exported file. -/
  | format
  deriving DecidableEq

/-- Arguments that ask about the program itself. -/
inductive Question where
  /-- How it is used. -/
  | help
  /-- Which version it is. -/
  | version
  deriving DecidableEq

/-- The long name of a switch. -/
def Switch.name : Switch → String
  | table => "csv"
  | heading => "has-headers"
  | joined => "join-fields"
  | loose => "loose"
  | verbose => "verbose"

/-- The long name of a parameter. -/
def Parameter.name : Parameter → String
  | query => "query"
  | limit => "limit"
  | exportPath => "export"
  | format => "format"

/-- The long name of a question. -/
def Question.name : Question → String
  | help => "help"
  | version => "version"

/-- What a name stands for. -/
inductive Named where
  /-- Something to turn on. -/
  | switch (switch : Switch)
  /-- Something to set. -/
  | parameter (parameter : Parameter)
  /-- Something to be told. -/
  | question (question : Question)
  deriving DecidableEq

/-- The long name. -/
def Named.name : Named → String
  | switch flag => flag.name
  | parameter setting => setting.name
  | question asked => asked.name

/-- All that has a name. -/
def allNamed : List Named :=
  [.parameter .query, .switch .table, .switch .heading, .switch .joined, .switch .loose,
    .parameter .limit, .switch .verbose, .parameter .exportPath, .parameter .format,
    .question .help, .question .version]

/-- The names behind two hyphens. -/
def longNames : List (String × Named) := allNamed.map fun named => (named.name, named)

/-- The names behind one hyphen. -/
def shortNames : List (Char × Named) :=
  [('q', .parameter .query), ('l', .parameter .limit), ('v', .switch .verbose),
    ('h', .question .help), ('V', .question .version)]

/-- Why arguments are refused. -/
inductive Refusal where
  /-- Nothing has this name. -/
  | unknown (name : String)
  /-- A parameter stands without its value. -/
  | valueMissing (parameter : Parameter)
  /-- A value was given to what takes none. -/
  | valueSurplus (name : String)
  /-- A parameter cannot have this value. -/
  | valueRefused (parameter : Parameter) (value : String)
  /-- A switch was given before. -/
  | switchRepeated (switch : Switch)
  /-- A parameter was given before. -/
  | parameterRepeated (parameter : Parameter)
  /-- The path of the input is empty. -/
  | inputEmpty
  /-- There is an input already. -/
  | inputSurplus (path : String)
  /-- A heading was asked for without a table. -/
  | headingWithoutTable
  deriving DecidableEq

/-- What is wrong with refused arguments. -/
def Refusal.message : Refusal → String
  | unknown name => s!"unknown option {name}"
  | valueMissing parameter => s!"no value for --{parameter.name}"
  | valueSurplus name => s!"--{name} takes no value"
  | valueRefused parameter value => s!"--{parameter.name} cannot be '{value}'"
  | switchRepeated switch => s!"--{switch.name} is given twice"
  | parameterRepeated parameter => s!"--{parameter.name} is given twice"
  | inputEmpty => "the path of the input is empty"
  | inputSurplus path => s!"there is an input besides '{path}'"
  | headingWithoutTable => s!"--{Switch.heading.name} needs --{Switch.table.name}"

/-- The number a text spells in decimal digits, if it fits into 64 bits; a plus sign may lead. -/
def count? (text : String) : Option Nat :=
  let digits :=
    match text.toList with
    | '+' :: digits => digits
    | digits => digits
  if digits.isEmpty || !digits.all Char.isDigit then none
  else
    let value := digits.foldl (fun value digit => 10 * value + (digit.toNat - '0'.toNat)) 0
    if value < UInt64.size then some value else none

/-- The format with a name. -/
def format? (name : String) : Option ExportFormat :=
  if name = "txt" then some .plain else if name = "csv" then some .table else none

/-- Whether a parameter can have a value. -/
def Parameter.allows (parameter : Parameter) (value : String) : Bool :=
  match parameter with
  | query => true
  | limit => (count? value).isSome
  | exportPath => !value.isEmpty
  | format => (format? value).isSome

/-- What has been given so far. -/
structure Draft where
  /-- The input. -/
  input : Option String := none
  /-- The switches that are on. -/
  switches : List Switch := []
  /-- The parameters that have a value. -/
  values : List (Parameter × String) := []
  deriving DecidableEq

namespace Draft

/-- Whether a switch is on. -/
def isOn (draft : Draft) (switch : Switch) : Bool := draft.switches.contains switch

/-- Value of a parameter. -/
def value? (draft : Draft) (parameter : Parameter) : Option String := draft.values.lookup parameter

/-- Turn a switch on. -/
def turnOn (draft : Draft) (switch : Switch) : Except Refusal Draft :=
  if draft.isOn switch then .error (.switchRepeated switch)
  else .ok { draft with switches := switch :: draft.switches }

/-- Give a parameter its value. -/
def assign (draft : Draft) (parameter : Parameter) (value : String) : Except Refusal Draft :=
  if (draft.value? parameter).isSome then .error (.parameterRepeated parameter)
  else if !parameter.allows value then .error (.valueRefused parameter value)
  else .ok { draft with values := (parameter, value) :: draft.values }

/-- Take the positional argument. -/
def place (draft : Draft) (path : String) : Except Refusal Draft :=
  if draft.input.isSome then .error (.inputSurplus path)
  else if path.isEmpty then .error .inputEmpty
  else .ok { draft with input := some path }

/-- The command that has been given. -/
def command (draft : Draft) : Except Refusal Command :=
  if draft.isOn .heading && !draft.isOn .table then .error .headingWithoutTable
  else
    .ok
      { input := draft.input
        query := draft.value? .query
        settings :=
          { layout := if draft.isOn .table then .table (draft.isOn .heading) else .lines
            joined := draft.isOn .joined
            limit := ((draft.value? .limit).bind count?).getD 0 }
        isLoose := draft.isOn .loose
        isVerbose := draft.isOn .verbose
        exportPath := draft.value? .exportPath
        format := ((draft.value? .format).bind format?).getD .plain }

end Draft

/-- What an argument left to be done. -/
inductive Progress where
  /-- Nothing. -/
  | complete (draft : Draft)
  /-- The next argument is the value of a parameter. -/
  | pending (draft : Draft) (parameter : Parameter)
  /-- A question is to be answered. -/
  | asked (question : Question)

/-- Read an argument behind its two hyphens. -/
def readLong (draft : Draft) (argument : List Char) : Except Refusal Progress :=
  let name := String.ofList (argument.takeWhile (· != '='))
  match longNames.lookup name, argument.dropWhile (· != '=') with
  | none, _ => .error (.unknown name)
  | some (.switch switch), [] => (draft.turnOn switch).map .complete
  | some (.parameter parameter), [] => .ok (.pending draft parameter)
  | some (.question question), [] => .ok (.asked question)
  | some (.parameter parameter), _ :: value =>
    (draft.assign parameter (String.ofList value)).map .complete
  | some _, _ :: _ => .error (.valueSurplus name)

/-- Drop the equals sign in front of a value. -/
def dropEquals : List Char → List Char
  | '=' :: value => value
  | value => value

/-- Read an argument behind its single hyphen. -/
def readShort (draft : Draft) : List Char → Except Refusal Progress
  | [] => .ok (.complete draft)
  | name :: later =>
    match shortNames.lookup name with
    | none => .error (.unknown (String.singleton name))
    | some (.switch switch) =>
      match draft.turnOn switch with
      | .error refusal => .error refusal
      | .ok draft => readShort draft later
    | some (.parameter parameter) =>
      if later.isEmpty then .ok (.pending draft parameter)
      else (draft.assign parameter (String.ofList (dropEquals later))).map .complete
    | some (.question question) => .ok (.asked question)

/-- Whether an argument cannot be the value of the parameter in front of it: it leads with a hyphen
and is more than that. -/
def isName (argument : String) : Bool :=
  match argument.toList with
  | '-' :: _ :: _ => true
  | _ => false

/-- Read one argument; what is no name is the input. -/
def readArgument (draft : Draft) (argument : String) : Except Refusal Progress :=
  match argument.toList with
  | '-' :: '-' :: name => readLong draft name
  | '-' :: name :: later => readShort draft (name :: later)
  | _ => (draft.place argument).map .complete

/-- What a run is asked for. -/
inductive Request where
  /-- The answer to a question about the program. -/
  | question (question : Question)
  /-- A search. -/
  | search (command : Command)
  deriving DecidableEq

/-- Read arguments from left to right; two hyphens alone make the rest of them positional. -/
def readFrom : Draft → List String → Except Refusal Request
  | draft, [] => draft.command.map .search
  | draft, argument :: later =>
    if argument = "--" then do
      let draft ← later.foldlM Draft.place draft
      return .search (← draft.command)
    else
      match readArgument draft argument with
      | .error refusal => .error refusal
      | .ok (.asked question) => .ok (.question question)
      | .ok (.complete draft) => readFrom draft later
      | .ok (.pending draft parameter) =>
        match later with
        | [] => .error (.valueMissing parameter)
        | value :: later =>
          if isName value then .error (.valueMissing parameter)
          else
            match draft.assign parameter value with
            | .error refusal => .error refusal
            | .ok draft => readFrom draft later

/-- What some arguments ask for. -/
def read (arguments : List String) : Except Refusal Request := readFrom {} arguments

end CommandLine
end NameSearch
