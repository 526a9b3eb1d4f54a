import NameSearch.CommandLine.Arguments

/-!
# Help

The program tells its version and how it is used.  Each argument stands in a row of its own, with
its names in front of what it does.
-/

namespace NameSearch
namespace CommandLine

/-- What a switch is for. -/
def Switch.about : Switch → String
  | table => "Read input as CSV, one entry per record"
  | heading => "Treat the first CSV record as a header"
  | joined => "Match an entry's fields as one separator-joined string"
  | loose => "Ignore spaces, dashes, underscores and dots between query letters"
  | verbose => "Show line numbers and every field of each match"

/-- What a parameter is for, and its value unless another is given. -/
def Parameter.about : Parameter → String
  | query => "Search query; starts an interactive prompt when omitted"
  | limit => "Limit the number of results (0 = no limit) [default: 0]"
  | exportPath => "Export the matches to this file"
  | format => "Export file format [default: txt] [possible values: txt, csv]"

/-- What is told in answer to a question. -/
def Question.about : Question → String
  | help => "Print help"
  | version => "Print version"

namespace Named

/-- What something with a name is for. -/
def about : Named → String
  | switch flag => flag.about
  | parameter setting => setting.about
  | question asked => asked.about

/-- The short name, unless there is none. -/
def letter? (named : Named) : Option Char :=
  (shortNames.find? fun (_, other) => other = named).map Prod.fst

/-- How an argument is written. -/
def usage (named : Named) : String :=
  let short := named.letter?.elim "    " fun letter => s!"-{letter}, "
  let value :=
    match named with
    | parameter setting => s!" <{setting.name.toUpper}>"
    | _ => ""
  s!"{short}--{named.name}{value}"

end Named

/-- What is told of the arguments: how each is written and what it is for, in two columns. -/
def optionsText : String :=
  let width := (allNamed.map fun named => named.usage.length).foldl max 0
  String.join (allNamed.map fun named =>
    let usage := named.usage
    "  " ++ usage.pushn ' ' (width - usage.length) ++ s!"  {named.about}\n")

/-- How the program is used. -/
def helpText : String :=
  "Filter lists of names with a small boolean search language\n\n"
    ++ "Usage: name-filter [OPTIONS] [INPUT]\n\n"
    ++ "Arguments:\n"
    ++ "  [INPUT]  Input file, one entry per line (stdin when omitted or `-`)\n\n"
    ++ s!"Options:\n{optionsText}"

/-- The answer to a question. -/
def Question.answer : Question → String
  | help => helpText
  | version => "name-filter 0.1.0\n"

end CommandLine
end NameSearch
