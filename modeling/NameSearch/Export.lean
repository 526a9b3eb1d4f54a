import NameSearch.Csv.Written
import NameSearch.Entry
import NameSearch.Text

/-!
# Exporting entries

Chosen entries are written to a file, either as plain lines with the fields between tabs or as
comma-separated values that lead with the line number.
-/

namespace NameSearch

/-- How an exported file is written. -/
inductive ExportFormat where
  /-- Fields as they are shown, with tabs between them. -/
  | plain
  /-- Comma-separated values: the line number and the fields unchanged. -/
  | table
  deriving DecidableEq

namespace ExportFormat

/-- The line of an entry in a plain file. -/
def plainLine (entry : Entry) : String :=
  "\t".intercalate (entry.fields.map Text.shown) ++ "\n"

/-- The record of an entry in a table. -/
def tableRecord (entry : Entry) : List Bytes :=
  Bytes.ofString (toString entry.line) :: entry.fields.map Bytes.ofString

/-- What an entry is written as. -/
def written : ExportFormat → Entry → Bytes
  | plain, entry => Bytes.ofString (plainLine entry)
  | table, entry => Csv.writtenRecord (tableRecord entry)

/-- Content of the file that some entries are exported to. -/
def content (format : ExportFormat) (entries : List Entry) : Bytes :=
  entries.flatMap format.written

end ExportFormat
end NameSearch
