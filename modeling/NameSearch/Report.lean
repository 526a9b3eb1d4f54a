import NameSearch.Entry.Feed
import NameSearch.Report.Share
import NameSearch.Text

/-!
# Reports on a selection

A report counts the entries and lists those that were chosen, either in one line each or with the
line number and every field.
-/

namespace NameSearch
namespace Report

/-- An entry in one line. -/
def brief (entry : Entry) : String :=
  "  " ++ ", ".intercalate (entry.fields.map Text.shown) ++ "\n"

/-- A field with its index, on a line of its own. -/
def detail (field : String) (index : Nat) : String := s!"  [{index}] {Text.shown field}\n"

/-- An entry with its line number and every field. -/
def detailed (entry : Entry) : String :=
  s!"Line {entry.line}:\n"
    ++ String.join (entry.fields.zipIdx.map fun (field, index) => detail field index) ++ "\n"

/-- What is said about the chosen entries. -/
def listing (isVerbose : Bool) (selection : Selection) : String :=
  if selection.matched.isEmpty then "No entries matched the filter.\n"
  else
    let count := selection.matched.length
    let share := Share.text count selection.scanned
    s!"Entries matched: {count} ({share}%)\n\n"
      ++ if isVerbose then
          "--- Detailed Listing ---\n\n" ++ String.join (selection.matched.map detailed)
        else String.join (selection.matched.map brief)

/-- The report on a selection. -/
def text (isVerbose : Bool) (selection : Selection) : String :=
  s!"=== Results ===\nEntries scanned: {selection.scanned}\n" ++ listing isVerbose selection

end Report
end NameSearch
