import NameSearch.Query.Evaluation

/-!
# Entries

An entry is what the input holds one of per line or per record: some fields of text.  Its fields are
searched one by one, or joined into one text by the separator byte, which every anchor takes for
the edge of a field.
-/

namespace NameSearch

/-- Some fields and the line of the input they come from. -/
structure Entry where
  /-- Number of the line, counted from one. -/
  line : Nat
  /-- The fields in order. -/
  fields : List String
  deriving DecidableEq

/-- How the input is divided into entries. -/
inductive Layout where
  /-- Every line that is not blank is an entry of one field. -/
  | lines
  /-- Every record of comma-separated values is an entry; the first is left out if it is a
  heading. -/
  | table (headed : Bool)
  deriving DecidableEq

/-- How entries are read and chosen. -/
structure Settings where
  /-- How the input is divided into entries. -/
  layout : Layout := .lines
  /-- Whether the fields of an entry are searched as one text. -/
  joined : Bool := false
  /-- How many entries are chosen at most; zero means all. -/
  limit : Nat := 0
  deriving DecidableEq

namespace Entry

/-- The texts that an entry is searched in. -/
def candidates (joined : Bool) (entry : Entry) : List Bytes :=
  let fields := entry.fields.map Bytes.ofString
  if joined then [[Byte.separator].intercalate fields] else fields

/-- Whether an entry satisfies a query. -/
def satisfies (settings : Settings) (query : Query) (comparison : Option Comparison)
    (entry : Entry) : Bool :=
  query.holds (entry.candidates settings.joined) comparison

/-- The entries that satisfy a query, as many as are wanted. -/
def choose (settings : Settings) (query : Query) (comparison : Option Comparison)
    (entries : List Entry) : List Entry :=
  let matching := entries.filter (satisfies settings query comparison)
  if settings.limit = 0 then matching else matching.take settings.limit

end Entry
end NameSearch
