import NameSearch.Query.Segment

/-!
# Queries

A query is a list of tokens whose letter case no longer matters.  Every raw text is a query: where
its quotations do not close and that is not tolerated, the whole text becomes one term.
-/

namespace NameSearch

/-- A query, ready to be evaluated. -/
structure Query where
  /-- The tokens from left to right. -/
  tokens : List Token := []
  deriving DecidableEq

namespace Query

/-- The tokens of a raw text before normalization: the whole text is one of them where it cannot be
split. -/
def split (tolerant : Bool) (raw : Bytes) : List Token :=
  match tokenize tolerant raw with
  | .ok tokens => tokens
  | .error _ => [Token.bare raw]

/-- The query that a raw text spells. -/
def parseWith (tolerant : Bool) (raw : Bytes) : Query :=
  ⟨(split tolerant raw).map Token.normalize⟩

/-- The query that a raw text spells, where a quotation may stay open. -/
def parse (raw : Bytes) : Query := parseWith true raw

/-- Whether the query has no tokens, so that it holds of everything. -/
def isEmpty (query : Query) : Bool := query.tokens.isEmpty

end Query
end NameSearch
