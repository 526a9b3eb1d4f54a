import NameSearch.Bytes

/-!
# Tokens of a query

A query is a sequence of tokens.  A token keeps the quotation mark it was written in, since only
bare tokens can be keywords or brackets and only bare tokens lose their letter case.
-/

namespace NameSearch

/-- The two quotation marks. -/
inductive Quote where
  /-- The apostrophe. -/
  | single
  /-- The double quotation mark. -/
  | double
  deriving DecidableEq

namespace Quote

/-- The byte that opens and closes a quotation. -/
def byte : Quote → UInt8
  | single => Byte.singleQuote
  | double => Byte.doubleQuote

/-- The quotation mark that a byte is. -/
def ofByte? (byte : UInt8) : Option Quote :=
  if byte = Byte.singleQuote then some single
  else if byte = Byte.doubleQuote then some double
  else none

theorem byte_of_ofByte? {byte : UInt8} {quote : Quote} (isQuote : ofByte? byte = some quote) :
    quote.byte = byte := by
  unfold ofByte? at isQuote
  split at isQuote
  · cases isQuote
    exact Eq.symm ‹_›
  · split at isQuote
    · cases isQuote
      exact Eq.symm ‹_›
    · cases isQuote

end Quote

/-- The words that combine terms. -/
inductive Keyword where
  /-- Conjunction, which is also what adjacency means. -/
  | and
  /-- Start of another branch. -/
  | or
  /-- Negation of the next term or group. -/
  | not
  deriving DecidableEq

namespace Keyword

/-- Spelling of a keyword, in capital letters only. -/
def text : Keyword → Bytes
  | and => Bytes.ofString "AND"
  | or => Bytes.ofString "OR"
  | not => Bytes.ofString "NOT"

/-- The keyword that a text spells. -/
def ofText? (text : Bytes) : Option Keyword :=
  if text = Keyword.and.text then some and
  else if text = Keyword.or.text then some or
  else if text = Keyword.not.text then some not
  else none

theorem text_of_ofText? {text : Bytes} {keyword : Keyword}
    (spelled : ofText? text = some keyword) : keyword.text = text := by
  unfold ofText? at spelled
  split at spelled
  · cases spelled
    exact Eq.symm ‹_›
  · split at spelled
    · cases spelled
      exact Eq.symm ‹_›
    · split at spelled
      · cases spelled
        exact Eq.symm ‹_›
      · cases spelled

end Keyword

/-- A piece of a query: a text and the quotation marks around it, if any. -/
structure Token where
  /-- The text without quotation marks. -/
  text : Bytes
  /-- The quotation mark the token was written in. -/
  quote : Option Quote
  deriving DecidableEq

/-- What a token does in a query. -/
inductive Role where
  /-- Nothing: an empty text is passed over. -/
  | idle
  /-- Opens a group. -/
  | opening
  /-- Closes the innermost open group; a term where none is open. -/
  | closing
  /-- Combines its neighbours. -/
  | keyword (keyword : Keyword)
  /-- Is searched for. -/
  | term
  deriving DecidableEq

namespace Token

/-- A token written without quotation marks. -/
def bare (text : Bytes) : Token := ⟨text, none⟩

/-- Whether the token was written in quotation marks. -/
def isQuoted (token : Token) : Bool := token.quote.isSome

/-- The keyword a token is; quoted tokens are never keywords. -/
def keyword? (token : Token) : Option Keyword :=
  if token.isQuoted then none else Keyword.ofText? token.text

/-- Whether the token is a keyword. -/
def isKeyword (token : Token) : Bool := token.keyword?.isSome

/-- Bare tokens other than keywords lose the case of their ASCII letters. -/
def normalize (token : Token) : Token :=
  if token.isQuoted || token.isKeyword then token else { token with text := token.text.lower }

/-- The opening bracket. -/
def openingText : Bytes := Bytes.ofString "("

/-- The closing bracket. -/
def closingText : Bytes := Bytes.ofString ")"

/-- What the token does: only bare tokens can be brackets or keywords. -/
def role (token : Token) : Role :=
  if token.text = [] then .idle
  else if token.isQuoted then .term
  else if token.text = openingText then .opening
  else if token.text = closingText then .closing
  else
    match Keyword.ofText? token.text with
    | some keyword => .keyword keyword
    | none => .term

end Token
end NameSearch
