import NameSearch.Main
import NameSearch.CommandLine.Run
import NameSearch.Proofs.Bytes.Stopping
import NameSearch.Proofs.Bytes.Encoding
import NameSearch.Proofs.Bytes.Characters
import NameSearch.Proofs.Bytes.Lines
import NameSearch.Proofs.Search.Occurrence
import NameSearch.Proofs.Search.Anchoring
import NameSearch.Proofs.Search.Surroundings
import NameSearch.Proofs.Search.Bounds
import NameSearch.Proofs.Search.Separator
import NameSearch.Proofs.Search.Loosening
import NameSearch.Proofs.Search.Fillers
import NameSearch.Proofs.Search.Characters
import NameSearch.Proofs.Search.LetterCase
import NameSearch.Proofs.Search.Probing
import NameSearch.Proofs.Query.LetterCase
import NameSearch.Proofs.Query.Splitting
import NameSearch.Proofs.Query.Spelling
import NameSearch.Proofs.Query.Unclosed
import NameSearch.Proofs.Query.Walking
import NameSearch.Proofs.Query.SingleTerm
import NameSearch.Proofs.Query.WholeWord
import NameSearch.Proofs.Query.Characters
import NameSearch.Proofs.Query.Tree
import NameSearch.Proofs.Query.TreeEvaluation
import NameSearch.Proofs.Query.Composition
import NameSearch.Proofs.Query.Positive
import NameSearch.Proofs.Query.Sites
import NameSearch.Proofs.Query.Searching
import NameSearch.Proofs.Entry.Scanning
import NameSearch.Proofs.Entry.PlainText
import NameSearch.Proofs.Entry.Joining
import NameSearch.Proofs.Csv.Rereading
import NameSearch.Proofs.Saving
import NameSearch.Proofs.Entry.Exporting
import NameSearch.Proofs.Entry.ExportedLines
import NameSearch.Proofs.Query.AnyCase
import NameSearch.Proofs.Query.Unnegated
import NameSearch.Proofs.Query.Writing
import NameSearch.Proofs.CommandLine.AddedQuery
import NameSearch.Proofs.Prompting
import NameSearch.Proofs.CommandLine.Conversation
import NameSearch.Proofs.Asking
import NameSearch.Proofs.Entry.ExportedRows
import NameSearch.Proofs.Query.Exactness
import NameSearch.Proofs.Csv.Placing
import NameSearch.Proofs.Entry.TableLines
import NameSearch.Proofs.Entry.Streaming
import NameSearch.Proofs.CommandLine.FailedInput
import NameSearch.Proofs.Query.Skipping
import NameSearch.Proofs.Query.Cutting
