import Listing.Counts
import Listing.Database
import Listing.Endpoint
import Listing.Envelope
import Listing.Equality
import Listing.Failure
import Listing.Fault
import Listing.Filter
import Listing.Form
import Listing.Json.Embedding
import Listing.Json.Token
import Listing.Json.Tree
import Listing.Json.Value
import Listing.Json.Writer
import Listing.Notice
import Listing.Numeric.Binary64
import Listing.Numeric.Digits
import Listing.Numeric.Integer
import Listing.Numeric.Literal
import Listing.Numeric.Shortest
import Listing.Paging
import Listing.Parameters
import Listing.Query
import Listing.Resource
import Listing.Resource.Samples
import Listing.Search
import Listing.Sorting
import Listing.Sql.Clause
import Listing.Sql.Like
import Listing.Sql.Statement
import Listing.Sql.Value
import Listing.Table
import Listing.Text.Blank
import Listing.Text.Utf8
import Listing.Text.Utf8.Lemmas
import Listing.Proofs.LikeMatching
import Listing.Proofs.Alignment
import Listing.Proofs.Language
import Listing.Proofs.ConditionReader
import Listing.Proofs.Meaning
import Listing.Proofs.PageWalk
import Listing.Proofs.SharedCondition
import Listing.Proofs.Layout
import Listing.Proofs.Numbering
import Listing.Proofs.EscapeDeclaration
import Listing.Proofs.Agreement
import Listing.Proofs.Suppliers
import Listing.Proofs.Pieces
import Listing.Proofs.Exchanges
import Listing.Proofs.Spelling
import Listing.Proofs.Documents
import Listing.Proofs.DocumentValues
import Listing.Proofs.WrittenFilters
import Listing.Proofs.PageBounds
import Listing.Proofs.Disclosure
import Listing.Proofs.JoinedArrays
import Listing.Proofs.FilterElements
import Listing.Proofs.Decimals
import Listing.Proofs.PageTexts
import Listing.Proofs.OrderSource
import Listing.Proofs.EqualityOutcomes
import Listing.Proofs.NoticeParts
import Listing.Proofs.SpelledQueries
import Listing.Proofs.SurroundingBlanks
import Listing.Proofs.WrittenAnswers
import Listing.Proofs.EscapedTexts
