import SourceDocs.CommandLine.Arguments
import SourceDocs.CommandLine.Run
import SourceDocs.Comment.Candidate
import SourceDocs.Comment.Reading
import SourceDocs.Comment.Scan
import SourceDocs.Comment.Tags
import SourceDocs.Config.Decode
import SourceDocs.Config.Registry
import SourceDocs.Config.Scalar
import SourceDocs.Config.Toml
import SourceDocs.Config.Value
import SourceDocs.Main
import SourceDocs.Pipeline
import SourceDocs.Proofs.Cancellation
import SourceDocs.Proofs.Comment.Block
import SourceDocs.Proofs.Comment.Order
import SourceDocs.Proofs.LineBreak.Buffer
import SourceDocs.Proofs.LineBreak.Comment
import SourceDocs.Proofs.LineBreak.Document
import SourceDocs.Proofs.LineBreak.Entity
import SourceDocs.Proofs.LineBreak.Mark
import SourceDocs.Proofs.LineBreak.Prototype
import SourceDocs.Proofs.LineBreak.Search
import SourceDocs.Proofs.LineBreak.Text
import SourceDocs.Proofs.LineBreak.Title
import SourceDocs.Proofs.LineBreak.Types
import SourceDocs.Proofs.ListCloser
import SourceDocs.Proofs.Parameter
import SourceDocs.Proofs.ScopeRules
import SourceDocs.Proofs.Signature.RoundTrip
import SourceDocs.Render.Format
import SourceDocs.Proofs.CommandLine.Failures
import SourceDocs.Proofs.Comment.Rescan
import SourceDocs.Proofs.CommandLine.Outputs
import SourceDocs.Proofs.Signature.Phrase
import SourceDocs.Proofs.Signature.Pascal
import SourceDocs.Proofs.Signature.PascalRoundTrip
import SourceDocs.Proofs.Headers
import SourceDocs.Proofs.Assignment
import SourceDocs.Proofs.OneLine.Normalize
import SourceDocs.Proofs.BracketOrder
import SourceDocs.Proofs.CommentSymbol
import SourceDocs.Proofs.Comment.Acceptance
import SourceDocs.Proofs.SuffixBrackets
import SourceDocs.Proofs.Signature.PointerRoles
import SourceDocs.Proofs.Comment.Tagged
import SourceDocs.Proofs.InPlace
import SourceDocs.Proofs.TitleParameters
import SourceDocs.Proofs.Symbol.Display
import SourceDocs.Proofs.Symbol.Separators
import SourceDocs.Proofs.Symbol.Identity
import SourceDocs.Proofs.LineTable
import SourceDocs.Proofs.Registry
import SourceDocs.Proofs.TitleDecoration
import SourceDocs.Proofs.Comment.LineContent
import SourceDocs.Proofs.Comment.RuleLine
import SourceDocs.Proofs.HeaderBody
import SourceDocs.Proofs.Literal
import SourceDocs.Proofs.Progress.Mark
