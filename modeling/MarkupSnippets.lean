import MarkupSnippets.CommandLine.Files
import MarkupSnippets.CommandLine.Options
import MarkupSnippets.CommandLine.Run
import MarkupSnippets.Engine
import MarkupSnippets.Expr.Error
import MarkupSnippets.Expr.Eval
import MarkupSnippets.Expr.Lexer
import MarkupSnippets.Expr.Parser
import MarkupSnippets.Expr.Syntax
import MarkupSnippets.Json.Parser
import MarkupSnippets.Json.Syntax
import MarkupSnippets.Main
import MarkupSnippets.Markup.Attributes
import MarkupSnippets.Markup.Doctype
import MarkupSnippets.Markup.Document
import MarkupSnippets.Markup.Event
import MarkupSnippets.Markup.Fault
import MarkupSnippets.Markup.Namespace
import MarkupSnippets.Markup.Reference
import MarkupSnippets.Markup.Syntax
import MarkupSnippets.Markup.Tag
import MarkupSnippets.Number.Basic
import MarkupSnippets.Number.Literal
import MarkupSnippets.Number.Rounding
import MarkupSnippets.Number.Shortest
import MarkupSnippets.Origin
import MarkupSnippets.Output.Syntax
import MarkupSnippets.Output.Writer
import MarkupSnippets.Placeholder
import MarkupSnippets.Production.Chain
import MarkupSnippets.Production.Directive
import MarkupSnippets.Production.Error
import MarkupSnippets.Production.Expand
import MarkupSnippets.Production.Produce
import MarkupSnippets.Record
import MarkupSnippets.Report.Excerpt
import MarkupSnippets.Report.Expression
import MarkupSnippets.Report.Styled
import MarkupSnippets.Settings
import MarkupSnippets.Snippet.Group
import MarkupSnippets.Snippet.Import
import MarkupSnippets.Snippet.Key
import MarkupSnippets.Snippet.Registry
import MarkupSnippets.Snippet.ResourcePath
import MarkupSnippets.Text.Blank
import MarkupSnippets.Text.Cut
import MarkupSnippets.Text.Hex
import MarkupSnippets.Text.Lines
import MarkupSnippets.Text.Width
import MarkupSnippets.Toml
import MarkupSnippets.Value
import MarkupSnippets.Warning
import MarkupSnippets.Proofs.Assignment
import MarkupSnippets.Proofs.Termination
import MarkupSnippets.Proofs.Failure
import MarkupSnippets.Proofs.Recursion
import MarkupSnippets.Proofs.Loading
import MarkupSnippets.Proofs.OutputTags
import MarkupSnippets.Proofs.Relocation
import MarkupSnippets.Proofs.Extension
import MarkupSnippets.Proofs.Definitions
import MarkupSnippets.Proofs.Visits
import MarkupSnippets.Proofs.Imported
import MarkupSnippets.Proofs.History
import MarkupSnippets.Proofs.Raising
import MarkupSnippets.Proofs.Trail
import MarkupSnippets.Proofs.Names
import MarkupSnippets.Proofs.Prefixes
import MarkupSnippets.Proofs.Escaping
import MarkupSnippets.Proofs.Writable
import MarkupSnippets.Proofs.Entries
import MarkupSnippets.Proofs.WrittenTag
import MarkupSnippets.Proofs.ReadBack
import MarkupSnippets.Proofs.Grammar
import MarkupSnippets.Proofs.Spelling
import MarkupSnippets.Proofs.Printing
import MarkupSnippets.Proofs.Search
import MarkupSnippets.Proofs.Trimming
import MarkupSnippets.Proofs.Dependence
import MarkupSnippets.Proofs.Unprefixed
import MarkupSnippets.Proofs.Accord
import MarkupSnippets.Proofs.Indifference
import MarkupSnippets.Proofs.Lockstep
import MarkupSnippets.Proofs.ByteOrder
import MarkupSnippets.Proofs.Groups
import MarkupSnippets.Proofs.Listing
import MarkupSnippets.Proofs.Printout
import MarkupSnippets.Proofs.Choice
import MarkupSnippets.Proofs.Loop
import MarkupSnippets.Proofs.Appending
import MarkupSnippets.Proofs.Texts
import MarkupSnippets.Proofs.AttributeNames
import MarkupSnippets.Proofs.Static
import MarkupSnippets.Proofs.Invariant
import MarkupSnippets.Proofs.DistinctNames
import MarkupSnippets.Proofs.Gaining
import MarkupSnippets.Proofs.Transparency
import MarkupSnippets.Proofs.Census
import MarkupSnippets.Proofs.Segments
import MarkupSnippets.Proofs.Destination
import MarkupSnippets.Proofs.Host
import MarkupSnippets.Proofs.Scanning
import MarkupSnippets.Proofs.Assembly
import MarkupSnippets.Proofs.Lexemes
import MarkupSnippets.Proofs.References
import MarkupSnippets.Proofs.Coherence
import MarkupSnippets.Proofs.Identity
import MarkupSnippets.Proofs.Tiling
import MarkupSnippets.Proofs.Misreading
import MarkupSnippets.Proofs.Scopes
import MarkupSnippets.Proofs.NormalForm
import MarkupSnippets.Proofs.WholeDocuments
import MarkupSnippets.Proofs.Comments
import MarkupSnippets.Proofs.Confluence
import MarkupSnippets.Proofs.Decoding
import MarkupSnippets.Proofs.NamespaceNames
import MarkupSnippets.Proofs.Allocation
