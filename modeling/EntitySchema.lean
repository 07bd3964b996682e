import EntitySchema.Analysis.Diagnostic
import EntitySchema.Analysis.Rule
import EntitySchema.Command.Check
import EntitySchema.Command.Invocation
import EntitySchema.Command.Run
import EntitySchema.Config
import EntitySchema.DefaultValue
import EntitySchema.Directives
import EntitySchema.Emit.Document
import EntitySchema.Emit.Draft
import EntitySchema.Emit.Emitter
import EntitySchema.Emit.View
import EntitySchema.Expression.Error
import EntitySchema.Expression.Grammar
import EntitySchema.Expression.Parser
import EntitySchema.Expression.Read
import EntitySchema.Field.Basic
import EntitySchema.Field.Parse
import EntitySchema.Files.Discovery
import EntitySchema.Files.Ignore
import EntitySchema.Files.Path
import EntitySchema.Files.Tree
import EntitySchema.Files.Wildcard
import EntitySchema.Hash
import EntitySchema.Json.Basic
import EntitySchema.Json.Reader
import EntitySchema.Loader
import EntitySchema.Main
import EntitySchema.Number.Binary
import EntitySchema.Number.Decimal
import EntitySchema.OrderedMap
import EntitySchema.Proofs.Analysis.InputOrder
import EntitySchema.Proofs.Analysis.Integrity
import EntitySchema.Proofs.Analysis.Location
import EntitySchema.Proofs.Analysis.Order
import EntitySchema.Proofs.Checked.Schema
import EntitySchema.Proofs.Command.Overlap
import EntitySchema.Proofs.Command.Verdict
import EntitySchema.Proofs.Dimensions
import EntitySchema.Proofs.Directives
import EntitySchema.Proofs.Emit.Document
import EntitySchema.Proofs.Emit.Json
import EntitySchema.Proofs.Emit.Shown
import EntitySchema.Proofs.Expression.Blame
import EntitySchema.Proofs.Expression.Failure
import EntitySchema.Proofs.Expression.Fault
import EntitySchema.Proofs.Expression.Layout
import EntitySchema.Proofs.Expression.Reading
import EntitySchema.Proofs.Expression.Syntax
import EntitySchema.Proofs.Field.Acceptance
import EntitySchema.Proofs.Field.DefaultBlame
import EntitySchema.Proofs.Field.Grammar
import EntitySchema.Proofs.Field.Length
import EntitySchema.Proofs.Field.Parsed
import EntitySchema.Proofs.Field.RoundTrip
import EntitySchema.Proofs.Field.Shape
import EntitySchema.Proofs.Field.SuffixOrder
import EntitySchema.Proofs.Field.TypeMeaning
import EntitySchema.Proofs.Field.WellFormed
import EntitySchema.Proofs.Files.Path
import EntitySchema.Proofs.Files.Upward
import EntitySchema.Proofs.Json.Decode
import EntitySchema.Proofs.Json.Double
import EntitySchema.Proofs.Json.Printed
import EntitySchema.Proofs.Json.Quoted
import EntitySchema.Proofs.Loader.Failure
import EntitySchema.Proofs.Loader.Group
import EntitySchema.Proofs.Loader.Transparency
import EntitySchema.Proofs.Loader.Unchanged
import EntitySchema.Proofs.Number.Digits
import EntitySchema.Proofs.Number.Numeral
import EntitySchema.Proofs.Number.RoundTrip
import EntitySchema.Proofs.Number.Rounding
import EntitySchema.Proofs.OrderedMap
import EntitySchema.Proofs.Record
import EntitySchema.Proofs.Relation.Choice
import EntitySchema.Proofs.Relation.Dispatch
import EntitySchema.Proofs.Schema.Assembled
import EntitySchema.Proofs.Schema.Canonical
import EntitySchema.Proofs.Schema.DirectiveForms
import EntitySchema.Proofs.Schema.DirectiveText
import EntitySchema.Proofs.Schema.Fingerprint
import EntitySchema.Proofs.Schema.Partition
import EntitySchema.Proofs.Schema.Refusal
import EntitySchema.Proofs.Text.Decoding
import EntitySchema.Proofs.Text.Order
import EntitySchema.Proofs.Token.Closed
import EntitySchema.Proofs.Token.Lexemes
import EntitySchema.Proofs.Token.Position
import EntitySchema.Proofs.Token.Prefix
import EntitySchema.Proofs.Token.Quoted
import EntitySchema.Proofs.Token.Respaced
import EntitySchema.Proofs.Token.Segmentation
import EntitySchema.Proofs.Token.Spelling
import EntitySchema.Proofs.Token.Step
import EntitySchema.Proofs.Token.Written
import EntitySchema.Proofs.Yaml.Alias
import EntitySchema.Proofs.Yaml.Endless
import EntitySchema.Proofs.Yaml.Exactness
import EntitySchema.Relation
import EntitySchema.Schema.Basic
import EntitySchema.Schema.Declaration
import EntitySchema.Schema.Render
import EntitySchema.Text.Base64
import EntitySchema.Text.Basic
import EntitySchema.Text.Case
import EntitySchema.Text.CodeRange
import EntitySchema.Text.Letter
import EntitySchema.Text.Printable
import EntitySchema.Text.Quoted
import EntitySchema.Text.Rune
import EntitySchema.Text.Space
import EntitySchema.Timestamp
import EntitySchema.Token.Basic
import EntitySchema.Token.Keyword
import EntitySchema.Token.Lexer
import EntitySchema.TypeExpr
import EntitySchema.Value
import EntitySchema.Yaml.Block
import EntitySchema.Yaml.Comment
import EntitySchema.Yaml.Decode
import EntitySchema.Yaml.Node
import EntitySchema.Yaml.Piece
import EntitySchema.Yaml.Resolve
import EntitySchema.Yaml.Scalar
import EntitySchema.Yaml.Scanner
import EntitySchema.Yaml.Settings
import EntitySchema.Yaml.Source
import EntitySchema.Yaml.Spelling
import EntitySchema.Yaml.Tag
import EntitySchema.Yaml.Token
