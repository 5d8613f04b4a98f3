import SborSchema.Batch
import SborSchema.Binary64
import SborSchema.Binary64.Shortest
import SborSchema.Binary64.Text
import SborSchema.Command
import SborSchema.Command.Arguments
import SborSchema.Command.Definitions
import SborSchema.Command.Fixtures
import SborSchema.Command.Run
import SborSchema.Command.Values
import SborSchema.Definition
import SborSchema.Definition.Document
import SborSchema.Definition.Fault
import SborSchema.Digits
import SborSchema.FileTree
import SborSchema.Fixture
import SborSchema.Hex
import SborSchema.Instant
import SborSchema.Integer
import SborSchema.Json
import SborSchema.Json.Decode
import SborSchema.Json.Reader
import SborSchema.Json.Record
import SborSchema.Json.Writer
import SborSchema.Kind
import SborSchema.KindSet
import SborSchema.Main
import SborSchema.NameOrder
import SborSchema.Number
import SborSchema.Options
import SborSchema.ParseError
import SborSchema.Path
import SborSchema.Proofs.Batch
import SborSchema.Proofs.Batch.Progress
import SborSchema.Proofs.Command.Definitions
import SborSchema.Proofs.Command.Files
import SborSchema.Proofs.Command.Values
import SborSchema.Proofs.Definition
import SborSchema.Proofs.Definition.Documents
import SborSchema.Proofs.Digits
import SborSchema.Proofs.Digits.Numeral
import SborSchema.Proofs.FileTree
import SborSchema.Proofs.FileTree.Order
import SborSchema.Proofs.Fixture
import SborSchema.Proofs.Hex
import SborSchema.Proofs.Instant
import SborSchema.Proofs.Integer
import SborSchema.Proofs.Json
import SborSchema.Proofs.Json.Nesting
import SborSchema.Proofs.Json.ReadBack
import SborSchema.Proofs.Json.Strings
import SborSchema.Proofs.Lists
import SborSchema.Proofs.NameOrder
import SborSchema.Proofs.Outcome
import SborSchema.Proofs.Registry
import SborSchema.Proofs.Registry.Loading
import SborSchema.Proofs.Registry.PartialLoading
import SborSchema.Proofs.Schema.Agreement
import SborSchema.Proofs.Schema.Arity
import SborSchema.Proofs.Schema.Blindness
import SborSchema.Proofs.Schema.Congruence
import SborSchema.Proofs.Schema.Correspondence
import SborSchema.Proofs.Schema.Detachment
import SborSchema.Proofs.Schema.Extension
import SborSchema.Proofs.Schema.FirstChild
import SborSchema.Proofs.Schema.FirstError
import SborSchema.Proofs.Schema.Gate
import SborSchema.Proofs.Schema.Lenience
import SborSchema.Proofs.Schema.Limit
import SborSchema.Proofs.Schema.Number
import SborSchema.Proofs.Schema.Payload
import SborSchema.Proofs.Schema.Placement
import SborSchema.Proofs.Schema.Reading
import SborSchema.Proofs.Schema.Related
import SborSchema.Proofs.Schema.Repeated
import SborSchema.Proofs.Schema.Scalar
import SborSchema.Proofs.Schema.Success
import SborSchema.Proofs.Schema.Term
import SborSchema.Proofs.Schema.Unfolding
import SborSchema.Proofs.Schema.Variant
import SborSchema.Proofs.Schema.Walk
import SborSchema.Proofs.Tree.Child
import SborSchema.Proofs.Tree.Depth
import SborSchema.Proofs.Tree.Json
import SborSchema.Proofs.Tree.Kind
import SborSchema.Proofs.Tree.SameData
import SborSchema.Proofs.Tree.Text
import SborSchema.Proofs.TypeExpr.Blindness
import SborSchema.Proofs.TypeExpr.Faithful
import SborSchema.Proofs.TypeExpr.Fault
import SborSchema.Proofs.TypeExpr.Image
import SborSchema.Proofs.TypeExpr.Location
import SborSchema.Proofs.TypeExpr.LongForm
import SborSchema.Proofs.TypeExpr.Name
import SborSchema.Proofs.TypeExpr.Parts
import SborSchema.Proofs.TypeExpr.Reading
import SborSchema.Proofs.TypeExpr.Refusal
import SborSchema.Proofs.TypeExpr.Relaxation
import SborSchema.Proofs.TypeExpr.Reordering
import SborSchema.Proofs.TypeExpr.Shape
import SborSchema.Proofs.TypeExpr.SideBySide
import SborSchema.Proofs.TypeExpr.SpelledOption
import SborSchema.Proofs.Value
import SborSchema.Proofs.Value.Alike
import SborSchema.Proofs.Yaml
import SborSchema.Registry
import SborSchema.Registry.Loading
import SborSchema.Schema
import SborSchema.Schema.Fixpoint
import SborSchema.Schema.Places
import SborSchema.Schema.Product
import SborSchema.Schema.Repeated
import SborSchema.Schema.Scalar
import SborSchema.Schema.Sum
import SborSchema.Settings
import SborSchema.Settings.Document
import SborSchema.Table
import SborSchema.Text.Blank
import SborSchema.Text.Listed
import SborSchema.Text.Quoted
import SborSchema.Text.Visible
import SborSchema.Tree
import SborSchema.Tree.Json
import SborSchema.TypeExpr
import SborSchema.TypeExpr.Compile
import SborSchema.TypeExpr.Document
import SborSchema.TypeExpr.Fault
import SborSchema.TypeExpr.Name
import SborSchema.Value
import SborSchema.Yaml
import SborSchema.Yaml.Cell
import SborSchema.Yaml.Document
import SborSchema.Yaml.Node
import SborSchema.Yaml.Node.Stream
import SborSchema.Yaml.Scalar
import SborSchema.Yaml.Token
import SborSchema.Yaml.Token.Name
import SborSchema.Yaml.Token.Scalar
import SborSchema.Yaml.Token.Stream
import SborSchema.Proofs.Binary64
import SborSchema.Proofs.Integer.Conversion
import SborSchema.Proofs.Integer.Exact
import SborSchema.Proofs.Hex.Denotation
import SborSchema.Proofs.Schema.Bytes
import SborSchema.Proofs.Text.Parts
import SborSchema.Proofs.TypeExpr.Unambiguous
