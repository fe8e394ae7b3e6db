import ApiDocs.Builder
import ApiDocs.CommandLine.Arguments
import ApiDocs.CommandLine.Run
import ApiDocs.Config
import ApiDocs.Data.Readable
import ApiDocs.Data.Tree
import ApiDocs.Declaration
import ApiDocs.Directive.Key
import ApiDocs.Directive.Record
import ApiDocs.Disk.Basic
import ApiDocs.Disk.Path
import ApiDocs.Disk.Walk
import ApiDocs.Document.Basic
import ApiDocs.Document.Decode
import ApiDocs.Document.Encode
import ApiDocs.Document.Method
import ApiDocs.Extraction
import ApiDocs.FieldMarks
import ApiDocs.FieldType
import ApiDocs.Finding
import ApiDocs.Format
import ApiDocs.Json.Read
import ApiDocs.Json.Write
import ApiDocs.Keyed.Dict
import ApiDocs.Keyed.Table
import ApiDocs.Main
import ApiDocs.Outline
import ApiDocs.Pipeline
import ApiDocs.Proofs.Slots
import ApiDocs.Registry
import ApiDocs.Route
import ApiDocs.Schema
import ApiDocs.Source.Grammar.Expressions
import ApiDocs.Source.Grammar.Items
import ApiDocs.Source.Grammar.Patterns
import ApiDocs.Source.Grammar.Types
import ApiDocs.Source.Item
import ApiDocs.Source.Lexer
import ApiDocs.Source.Parse
import ApiDocs.Source.Reader
import ApiDocs.Source.Token
import ApiDocs.Source.WireName
import ApiDocs.Status
import ApiDocs.Text.Blank
import ApiDocs.Text.Decimal
import ApiDocs.Text.Identifier
import ApiDocs.Text.UpperCase
import ApiDocs.Viewer
import ApiDocs.Word
import ApiDocs.Yaml.Cell
import ApiDocs.Yaml.Node
import ApiDocs.Yaml.Read
import ApiDocs.Yaml.Scalar
import ApiDocs.Yaml.Token
import ApiDocs.Yaml.Token.Name
import ApiDocs.Yaml.Token.Scalar
import ApiDocs.Yaml.Token.Scan
import ApiDocs.Yaml.Write
import ApiDocs.Proofs.Reports
import ApiDocs.Proofs.Protocol
import ApiDocs.Proofs.Units
import ApiDocs.Proofs.Assembly
import ApiDocs.Proofs.Parts
import ApiDocs.Proofs.Places
import ApiDocs.Proofs.TreeExtraction
import ApiDocs.Proofs.BuildOrder
import ApiDocs.Proofs.Reading
import ApiDocs.Proofs.JsonText
import ApiDocs.Proofs.DocumentText
import ApiDocs.Proofs.Recovery
import ApiDocs.Proofs.Findings
import ApiDocs.Proofs.References
import ApiDocs.Proofs.WellFormed
import ApiDocs.Proofs.Responses
import ApiDocs.Proofs.SlotBinding
import ApiDocs.Proofs.Yaml.Cells
import ApiDocs.Proofs.Yaml.Quoted
import ApiDocs.Proofs.Yaml.Plain
import ApiDocs.Proofs.Yaml.Literal
import ApiDocs.Proofs.Yaml.Scanning
import ApiDocs.Proofs.Yaml.Scalars
import ApiDocs.Proofs.Yaml.Blocks
import ApiDocs.Proofs.Leaves
import ApiDocs.Proofs.Yaml.Nodes
import ApiDocs.Proofs.YamlText
import ApiDocs.Proofs.Yaml.Flow
import ApiDocs.Proofs.Yaml.FlowTrees
import ApiDocs.Proofs.FormatAgreement
import ApiDocs.Proofs.Directive.Keys
import ApiDocs.Proofs.Directive.Joins
import ApiDocs.Proofs.Directive.Records
import ApiDocs.Proofs.Directive.Prose
import ApiDocs.Proofs.Directive.Rows
import ApiDocs.Proofs.Directive.Comments
import ApiDocs.Proofs.Directive.CommentStyle
import ApiDocs.Proofs.Transcript
import ApiDocs.Proofs.EntryChecks
import ApiDocs.Proofs.RouteChecks
import ApiDocs.Proofs.OperationIds
import ApiDocs.Proofs.Parameters
import ApiDocs.Proofs.Bounds
import ApiDocs.Proofs.FieldShapes
import ApiDocs.Proofs.MarkClauses
import ApiDocs.Proofs.RequiredNames
import ApiDocs.Proofs.Declarations
import ApiDocs.Proofs.Overwrites
import ApiDocs.Proofs.Identifiers
import ApiDocs.Proofs.Source.Extension
import ApiDocs.Proofs.Source.Extension.Depth
import ApiDocs.Proofs.WireEntries
import ApiDocs.Proofs.Directories
import ApiDocs.Proofs.ErrorResponses
import ApiDocs.Proofs.DiskGrowth
import ApiDocs.Proofs.ViewerExport
import ApiDocs.Proofs.DocBlocks
import ApiDocs.Proofs.Regrouping
import ApiDocs.Proofs.RepeatOrder
import ApiDocs.Proofs.NumericText
