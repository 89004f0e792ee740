import Netscribe.Assignment
import Netscribe.CommandLine.Flag
import Netscribe.CommandLine.Plan
import Netscribe.CommandLine.RunName
import Netscribe.Config
import Netscribe.Delivery
import Netscribe.Document.Attribute
import Netscribe.Document.Graph
import Netscribe.Document.Json
import Netscribe.Document.Layout
import Netscribe.Document.Schema
import Netscribe.Emission.CallSite
import Netscribe.Emission.Error
import Netscribe.Emission.Node
import Netscribe.Emission.Override
import Netscribe.FileTree
import Netscribe.FileTree.Path
import Netscribe.FileTree.Replace
import Netscribe.Generation
import Netscribe.Graph
import Netscribe.Literal
import Netscribe.Loading
import Netscribe.Main
import Netscribe.Module
import Netscribe.Naming.ClassName
import Netscribe.Naming.FileToken
import Netscribe.Naming.Symbol
import Netscribe.Number.Binary64
import Netscribe.Number.Decimal
import Netscribe.Operator.Catalog
import Netscribe.Operator.Quantization
import Netscribe.Operator.Table
import Netscribe.Policy
import Netscribe.Rendering
import Netscribe.Samples
import Netscribe.Source
import Netscribe.SymbolTable
import Netscribe.Telemetry.Entry
import Netscribe.Telemetry.Field
import Netscribe.Telemetry.Hook
import Netscribe.Telemetry.Journal
import Netscribe.Telemetry.Record
import Netscribe.Text.Category
import Netscribe.Text.Join
import Netscribe.Text.Quoted
import Netscribe.Text.Utf8
import Netscribe.Value
import Netscribe.Yaml.Base64
import Netscribe.Yaml.Cursor
import Netscribe.Yaml.Data
import Netscribe.Yaml.Decoding
import Netscribe.Yaml.Error
import Netscribe.Yaml.Mapping
import Netscribe.Yaml.Node
import Netscribe.Yaml.Node.Reader
import Netscribe.Yaml.Scalar
import Netscribe.Yaml.Timestamp
import Netscribe.Yaml.Token
import Netscribe.Yaml.Token.Lexer
import Netscribe.Yaml.Token.Property
import Netscribe.Yaml.Token.Scalar
import Netscribe.Proofs.Outcome
import Netscribe.Proofs.SymbolTable
import Netscribe.Proofs.Rendering
import Netscribe.Proofs.Override
import Netscribe.Proofs.CallSite
import Netscribe.Proofs.Emission
import Netscribe.Proofs.Generation
import Netscribe.Proofs.DefinedBeforeUse
import Netscribe.Proofs.Buildable
import Netscribe.Proofs.Correspondence
import Netscribe.Proofs.DistinctNames
import Netscribe.Proofs.Construction
import Netscribe.Proofs.Dispatch
import Netscribe.Proofs.Locality
import Netscribe.Proofs.Exchange
import Netscribe.Proofs.Renaming
import Netscribe.Proofs.NameIndependence
import Netscribe.Proofs.Consistency
import Netscribe.Proofs.ClosedGraph
import Netscribe.Proofs.SingleLine
import Netscribe.Proofs.StatementLines
import Netscribe.Proofs.AliasExpansion
import Netscribe.Proofs.AliasDecoding
import Netscribe.Proofs.AliasData
import Netscribe.Proofs.AliasTransparency
import Netscribe.Proofs.PassHooks
import Netscribe.Proofs.Schema
import Netscribe.Proofs.NonFinite
import Netscribe.Proofs.PathText
import Netscribe.Proofs.AtomicDelivery
import Netscribe.Proofs.CleanDecoding
import Netscribe.Proofs.PlainData
import Netscribe.Proofs.FaithfulDecoding
import Netscribe.Proofs.RejectedNodes
import Netscribe.Proofs.ArgumentBinding
import Netscribe.Proofs.Utf8
import Netscribe.Proofs.StringLiteral
import Netscribe.Proofs.Nearest
import Netscribe.Proofs.ShortestDecimal
import Netscribe.Proofs.FloatLiteral
import Netscribe.Proofs.SymbolRuns
import Netscribe.Proofs.Substitution
import Netscribe.Proofs.SourceLines
import Netscribe.Proofs.Rounding
import Netscribe.Proofs.ScalarSpelling
import Netscribe.Proofs.AttributeGrammar
import Netscribe.Proofs.AttributeTrees
import Netscribe.Proofs.Config
import Netscribe.Proofs.FileToken
import Netscribe.Proofs.KeywordNames
import Netscribe.Proofs.TwinTrees
import Netscribe.Proofs.FlagPrecedence
import Netscribe.Proofs.ForwardArguments
import Netscribe.Proofs.ClassName
