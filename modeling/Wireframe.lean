import Wireframe.Text.LineIndex
import Wireframe.Text.Uppercase
import Wireframe.Number.Decimal
import Wireframe.Number.Shortest
import Wireframe.OrderedMap
import Wireframe.Tree
import Wireframe.Registry
import Wireframe.Value
import Wireframe.Diagnostic
import Wireframe.Token
import Wireframe.Token.Piece
import Wireframe.Token.Scan
import Wireframe.Block
import Wireframe.Block.Expectation
import Wireframe.Block.Reader
import Wireframe.Project
import Wireframe.Project.Visitor
import Wireframe.SourceMap
import Wireframe.SourceMap.Query
import Wireframe.SourceMap.Index
import Wireframe.Project.OfBlock
import Wireframe.SourceMap.Insertion
import Wireframe.Problem
import Wireframe.Finding
import Wireframe.Validation.Elements
import Wireframe.Validation.Definitions
import Wireframe.Reference
import Wireframe.Validation
import Wireframe.Analysis
import Wireframe.Json
import Wireframe.Diagnostic.Json
import Wireframe.Project.Json
import Wireframe.SourceMap.Json
import Wireframe.Analysis.Json
import Wireframe.Arguments
import Wireframe.Config
import Wireframe.Toml
import Wireframe.Toml.Scalar
import Wireframe.Toml.Reader
import Wireframe.Toml.Settings
import Wireframe.Files
import Wireframe.Notice
import Wireframe.Check
import Wireframe.Main
import Wireframe.Proofs.Analysis
import Wireframe.Proofs.ClosedWalk
import Wireframe.Proofs.Reference
import Wireframe.Proofs.Grammar
import Wireframe.Proofs.ReadBack
import Wireframe.Proofs.ReaderInvariant
import Wireframe.Proofs.ReaderProgress
import Wireframe.Proofs.Reading
import Wireframe.Proofs.Validation
import Wireframe.Proofs.Placement
import Wireframe.Proofs.Position
import Wireframe.Proofs.PieceForm
import Wireframe.Proofs.Recutting
import Wireframe.Proofs.Lossless
import Wireframe.Proofs.LineBreak
import Wireframe.Proofs.Links
import Wireframe.Proofs.Numbering
import Wireframe.Proofs.Tickets
import Wireframe.Proofs.Mirror
import Wireframe.Proofs.DraftOrder
import Wireframe.Proofs.Grafting
import Wireframe.Proofs.Outline
import Wireframe.Proofs.Formatting
import Wireframe.Proofs.ProjectBlocks
import Wireframe.Proofs.Appending
import Wireframe.Proofs.Planting
import Wireframe.Proofs.Splicing
import Wireframe.Proofs.Insertion
import Wireframe.Proofs.BlockForm
import Wireframe.Proofs.WrittenOrder
import Wireframe.Proofs.DraftForest
import Wireframe.Proofs.Nesting
import Wireframe.Proofs.DocumentIds
import Wireframe.Proofs.Slices
import Wireframe.Proofs.DraftForm
import Wireframe.Proofs.Slicing
import Wireframe.Proofs.Pointing
import Wireframe.Proofs.Files
import Wireframe.Proofs.Strictness
import Wireframe.Proofs.Hierarchy
import Wireframe.Proofs.Lookup
import Wireframe.Proofs.Indexing
import Wireframe.Proofs.ViablePrefix
import Wireframe.Proofs.Verdicts
import Wireframe.Proofs.CycleMembers
import Wireframe.Proofs.FailingPhase
import Wireframe.Proofs.InsertionPoints
import Wireframe.Proofs.NestingLimit
import Wireframe.Proofs.TreeDepth
import Wireframe.Proofs.PositionCount
import Wireframe.Proofs.Traversals
import Wireframe.Proofs.WithoutIds
import Wireframe.Proofs.Quoting
