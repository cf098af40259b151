import NodeModel.Arena.Basic
import NodeModel.Arena.Clone
import NodeModel.Arena.Value
import NodeModel.Arena.Walk
import NodeModel.Command.Arguments
import NodeModel.Command.Config
import NodeModel.Command.Describe
import NodeModel.Command.Load
import NodeModel.Command.Run
import NodeModel.Decimal.Real
import NodeModel.Decimal.Shortest
import NodeModel.Declaration.Field
import NodeModel.Declaration.Header
import NodeModel.Declaration.Problem
import NodeModel.Declaration.Text
import NodeModel.Files.Access
import NodeModel.Files.Directory
import NodeModel.Files.Path
import NodeModel.Hierarchy.Basic
import NodeModel.Hierarchy.Defect
import NodeModel.Hierarchy.Layout
import NodeModel.Json.Fault
import NodeModel.Json.Lexeme
import NodeModel.Json.Shape
import NodeModel.Json.Skip
import NodeModel.Json.Value
import NodeModel.Main
import NodeModel.Model.Basic
import NodeModel.Model.Document
import NodeModel.Proofs.Arena.CloneLaw
import NodeModel.Proofs.Arena.CloneRun
import NodeModel.Proofs.Arena.Cloning
import NodeModel.Proofs.Arena.Completeness
import NodeModel.Proofs.Arena.Construction
import NodeModel.Proofs.Arena.Counterpart
import NodeModel.Proofs.Arena.Equality
import NodeModel.Proofs.Arena.Frame
import NodeModel.Proofs.Arena.Freshness
import NodeModel.Proofs.Arena.Operations
import NodeModel.Proofs.Arena.Ownership
import NodeModel.Proofs.Arena.Routes
import NodeModel.Proofs.Arena.Run
import NodeModel.Proofs.Arena.Safety
import NodeModel.Proofs.Arena.Unfolding
import NodeModel.Proofs.Arena.Valid
import NodeModel.Proofs.Arena.Walking
import NodeModel.Proofs.Arena.WriteOnce
import NodeModel.Proofs.Command.Completion
import NodeModel.Proofs.Command.Generation
import NodeModel.Proofs.Declaration.Canonical
import NodeModel.Proofs.Declaration.Composition
import NodeModel.Proofs.Declaration.FieldGrammar
import NodeModel.Proofs.Declaration.FieldLine
import NodeModel.Proofs.Declaration.HeaderGrammar
import NodeModel.Proofs.Declaration.HeaderLine
import NodeModel.Proofs.Declaration.Layout
import NodeModel.Proofs.Declaration.Progress
import NodeModel.Proofs.Declaration.Reading
import NodeModel.Proofs.Declaration.Refusals
import NodeModel.Proofs.Declaration.RoundTrip
import NodeModel.Proofs.Files.Directory
import NodeModel.Proofs.Hierarchy.Blocks
import NodeModel.Proofs.Hierarchy.Cycles
import NodeModel.Proofs.Hierarchy.Flattening
import NodeModel.Proofs.Hierarchy.Layouts
import NodeModel.Proofs.Hierarchy.Preorder
import NodeModel.Proofs.Hierarchy.Structure
import NodeModel.Proofs.Hierarchy.Superclass
import NodeModel.Proofs.Json.Quoting
import NodeModel.Proofs.Json.Reading
import NodeModel.Proofs.Json.Spelling
import NodeModel.Proofs.Lookup
import NodeModel.Proofs.Model.Document
import NodeModel.Proofs.Outcome
import NodeModel.Proofs.Resolution.Acceptance
import NodeModel.Proofs.Resolution.Consistency
import NodeModel.Proofs.Resolution.Descent
import NodeModel.Proofs.Resolution.Externals
import NodeModel.Proofs.Resolution.Growth
import NodeModel.Proofs.Resolution.Indicators
import NodeModel.Proofs.Resolution.Leaves
import NodeModel.Proofs.Resolution.Pass
import NodeModel.Proofs.Resolution.Records
import NodeModel.Proofs.Resolution.Redeclarations
import NodeModel.Proofs.Resolution.Reordering
import NodeModel.Proofs.Resolution.Reports
import NodeModel.Proofs.Resolution.Targets
import NodeModel.Proofs.Schema.Document
import NodeModel.Proofs.Schema.Externals
import NodeModel.Proofs.Source.Assignment
import NodeModel.Proofs.Source.Bodies
import NodeModel.Proofs.Source.Cloning
import NodeModel.Proofs.Source.Closure
import NodeModel.Proofs.Source.Code
import NodeModel.Proofs.Source.Conformity
import NodeModel.Proofs.Source.Construction
import NodeModel.Proofs.Source.Dispatch
import NodeModel.Proofs.Source.Fuel
import NodeModel.Proofs.Source.Identifiers
import NodeModel.Proofs.Source.Meaning
import NodeModel.Proofs.Source.Members
import NodeModel.Proofs.Source.Outline
import NodeModel.Proofs.Source.Reading
import NodeModel.Proofs.Source.Representation
import NodeModel.Proofs.Source.Simulation
import NodeModel.Proofs.Source.Spelling
import NodeModel.Proofs.Source.Symbols
import NodeModel.Proofs.Source.TypeNames
import NodeModel.Proofs.Text.Lines
import NodeModel.Proofs.Text.Pieces
import NodeModel.Proofs.Text.Tokens
import NodeModel.Resolution.Basic
import NodeModel.Resolution.Copying
import NodeModel.Schema.Basic
import NodeModel.Schema.Build
import NodeModel.Schema.Document
import NodeModel.Schema.External
import NodeModel.Source.Expr
import NodeModel.Source.Identifier
import NodeModel.Source.Item
import NodeModel.Source.Text
import NodeModel.Target
import NodeModel.Text.LetterCase
import NodeModel.Text.Pieces
import NodeModel.Text.Quoted
import NodeModel.Toml.Lexeme
import NodeModel.Toml.Reader
import NodeModel.Toml.Scalar
import NodeModel.Toml.Value
