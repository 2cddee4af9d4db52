import InfraGraph.Interpretation.Literal
import InfraGraph.Main
import InfraGraph.Proofs.SideBySide
import InfraGraph.Proofs.Graph.Index
import InfraGraph.Proofs.Graph.Timestamps
import InfraGraph.Sources.Tree
import InfraGraph.Proofs.Block.Decoration
import InfraGraph.Proofs.Graph.RelationPass
import InfraGraph.Proofs.Interpretation.Layers
import InfraGraph.Proofs.Interpretation.Related
import InfraGraph.Proofs.Interpretation.Timestamps
import InfraGraph.Proofs.Interpretation.Component
import InfraGraph.Proofs.Interpretation.Event
import InfraGraph.Proofs.Interpretation.Passes
import InfraGraph.Proofs.Interpretation.Growth
import InfraGraph.Proofs.Interpretation.Integrity
import InfraGraph.Proofs.Graph.Rearrangement
import InfraGraph.Proofs.Interpretation.CodeFree
import InfraGraph.Proofs.Interpretation.Order
import InfraGraph.Proofs.Interpretation.Reachable
import InfraGraph.Proofs.Reading.Sequences
import InfraGraph.Proofs.Reading.Reader
import InfraGraph.Proofs.Reading.Takes
import InfraGraph.Proofs.Reading.Gives
import InfraGraph.Proofs.Definition.Placement
import InfraGraph.Proofs.Definition.Tree
import InfraGraph.Proofs.Definition.Unambiguous
import InfraGraph.Proofs.Definition.Completeness
import InfraGraph.Proofs.Definition.Soundness
import InfraGraph.Proofs.Definition.Derivation
import InfraGraph.Proofs.Block.Writing
import InfraGraph.Proofs.Block.Precedence
import InfraGraph.Proofs.Reading.Pieces
import InfraGraph.Proofs.Reading.Spelling
import InfraGraph.Proofs.Block.Spelling
import InfraGraph.Proofs.Block.RoundTrip
import InfraGraph.Proofs.Definition.Spelling
import InfraGraph.Proofs.Definition.TypeText
import InfraGraph.Proofs.Definition.RoundTrip
import InfraGraph.Proofs.Interpretation.Defaults
import InfraGraph.Proofs.Graph.DecoratedGraph
import InfraGraph.Proofs.Interpretation.Processors
import InfraGraph.Proofs.Interpretation.Summary
import InfraGraph.Proofs.Graph.Duplicates
import InfraGraph.Proofs.Reading.Errors
import InfraGraph.Proofs.Definition.Errors
import InfraGraph.Proofs.Block.Errors
import InfraGraph.Proofs.Text.Parts
import InfraGraph.Proofs.Reading.Places
import InfraGraph.Proofs.Definition.Comments
import InfraGraph.Proofs.Definition.Uncommented
import InfraGraph.Proofs.Value.JsonReading
import InfraGraph.Proofs.Value.JsonRoundTrip
import InfraGraph.Proofs.Graph.Publication
import InfraGraph.Proofs.Graph.Identifiers
import InfraGraph.Proofs.Interpretation.Lookup
import InfraGraph.Proofs.Interpretation.Merging
import InfraGraph.Proofs.Interpretation.Mismatch
import InfraGraph.Proofs.Reading.Following
import InfraGraph.Proofs.Reading.Tiling
import InfraGraph.Proofs.Definition.Tiling
import InfraGraph.Proofs.Block.Tiling
import InfraGraph.Proofs.Reading.Consumes
import InfraGraph.Proofs.Definition.Frames
import InfraGraph.Proofs.Definition.Positions
import InfraGraph.Proofs.Text.Lines
import InfraGraph.Proofs.Reading.Dividing
import InfraGraph.Proofs.Block.Layout
import InfraGraph.Proofs.Block.Indentation
import InfraGraph.Proofs.Reading.Alike
import InfraGraph.Proofs.Block.Alike
import InfraGraph.Proofs.Block.Separators
import InfraGraph.Proofs.Block.Arithmetic
import InfraGraph.Proofs.Block.Indexing
import InfraGraph.Proofs.Graph.RelationItems
import InfraGraph.Proofs.Text.Pattern
import InfraGraph.Proofs.Graph.Links
import InfraGraph.Proofs.Block.Equality
import InfraGraph.Proofs.Block.DecimalText
import InfraGraph.Proofs.Definition.LiteralText
import InfraGraph.Proofs.Interpretation.Integers
import InfraGraph.Proofs.Graph.Snapshot
import InfraGraph.Proofs.Reading.Location
import InfraGraph.Proofs.Sources.Discovery
import InfraGraph.Proofs.Sources.ExtensionSetting
import InfraGraph.Proofs.Interpretation.Constants
import InfraGraph.Proofs.Block.Resolution
import InfraGraph.Proofs.Block.Timestamps
import InfraGraph.Proofs.Block.Bindings
