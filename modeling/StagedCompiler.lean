import StagedCompiler.Analysis
import StagedCompiler.Analysis.Binding
import StagedCompiler.Analysis.Checks
import StagedCompiler.Analysis.Resolution
import StagedCompiler.Artifact.Basic
import StagedCompiler.Artifact.Decoding
import StagedCompiler.Artifact.Encoding
import StagedCompiler.Artifact.Layout
import StagedCompiler.Artifact.Listing
import StagedCompiler.Assoc
import StagedCompiler.Catalog.Accessors
import StagedCompiler.Catalog.Basic
import StagedCompiler.Catalog.Builtin
import StagedCompiler.Catalog.ForbiddenCalls
import StagedCompiler.Catalog.Naming
import StagedCompiler.ConfigError
import StagedCompiler.Decimal
import StagedCompiler.Descriptor
import StagedCompiler.Diagnostic
import StagedCompiler.Extension.Basic
import StagedCompiler.Extension.Builtins
import StagedCompiler.Extension.Point
import StagedCompiler.Fault
import StagedCompiler.Json
import StagedCompiler.Location
import StagedCompiler.Lowering.HostPasses
import StagedCompiler.Lowering.Plan
import StagedCompiler.Main
import StagedCompiler.Manifest.Basic
import StagedCompiler.Manifest.Placement
import StagedCompiler.Manifest.Reader
import StagedCompiler.Manifest.Target
import StagedCompiler.Module.Basic
import StagedCompiler.Module.OfTree
import StagedCompiler.Module.Outline
import StagedCompiler.Module.Verify
import StagedCompiler.Operator
import StagedCompiler.Path
import StagedCompiler.Pipeline.Basic
import StagedCompiler.Pipeline.Snapshot
import StagedCompiler.Pipeline.Stage
import StagedCompiler.Project.Basic
import StagedCompiler.Project.Command
import StagedCompiler.Project.FileStore
import StagedCompiler.Project.FileTree
import StagedCompiler.Project.Report
import StagedCompiler.Proofs.Accessors.Completeness
import StagedCompiler.Proofs.Accessors.Offers
import StagedCompiler.Proofs.Accessors.Rewriting
import StagedCompiler.Proofs.Accessors.Simulation
import StagedCompiler.Proofs.Analysis.Acceptance
import StagedCompiler.Proofs.Analysis.Agenda
import StagedCompiler.Proofs.Analysis.Agreement
import StagedCompiler.Proofs.Analysis.Blame
import StagedCompiler.Proofs.Analysis.CleanBindings
import StagedCompiler.Proofs.Analysis.Consulting
import StagedCompiler.Proofs.Analysis.Findings
import StagedCompiler.Proofs.Analysis.FoundBodies
import StagedCompiler.Proofs.Analysis.FoundTypes
import StagedCompiler.Proofs.Analysis.Hearings
import StagedCompiler.Proofs.Analysis.Inspection
import StagedCompiler.Proofs.Analysis.ItemOrder
import StagedCompiler.Proofs.Analysis.LinkedUnits
import StagedCompiler.Proofs.Analysis.Linking
import StagedCompiler.Proofs.Analysis.Lookup
import StagedCompiler.Proofs.Analysis.Matching
import StagedCompiler.Proofs.Analysis.NotedUnits
import StagedCompiler.Proofs.Analysis.Notes
import StagedCompiler.Proofs.Analysis.NothingFound
import StagedCompiler.Proofs.Analysis.Places
import StagedCompiler.Proofs.Analysis.Precedence
import StagedCompiler.Proofs.Analysis.Reports
import StagedCompiler.Proofs.Analysis.Reranking
import StagedCompiler.Proofs.Analysis.SensedUnits
import StagedCompiler.Proofs.Analysis.Senses
import StagedCompiler.Proofs.Analysis.Steps
import StagedCompiler.Proofs.Analysis.Tasks
import StagedCompiler.Proofs.Analysis.Verdicts
import StagedCompiler.Proofs.Artifact.Bundle
import StagedCompiler.Proofs.Artifact.JsonText
import StagedCompiler.Proofs.Catalog.BuiltIn
import StagedCompiler.Proofs.Catalog.Discovery
import StagedCompiler.Proofs.Diagnostic.CanonicalOrder
import StagedCompiler.Proofs.Listing.Balance
import StagedCompiler.Proofs.Listing.BalancedUnits
import StagedCompiler.Proofs.Listing.Correctness
import StagedCompiler.Proofs.Listing.Emission
import StagedCompiler.Proofs.Listing.Legibility
import StagedCompiler.Proofs.Listing.LinedUnits
import StagedCompiler.Proofs.Listing.Lines
import StagedCompiler.Proofs.Listing.Machine
import StagedCompiler.Proofs.Listing.Reading
import StagedCompiler.Proofs.Listing.Simulation
import StagedCompiler.Proofs.Lowering.Faithful
import StagedCompiler.Proofs.Lowering.HostRules
import StagedCompiler.Proofs.Lowering.Idempotence
import StagedCompiler.Proofs.Lowering.IdlePasses
import StagedCompiler.Proofs.Lowering.Merging
import StagedCompiler.Proofs.Lowering.NormalForms
import StagedCompiler.Proofs.Lowering.PassIdentities
import StagedCompiler.Proofs.Lowering.PlanRuns
import StagedCompiler.Proofs.Lowering.Preservation
import StagedCompiler.Proofs.Lowering.Scoping
import StagedCompiler.Proofs.Lowering.SingleSweep
import StagedCompiler.Proofs.Lowering.Sweep
import StagedCompiler.Proofs.Lowering.UnitName
import StagedCompiler.Proofs.Manifest.PlacementText
import StagedCompiler.Proofs.Module.BottomUp
import StagedCompiler.Proofs.Module.Canonical
import StagedCompiler.Proofs.Module.Compaction
import StagedCompiler.Proofs.Module.ConstantText
import StagedCompiler.Proofs.Module.Equivalence
import StagedCompiler.Proofs.Module.Execution
import StagedCompiler.Proofs.Module.Functions
import StagedCompiler.Proofs.Module.Image
import StagedCompiler.Proofs.Module.Layout
import StagedCompiler.Proofs.Module.LinkedTree
import StagedCompiler.Proofs.Module.Locals
import StagedCompiler.Proofs.Module.Meaning
import StagedCompiler.Proofs.Module.Numbered
import StagedCompiler.Proofs.Module.Shape
import StagedCompiler.Proofs.Module.Traversal
import StagedCompiler.Proofs.Module.TypeSoundness
import StagedCompiler.Proofs.Module.TypedUnits
import StagedCompiler.Proofs.Module.Verification
import StagedCompiler.Proofs.Module.WellFormed
import StagedCompiler.Proofs.Ordering
import StagedCompiler.Proofs.Pipeline.Boundary
import StagedCompiler.Proofs.Pipeline.Course
import StagedCompiler.Proofs.Pipeline.Faultless
import StagedCompiler.Proofs.Pipeline.NonInterference
import StagedCompiler.Proofs.Pipeline.Snapshots
import StagedCompiler.Proofs.Project.Building
import StagedCompiler.Proofs.Project.OwnPlaces
import StagedCompiler.Proofs.Project.Places
import StagedCompiler.Proofs.Registry.Discovery
import StagedCompiler.Proofs.Registry.Insertion
import StagedCompiler.Proofs.Registry.Registrations
import StagedCompiler.Proofs.Source.Addresses
import StagedCompiler.Proofs.Source.DocumentOrder
import StagedCompiler.Proofs.Source.Identifiers
import StagedCompiler.Proofs.Source.Numbering
import StagedCompiler.Proofs.Source.Rejection
import StagedCompiler.Proofs.Text.Labels
import StagedCompiler.Proofs.Text.Occurrences
import StagedCompiler.Proofs.Text.SnakeCase
import StagedCompiler.Proofs.Text.Trimming
import StagedCompiler.Proofs.Typing.Judgement
import StagedCompiler.Registry
import StagedCompiler.Source.Assembly
import StagedCompiler.Source.Naming
import StagedCompiler.Source.Reader
import StagedCompiler.Source.Tree
import StagedCompiler.Text.Blank
import StagedCompiler.Text.Case
import StagedCompiler.Text.Printable
import StagedCompiler.Text.Quoted
import StagedCompiler.Text.Span
import StagedCompiler.Toml.Datetime
import StagedCompiler.Toml.Digits
import StagedCompiler.Toml.Document
import StagedCompiler.Toml.Scalar
import StagedCompiler.Toml.Token
import StagedCompiler.Toml.Value
import StagedCompiler.Ty
import StagedCompiler.Word
