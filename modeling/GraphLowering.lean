import GraphLowering.Buffer
import GraphLowering.Command.Arguments
import GraphLowering.Command.Options
import GraphLowering.Command.Run
import GraphLowering.Command.Sample
import GraphLowering.Decimal.Literal
import GraphLowering.Decimal.Shortest
import GraphLowering.Edit
import GraphLowering.ElementType
import GraphLowering.Event
import GraphLowering.Graph.Basic
import GraphLowering.Graph.Contract
import GraphLowering.Graph.Detachment
import GraphLowering.Graph.Dump
import GraphLowering.Graph.Error
import GraphLowering.Graph.Insertion
import GraphLowering.Graph.Lemmas
import GraphLowering.Graph.Order
import GraphLowering.Listing
import GraphLowering.Lowering.BatchNorm
import GraphLowering.Lowering.Chain
import GraphLowering.Lowering.Convolution
import GraphLowering.Lowering.Draft
import GraphLowering.Lowering.Error
import GraphLowering.Lowering.Layout
import GraphLowering.Lowering.Lift
import GraphLowering.Lowering.Replace
import GraphLowering.Lowering.Report
import GraphLowering.Lowering.TransposedConvolution
import GraphLowering.Main
import GraphLowering.NameIndex
import GraphLowering.Operator
import GraphLowering.Permutation
import GraphLowering.Primitive
import GraphLowering.Proofs.Ends
import GraphLowering.Proofs.Growth
import GraphLowering.Proofs.WellFormed
import GraphLowering.Quantization
import GraphLowering.Shape
import GraphLowering.Table
import GraphLowering.Tensor
import GraphLowering.Values
import GraphLowering.Proofs.Insertion
import GraphLowering.Proofs.Emission
import GraphLowering.Proofs.Drafts
import GraphLowering.Proofs.Chains
import GraphLowering.Proofs.Rollback
import GraphLowering.Proofs.Replacement
import GraphLowering.Proofs.Reachability
import GraphLowering.Proofs.Invariant
import GraphLowering.Proofs.Linking
import GraphLowering.Proofs.Supply
import GraphLowering.Proofs.Exactness
import GraphLowering.Proofs.Acyclicity
import GraphLowering.Proofs.Order
import GraphLowering.Proofs.Meaning.Execution
import GraphLowering.Proofs.Meaning.Lifting
import GraphLowering.Proofs.Meaning.Convolution
import GraphLowering.Proofs.WholeGraph
import GraphLowering.Proofs.Meaning.Scattering
import GraphLowering.Proofs.Meaning.TransposedConvolution
import GraphLowering.Proofs.RelocatedDrafts
import GraphLowering.Proofs.Outlines
import GraphLowering.Proofs.Success
import GraphLowering.Proofs.Feeding
import GraphLowering.Proofs.Rewiring
import GraphLowering.Proofs.Matching
import GraphLowering.Proofs.Boundary
import GraphLowering.Proofs.Independence
import GraphLowering.Proofs.Commuting
import GraphLowering.Proofs.Meaning.Evaluation
import GraphLowering.Proofs.Meaning.Preservation
import GraphLowering.Proofs.Calls
import GraphLowering.Proofs.Tracking
import GraphLowering.Proofs.Naming
import GraphLowering.Proofs.Refusals
import GraphLowering.Proofs.Acceptance
import GraphLowering.Proofs.ChainCheck
import GraphLowering.Proofs.Stopping
import GraphLowering.Proofs.Contracts
import GraphLowering.Proofs.Samples
import GraphLowering.Proofs.ExitCode
import GraphLowering.Proofs.ShapeRules
import GraphLowering.Proofs.DumpedShapes
import GraphLowering.Proofs.CanonicalOrder
import GraphLowering.Proofs.Restoration
import GraphLowering.Proofs.Reattachment
import GraphLowering.Proofs.Frame
import GraphLowering.Proofs.Lowerable
import GraphLowering.Proofs.Meaning.Normalization
import GraphLowering.Proofs.Meaning.QuantizedAxes
import GraphLowering.Proofs.Atomicity
import GraphLowering.Proofs.SingleUse
import GraphLowering.Proofs.ChainShape
import GraphLowering.Proofs.Denial
import GraphLowering.Proofs.Locality
import GraphLowering.Proofs.RestoredTables
import GraphLowering.Proofs.Retrial
import GraphLowering.Proofs.Permutations
import GraphLowering.Proofs.InverseSizes
import GraphLowering.Proofs.Meaning.ChannelGroups
import GraphLowering.Proofs.Meaning.ChannelBias
import GraphLowering.Proofs.Reshaping
import GraphLowering.Proofs.GeneratedNames
