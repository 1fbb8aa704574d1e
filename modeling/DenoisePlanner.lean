import DenoisePlanner.Geometry
import DenoisePlanner.Log
import DenoisePlanner.Pipeline.Draft
import DenoisePlanner.Texture.SwapTable
import DenoisePlanner.Block.Pass
import DenoisePlanner.Frame.Constants
import DenoisePlanner.Frame.Selection
import DenoisePlanner.Technique.Reblur
import DenoisePlanner.Technique.Relax
import DenoisePlanner.Technique.Sigma
import DenoisePlanner.Technique.Reference
import DenoisePlanner.Technique.Basic
import DenoisePlanner.Memory.ScratchBuffer
import DenoisePlanner.Planner.Frame
import DenoisePlanner.Proofs.Agreement
import DenoisePlanner.Proofs.Hazard
import DenoisePlanner.Proofs.Flow
import DenoisePlanner.Proofs.Product
import DenoisePlanner.Proofs.Reset
import DenoisePlanner.Proofs.Stabilization
import DenoisePlanner.Proofs.Continuity
import DenoisePlanner.Proofs.Clearing
import DenoisePlanner.Proofs.Budget
import DenoisePlanner.Proofs.Coherence
import DenoisePlanner.Proofs.Creation
import DenoisePlanner.Proofs.Issue
import DenoisePlanner.Proofs.Multiplicity
import DenoisePlanner.Proofs.Rejection
import DenoisePlanner.Proofs.Restart
import DenoisePlanner.Proofs.Reuse
import DenoisePlanner.Proofs.Blocks
import DenoisePlanner.Proofs.Retry
import DenoisePlanner.Proofs.Upkeep
import DenoisePlanner.Proofs.Workshop
import DenoisePlanner.Proofs.Sequence
import DenoisePlanner.Proofs.Conversation
import DenoisePlanner.Proofs.Roles
import DenoisePlanner.Proofs.Tenancy
import DenoisePlanner.Proofs.Orders
import DenoisePlanner.Proofs.Operations
import DenoisePlanner.Proofs.Sharing
import DenoisePlanner.Proofs.Lookup
import DenoisePlanner.Proofs.Grid
import DenoisePlanner.Proofs.Lanes
import DenoisePlanner.Proofs.Liveness
import DenoisePlanner.Proofs.Indices
