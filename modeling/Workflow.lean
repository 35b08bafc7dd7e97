import Workflow.Json.Read
import Workflow.Json.Write
import Workflow.Workspace.Builder
import Workflow.Workspace.Group
import Workflow.Plan.Blueprint
import Workflow.Event.Bus
import Workflow.Config
import Workflow.Simulation.Rehearsal
import Workflow.Proofs.Graph.Reach
import Workflow.Proofs.Plan.Slice
import Workflow.Proofs.Plan.Blueprint
import Workflow.Proofs.Plan.Traversal
import Workflow.Proofs.Plan.ExactSlice
import Workflow.Proofs.Plan.ExactLayers
import Workflow.Proofs.Executor.Sound
import Workflow.Proofs.Generation.Flights
import Workflow.Proofs.Generation.Exclusive
import Workflow.Proofs.Executor.Resolution
import Workflow.Proofs.Engine.Moves
import Workflow.Proofs.Engine.Scene
import Workflow.Proofs.Engine.Dependencies
import Workflow.Proofs.Text.Digits
import Workflow.Proofs.Timestamp
import Workflow.Proofs.Act.Codec
import Workflow.Proofs.Act.Field
import Workflow.Proofs.Engine.Batch
import Workflow.Proofs.Engine.Progress
import Workflow.Proofs.Engine.Recorded
import Workflow.Proofs.Engine.Consistency
import Workflow.Proofs.Engine.FinalRecord
import Workflow.Proofs.Executor.Works
import Workflow.Proofs.Engine.StepAgreement
import Workflow.Proofs.Engine.Agreement
import Workflow.Proofs.Engine.StepView
import Workflow.Proofs.Engine.Delivery
import Workflow.Proofs.Engine.Cancellation
import Workflow.Proofs.Engine.LateStart
import Workflow.Proofs.Engine.Race
import Workflow.Proofs.Executor.Final
import Workflow.Proofs.Act.Frame
import Workflow.Proofs.Store.Totals
import Workflow.Proofs.Store.Likeness
import Workflow.Proofs.Store.Replay
import Workflow.Proofs.Engine.Lifecycle
import Workflow.Proofs.Engine.Forecast
import Workflow.Proofs.Engine.Performance
import Workflow.Proofs.RoundTrip
import Workflow.Proofs.Engine.Announcement
import Workflow.Proofs.Engine.Protocol
import Workflow.Proofs.Engine.Duet
import Workflow.Proofs.Graph.UnionFind
import Workflow.Proofs.Workspace.Sorting
import Workflow.Proofs.Workspace.Group
import Workflow.Proofs.Executor.Effect
import Workflow.Proofs.Executor.InStep
import Workflow.Proofs.Executor.Custody
import Workflow.Proofs.Event.Delivery
import Workflow.Proofs.Event.Flush
import Workflow.Proofs.Generation.Stream
import Workflow.Proofs.Patch.Commutation
import Workflow.Proofs.Act.Lens
import Workflow.Proofs.Engine.Abort
import Workflow.Proofs.Json.Canonical
import Workflow.Proofs.Patch.Refusal
import Workflow.Proofs.Plan.Reslice
import Workflow.Proofs.Workspace.SliceGroup
import Workflow.Proofs.Plan.Verdict
import Workflow.Proofs.Generation.Life
import Workflow.Proofs.Id
import Workflow.Proofs.Workspace.Builder
import Workflow.Proofs.Plan.Binding
import Workflow.Proofs.Graph.History
