/-
Workflow.Plan.Blueprint — an act ready to run, with its generations.

Each layer of a slice becomes a sequence, and each operation in it a step
bound to a generation of its own. An identifier in a layer whose first
node is a variable yields no step.
-/
import Workflow.Plan.Layers
import Workflow.Act.Basic
import Workflow.Generation.Basic

namespace Workflow

/-- A fresh act and the fresh generations of its steps, in plan order. -/
structure Blueprint where
  act : Act
  generations : List Generation
deriving DecidableEq, Repr, Inhabited

namespace Blueprint

/-- The operation that an identifier of a layer stands for. -/
def planned? (s : Slice) (id : NodeId) : Option (Node × Operation) := do
  let node ← s.node? id
  return (node, ← node.kind.operation?)

/-- What the unit of work behind a node is told. -/
def contextOf (s : Slice) (origin : Origin) (node : Node) : Context :=
  let connections := s.connections.filter (·.target == node.id)
  let sourceIds := connections.map (·.source)
  { node
    sources := s.nodes.filter (sourceIds.contains ·.id)
    connections
    origin }

/-- The steps of one layer; `count` steps stand in earlier layers. -/
def stepsFrom (ids : IdSource) (count : Nat) : List (Node × Operation) → List Step
  | [] => []
  | (node, operation) :: rest =>
    { id := ids .step count, node := node.id, name := node.name, operation,
      generation := ids .generation count, status := .queued, durationMs := none } ::
    stepsFrom ids (count + 1) rest

/-- The sequences of the layers; `index` sequences with `count` steps stand
in front. -/
def sequencesFrom (ids : IdSource) (index count : Nat) :
    List (List (Node × Operation)) → List Sequence
  | [] => []
  | layer :: rest =>
    { id := ids .sequence index, status := .queued, steps := stepsFrom ids count layer,
      durationMs := none } ::
    sequencesFrom ids (index + 1) (count + layer.length) rest

/-- The generations of the planned operations; `count` stand in front. -/
def generationsFrom (ids : IdSource) (s : Slice) (origin : Origin) (now : Timestamp)
    (count : Nat) : List (Node × Operation) → List Generation
  | [] => []
  | (node, _) :: rest =>
    Generation.new (ids .generation count) (contextOf s origin node) now ::
    generationsFrom ids s origin now (count + 1) rest

/-- The blueprint of a slice. -/
def ofSlice (ids : IdSource) (now : Timestamp) (workspace : WorkspaceId) (start : NodeId)
    (s : Slice) : Except PlanError Blueprint := do
  let layers ← s.layers
  if layers.isEmpty then throw (.emptyPlan start)
  let plan := layers.map (·.filterMap (planned? s))
  let act := Act.new (ids .act 0) workspace start (sequencesFrom ids 0 0 plan) now
  let origin := { act := act.id, workspace }
  return { act, generations := generationsFrom ids s origin now 0 plan.flatten }

/-- The blueprint of what a start node of a workspace needs. -/
def compile (ids : IdSource) (now : Timestamp) (w : Workspace) (start : NodeId) :
    Except PlanError Blueprint :=
  if (w.node? start).isNone then .error (.unknownStart start)
  else ofSlice ids now w.id start (w.slice start)

end Blueprint

end Workflow
