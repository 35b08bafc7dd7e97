/-
Workflow.Act.Basic — the record of one run of a plan.

An `Act` lists its sequences in the order in which they run; the steps of
a sequence run side by side. Statuses, counters and durations record how
far the run has come.
-/
import Workflow.Id
import Workflow.NodeKind
import Workflow.Timestamp

namespace Workflow

/-- How far an act, a sequence or a step has come. -/
inductive Status where
  | queued
  | running
  | completed
  | failed
  | cancelled
deriving DecidableEq, Repr, Inhabited

namespace Status

def all : List Status := [.queued, .running, .completed, .failed, .cancelled]

def name : Status → String
  | .queued => "queued"
  | .running => "running"
  | .completed => "completed"
  | .failed => "failed"
  | .cancelled => "cancelled"

/-- Whether nothing more will happen. -/
def isTerminal : Status → Bool
  | .completed | .failed | .cancelled => true
  | .queued | .running => false

instance : Codec Status := .ofNames name all

end Status

/-- How many steps of an act wait, run, and have ended. -/
structure StepCounts where
  queued : UInt64
  inProgress : UInt64
  completed : UInt64
  failed : UInt64
deriving DecidableEq, Repr, Inhabited

/-- Milliseconds that a run took, and that its steps took together. -/
structure ActDuration where
  wallClock : UInt64
  totalTask : UInt64
deriving DecidableEq, Repr, Inhabited

/-- How serious an annotation is. -/
inductive Level where
  | info
  | warn
  | error
deriving DecidableEq, Repr, Inhabited

namespace Level

def all : List Level := [.info, .warn, .error]

def name : Level → String
  | .info => "info"
  | .warn => "warn"
  | .error => "error"

instance : Codec Level := .ofNames name all

end Level

/-- A note on an act, or on one of its steps. -/
structure Annotation where
  level : Level
  message : String
  sequence : Option SequenceId
  step : Option StepId
deriving DecidableEq, Repr, Inhabited

namespace Annotation

def info (message : String) : Annotation := ⟨.info, message, none, none⟩

def error (message : String) : Annotation := ⟨.error, message, none, none⟩

def forStep (a : Annotation) (sequence : SequenceId) (step : StepId) : Annotation :=
  { a with sequence := some sequence, step := some step }

end Annotation

/-- One operation of a plan, and the generation that does its work. -/
structure Step where
  id : StepId
  node : NodeId
  name : String
  operation : Operation
  generation : GenerationId
  status : Status
  durationMs : Option UInt64
deriving DecidableEq, Repr, Inhabited

/-- Steps that run side by side. -/
structure Sequence where
  id : SequenceId
  status : Status
  steps : List Step
  durationMs : Option UInt64
deriving DecidableEq, Repr, Inhabited

/-- The record of one execution of a plan: sequences of steps, with counters,
times and annotations about them. -/
structure Act where
  id : ActId
  workspace : WorkspaceId
  startNode : NodeId
  status : Status
  steps : StepCounts
  duration : ActDuration
  annotations : List Annotation
  sequences : List Sequence
  createdAt : Timestamp
deriving DecidableEq, Repr, Inhabited

/-! ## JSON forms -/

/-- Before anything is counted. -/
def StepCounts.zero : StepCounts := ⟨0, 0, 0, 0⟩

instance : Codec StepCounts where
  encode c := Json.record
    [present "queued" c.queued, present "inProgress" c.inProgress,
      present "completed" c.completed, present "failed" c.failed]
  decodeAs := readRecord do
    return { queued := ← field "queued", inProgress := ← field "inProgress",
             completed := ← field "completed", failed := ← field "failed" }

/-- Before anything has taken time. -/
def ActDuration.zero : ActDuration := ⟨0, 0⟩

instance : Codec ActDuration where
  encode d := Json.record
    [present "wallClock" d.wallClock, present "totalTask" d.totalTask]
  decodeAs := readRecord do
    return { wallClock := ← field "wallClock", totalTask := ← field "totalTask" }

instance : Codec Annotation where
  encode a := Json.record
    [present "level" a.level, present "message" a.message, ifSet "sequenceId" a.sequence,
      ifSet "stepId" a.step]
  decodeAs := readRecord do
    return { level := ← field "level", message := ← field "message",
             sequence := ← optionalField "sequenceId", step := ← optionalField "stepId" }

instance : Codec Step where
  encode s := Json.record
    [present "id" s.id, present "nodeId" s.node, present "name" s.name,
      present "operation" s.operation, present "generationId" s.generation,
      present "status" s.status, ifSet "durationMs" s.durationMs]
  decodeAs := readRecord do
    return { id := ← field "id", node := ← field "nodeId", name := ← field "name",
             operation := ← field "operation", generation := ← field "generationId",
             status := ← fieldOr "status" .queued,
             durationMs := ← optionalField "durationMs" }

instance : Codec Sequence where
  encode s := Json.record
    [present "id" s.id, present "status" s.status, present "steps" s.steps,
      ifSet "durationMs" s.durationMs]
  decodeAs := readRecord do
    return { id := ← field "id", status := ← fieldOr "status" .queued,
             steps := ← field "steps", durationMs := ← optionalField "durationMs" }

instance : Codec Act where
  encode a := Json.record
    [present "id" a.id, present "workspaceId" a.workspace, present "startNodeId" a.startNode,
      present "status" a.status, present "steps" a.steps, present "duration" a.duration,
      present "annotations" a.annotations, present "sequences" a.sequences,
      present "createdAt" a.createdAt]
  decodeAs := readRecord do
    return { id := ← field "id", workspace := ← field "workspaceId",
             startNode := ← field "startNodeId", status := ← fieldOr "status" .queued,
             steps := ← fieldOr "steps" .zero, duration := ← fieldOr "duration" .zero,
             annotations := ← fieldOr "annotations" [],
             sequences := ← field "sequences", createdAt := ← field "createdAt" }

/-! ## Views -/

namespace Act

/-- A fresh act: everything is queued and counted as such. -/
def new (id : ActId) (workspace : WorkspaceId) (startNode : NodeId) (sequences : List Sequence)
    (now : Timestamp) : Act where
  id
  workspace
  startNode
  status := .queued
  steps := { StepCounts.zero with
    queued := UInt64.ofNat (sequences.flatMap (·.steps)).length }
  duration := .zero
  annotations := []
  sequences
  createdAt := now

def isTerminal (a : Act) : Bool := a.status.isTerminal

/-- The number of steps in all sequences. -/
def stepCount (a : Act) : Nat := (a.sequences.flatMap (·.steps)).length

/-- The step at a position of a sequence. -/
def step? (a : Act) (i j : Nat) : Option Step := a.sequences[i]?.bind (·.steps[j]?)

/-- Every step with the positions of its sequence and of itself in it. -/
def positions (a : Act) : List (Nat × Nat × Step) :=
  a.sequences.zipIdx.flatMap fun (sequence, i) =>
    sequence.steps.zipIdx.map fun (step, j) => (i, j, step)

end Act

end Workflow
