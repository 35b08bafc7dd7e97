/-
Workflow.Generation.Basic — one unit of work and its record.

A `Generation` is created, queued, started, and ends completed, failed or
cancelled. Each step of this life is a function that gives the next record
or says why it may not be taken:

* `queue` from created, `start` from queued, `complete` from running;
* `fail` from queued or running;
* `cancel` from every state that is not final.

A final record never changes. `retry` makes a fresh record for the same
work.
-/
import Workflow.Workspace.Basic
import Workflow.Timestamp
import Workflow.Failure

namespace Workflow

/-- How far the work on one step has come. -/
inductive GenerationStatus where
  | created
  | queued
  | running
  | completed
  | failed
  | cancelled
deriving DecidableEq, Repr, Inhabited

namespace GenerationStatus

def all : List GenerationStatus :=
  [.created, .queued, .running, .completed, .failed, .cancelled]

def name : GenerationStatus → String
  | .created => "created"
  | .queued => "queued"
  | .running => "running"
  | .completed => "completed"
  | .failed => "failed"
  | .cancelled => "cancelled"

/-- Whether the record is final. -/
def isTerminal : GenerationStatus → Bool
  | .completed | .failed | .cancelled => true
  | .created | .queued | .running => false

instance : Codec GenerationStatus := .ofNames name all

end GenerationStatus

/-- The run and the workspace that a generation belongs to. -/
structure Origin where
  act : ActId
  workspace : WorkspaceId
deriving DecidableEq, Repr, Inhabited

/-- What a unit of work knows of its place in the graph: its node, the
nodes that feed it, and all connections into it. -/
structure Context where
  node : Node
  sources : List Node
  connections : List Connection
  origin : Origin
deriving DecidableEq, Repr, Inhabited

/-- A value on an output port. -/
inductive Output where
  | text (port : PortId) (content : String)
  | json (port : PortId) (content : Json)
  | image (port : PortId) (contentType uri : String)
deriving DecidableEq, Repr

/-- The record of the work on one step: what it was asked, how far it is, and
what came of it. -/
structure Generation where
  id : GenerationId
  status : GenerationStatus
  context : Context
  outputs : List Output
  error : Option String
  retryOf : Option GenerationId
  createdAt : Timestamp
  queuedAt : Option Timestamp
  startedAt : Option Timestamp
  finishedAt : Option Timestamp
deriving DecidableEq, Repr, Inhabited

/-- Why a record may not change as asked. -/
inductive TransitionError where
  | invalid (generation : GenerationId) (source target : GenerationStatus)
  | terminal (generation : GenerationId) (status : GenerationStatus)
  | retryNotTerminal (generation : GenerationId) (status : GenerationStatus)
deriving DecidableEq, Repr

namespace TransitionError

/-- The wording of a refused change. -/
def report : TransitionError → Report
  | .invalid generation source target =>
    let sourceName := source.name
    let targetName := target.name
    .plain "generation::invalid_transition"
      s!"generation {generation} cannot move from {sourceName} to {targetName}"
  | .terminal generation status =>
    let name := status.name
    .withAdvice "generation::terminal"
      s!"generation {generation} is {name} and can no longer change"
      "Terminal generations are immutable; use `Generation::retry` to run the work again."
  | .retryNotTerminal generation status =>
    let name := status.name
    .plain "generation::retry_not_terminal"
      s!"generation {generation} is {name}; only terminal generations can be retried"

end TransitionError

/-! ## JSON forms -/

instance : Codec Origin where
  encode o := Json.record [present "actId" o.act, present "workspaceId" o.workspace]
  decodeAs := readRecord do
    return { act := ← field "actId", workspace := ← field "workspaceId" }

instance : Codec Context where
  encode c := Json.record
    [present "operationNode" c.node, present "sourceNodes" c.sources,
      present "connections" c.connections, present "origin" c.origin]
  decodeAs := readRecord do
    return { node := ← field "operationNode", sources := ← field "sourceNodes",
             connections := ← field "connections", origin := ← field "origin" }

instance : Codec Output where
  encode
    | .text port content => Json.record
      [present "type" "text", present "portId" port, present "content" content]
    | .json port content => Json.record
      [present "type" "json", present "portId" port, present "content" content]
    | .image port contentType uri => Json.record
      [present "type" "image", present "portId" port, present "contentType" contentType,
        present "uri" uri]
  decodeAs := readTagged "type" ["text", "json", "image"] fun form => do
    match form with
    | "text" => return .text (← field "portId") (← field "content")
    | "json" => return .json (← field "portId") (← field "content")
    | "image" => return .image (← field "portId") (← field "contentType") (← field "uri")
    | _ => failure

instance : Codec Generation where
  encode g := Json.record
    [present "id" g.id, present "status" g.status, present "context" g.context,
      present "outputs" g.outputs, ifSet "error" g.error, ifSet "retryOf" g.retryOf,
      present "createdAt" g.createdAt, ifSet "queuedAt" g.queuedAt,
      ifSet "startedAt" g.startedAt, ifSet "finishedAt" g.finishedAt]
  decodeAs := readRecord do
    return { id := ← field "id", status := ← field "status",
             context := ← field "context", outputs := ← fieldOr "outputs" [],
             error := ← optionalField "error", retryOf := ← optionalField "retryOf",
             createdAt := ← field "createdAt", queuedAt := ← optionalField "queuedAt",
             startedAt := ← optionalField "startedAt",
             finishedAt := ← optionalField "finishedAt" }

/-! ## Comparing -/

namespace Output

/-- The port at which an output leaves its node. -/
def port : Output → PortId
  | .text port _ | .json port _ | .image port _ _ => port

/-- The same output: documents are compared by value. -/
def same : Output → Output → Bool
  | .json p a, .json q b => p == q && a.sameValue b
  | a, b => a == b

end Output

namespace Generation

/-- The same record: outputs are compared by value. -/
def same (a b : Generation) : Bool :=
  { a with outputs := [] } == { b with outputs := [] } &&
    a.outputs.length == b.outputs.length &&
    (a.outputs.zip b.outputs).all fun (x, y) => x.same y

/-! ## Life of a record -/

/-- A fresh record. -/
def new (id : GenerationId) (context : Context) (now : Timestamp) : Generation :=
  ⟨id, .created, context, [], none, none, now, none, none, none⟩

def operation? (g : Generation) : Option Operation := g.context.node.kind.operation?

def isTerminal (g : Generation) : Bool := g.status.isTerminal

/-- Moves to another status, from one of those allowed. -/
def move (g : Generation) (sources : List GenerationStatus) (target : GenerationStatus) :
    Except TransitionError Generation :=
  if g.isTerminal then .error (.terminal g.id g.status)
  else if g.status ∈ sources then .ok { g with status := target }
  else .error (.invalid g.id g.status target)

/-- Work that was created may be asked for. -/
def queue (g : Generation) (time : Timestamp) : Except TransitionError Generation := do
  return { ← g.move [.created] .queued with queuedAt := some time }

/-- Work that was asked for may begin. -/
def start (g : Generation) (time : Timestamp) : Except TransitionError Generation := do
  return { ← g.move [.queued] .running with startedAt := some time }

/-- Work that has begun may end with outputs. -/
def complete (g : Generation) (outputs : List Output) (time : Timestamp) :
    Except TransitionError Generation := do
  return { ← g.move [.running] .completed with outputs, finishedAt := some time }

/-- Work may fail once it was asked for. -/
def fail (g : Generation) (message : String) (time : Timestamp) :
    Except TransitionError Generation := do
  return { ← g.move [.queued, .running] .failed with
    error := some message, finishedAt := some time }

/-- Work that has not ended may be cancelled. -/
def cancel (g : Generation) (time : Timestamp) : Except TransitionError Generation := do
  return { ← g.move [.created, .queued, .running] .cancelled with finishedAt := some time }

/-- A fresh record for the work of a final one. -/
def retry (g : Generation) (id : GenerationId) (now : Timestamp) :
    Except TransitionError Generation :=
  if g.isTerminal then .ok { new id g.context now with retryOf := some g.id }
  else .error (.retryNotTerminal g.id g.status)

end Generation

end Workflow
