/-
Workflow.Event.Basic — what a run tells the outside.

An `Event` concerns an act, one of its sequences or steps, or is a
diagnostic of some other scope. `Event.text` is its line for people,
`Event.envelope` its form for programs.
-/
import Workflow.Act.Basic

namespace Workflow

/-- What can be told of an act. -/
inductive ActEventKind where
  | started
  | completed
  | failed
  | cancelled
deriving DecidableEq, Repr, Inhabited

namespace ActEventKind

def all : List ActEventKind := [.started, .completed, .failed, .cancelled]

def name : ActEventKind → String
  | .started => "started"
  | .completed => "completed"
  | .failed => "failed"
  | .cancelled => "cancelled"

instance : Codec ActEventKind := .ofNames name all

/-- The kind that announces the end of an act. A status that is not final
is announced as a start. -/
def ofStatus : Status → ActEventKind
  | .completed => .completed
  | .failed => .failed
  | .cancelled => .cancelled
  | .queued | .running => .started

end ActEventKind

/-- What can be told of a sequence. -/
inductive SequenceEventKind where
  | started
  | completed
  | failed
  | cancelled
  | skipped
deriving DecidableEq, Repr, Inhabited

namespace SequenceEventKind

def all : List SequenceEventKind := [.started, .completed, .failed, .cancelled, .skipped]

def name : SequenceEventKind → String
  | .started => "started"
  | .completed => "completed"
  | .failed => "failed"
  | .cancelled => "cancelled"
  | .skipped => "skipped"

instance : Codec SequenceEventKind := .ofNames name all

/-- The kind that announces the end of a sequence. A status that is not
final is announced as a completion. -/
def ofStatus : Status → SequenceEventKind
  | .failed => .failed
  | .cancelled => .cancelled
  | .queued | .running | .completed => .completed

end SequenceEventKind

/-- What can be told of a step. -/
inductive StepEventKind where
  | started
  | delta (text : String)
  | completed
  | failed (message : String)
  | cancelled
deriving DecidableEq, Repr, Inhabited

namespace StepEventKind

/-- The names of the kinds. -/
def names : List String := ["started", "delta", "completed", "failed", "cancelled"]

/-- The fields that tell the kind; they stand among those of the event. -/
def fields : StepEventKind → List (String × Option Json)
  | .started => [present "kind" "started"]
  | .delta text => [present "kind" "delta", present "text" text]
  | .completed => [present "kind" "completed"]
  | .failed message => [present "kind" "failed", present "message" message]
  | .cancelled => [present "kind" "cancelled"]

instance : Codec StepEventKind where
  encode kind := Json.record kind.fields
  decodeAs := readTagged "kind" names fun name => do
    match name with
    | "started" => return .started
    | "delta" => return .delta (← field "text")
    | "completed" => return .completed
    | "failed" => return .failed (← field "message")
    | "cancelled" => return .cancelled
    | _ => failure

end StepEventKind

/-- News of an act; its end comes with the time that it took. -/
structure ActEvent where
  act : ActId
  kind : ActEventKind
  durationMs : Option UInt64
deriving DecidableEq, Repr, Inhabited

/-- News of one sequence of an act. -/
structure SequenceEvent where
  act : ActId
  sequence : SequenceId
  kind : SequenceEventKind
deriving DecidableEq, Repr, Inhabited

/-- News of one step of an act. -/
structure StepEvent where
  act : ActId
  step : StepId
  node : NodeId
  name : String
  kind : StepEventKind
deriving DecidableEq, Repr, Inhabited

/-- A message from some part of the program, about no act in particular. -/
structure Diagnostic where
  scope : String
  message : String
deriving DecidableEq, Repr, Inhabited

/-- What sinks are shown. -/
inductive Event where
  | act (event : ActEvent)
  | sequence (event : SequenceEvent)
  | step (event : StepEvent)
  | diagnostic (event : Diagnostic)
deriving DecidableEq, Repr

/-! ## JSON forms -/

instance : Codec ActEvent where
  encode e := Json.record
    [present "actId" e.act, present "kind" e.kind, ifSet "durationMs" e.durationMs]
  decodeAs := readRecord do
    return { act := ← field "actId", kind := ← field "kind",
             durationMs := ← optionalField "durationMs" }

instance : Codec SequenceEvent where
  encode e := Json.record
    [present "actId" e.act, present "sequenceId" e.sequence, present "kind" e.kind]
  decodeAs := readRecord do
    return { act := ← field "actId", sequence := ← field "sequenceId",
             kind := ← field "kind" }

/-- The kind stands among the fields of the event, and is held until they
have been read. -/
instance : Codec StepEvent where
  encode e := Json.record
    ([present "actId" e.act, present "stepId" e.step, present "nodeId" e.node,
      present "name" e.name] ++ e.kind.fields)
  decodeAs reading doc := do
    let kind : StepEventKind ← decodeAs .held doc
    readObject (do
      return { act := ← field "actId", step := ← field "stepId", node := ← field "nodeId",
               name := ← field "name", kind }) reading doc

instance : Codec Diagnostic where
  encode e := Json.record [present "scope" e.scope, present "message" e.message]
  decodeAs := readRecord do
    return { scope := ← field "scope", message := ← field "message" }

instance : Codec Event where
  encode
    | .act e => Json.record [present "type" "act", present "event" e]
    | .sequence e => Json.record [present "type" "sequence", present "event" e]
    | .step e => Json.record [present "type" "step", present "event" e]
    | .diagnostic e => Json.record [present "type" "diagnostic", present "event" e]
  decodeAs := readBeside "type" "event" fun form reading doc =>
    match form with
    | "act" => (decodeAs reading doc).map .act
    | "sequence" => (decodeAs reading doc).map .sequence
    | "step" => (decodeAs reading doc).map .step
    | "diagnostic" => (decodeAs reading doc).map .diagnostic
    | _ => none

namespace Event

/-! ## Making events -/

def ofAct (act : ActId) (kind : ActEventKind) : Event := .act ⟨act, kind, none⟩

def actStarted (act : Act) : Event := ofAct act.id .started

def actFinished (act : ActId) (status : Status) (ms : UInt64) : Event :=
  .act ⟨act, .ofStatus status, some ms⟩

def ofSequence (act : ActId) (sequence : Sequence) (kind : SequenceEventKind) : Event :=
  .sequence ⟨act, sequence.id, kind⟩

def sequenceFinished (act : ActId) (sequence : Sequence) (status : Status) : Event :=
  ofSequence act sequence (.ofStatus status)

def ofStep (act : ActId) (step : Step) (kind : StepEventKind) : Event :=
  .step ⟨act, step.id, step.node, step.name, kind⟩

/-! ## Views -/

/-- A short label of what the event concerns. -/
def scope : Event → String
  | .act _ => "act"
  | .sequence _ => "sequence"
  | .step _ => "step"
  | .diagnostic e => e.scope

/-- The act that the event belongs to; diagnostics belong to none. -/
def act? : Event → Option ActId
  | .act e => some e.act
  | .sequence e => some e.act
  | .step e => some e.act
  | .diagnostic _ => none

/-- The line that people read. -/
def text : Event → String
  | .act ⟨owner, kind, durationMs⟩ =>
    let name := kind.name
    match durationMs with
    | some ms => s!"[{owner}] {name} in {ms}ms"
    | none => s!"[{owner}] {name}"
  | .sequence ⟨owner, id, kind⟩ =>
    let name := kind.name
    s!"[{owner}] sequence {id} {name}"
  | .step ⟨owner, _, _, name, kind⟩ =>
    match kind with
    | .started => s!"[{owner}] {name} started"
    | .delta piece => s!"[{owner}] {name}: {piece}"
    | .completed => s!"[{owner}] {name} completed"
    | .failed message => s!"[{owner}] {name} failed: {message}"
    | .cancelled => s!"[{owner}] {name} cancelled"
  | .diagnostic e => e.message

/-- The name of the kind of event. -/
def typeName : Event → String
  | .act _ => "act"
  | .sequence _ => "sequence"
  | .step _ => "step"
  | .diagnostic _ => "diagnostic"

/-- The fields of the event; those of a diagnostic already stand in the
envelope. -/
def metadata : Event → Json
  | .act e => encode e
  | .sequence e => encode e
  | .step e => encode e
  | .diagnostic _ => .obj []

/-- The form that programs read, less the time of writing. -/
def envelope (e : Event) : Json := Json.record
  [present "type" e.typeName, present "scope" e.scope, present "message" e.text,
    present "metadata" e.metadata]

/-- The form that programs read, written at the given time. -/
def stamped (e : Event) (now : Timestamp) : Json := e.envelope.set "timestamp" (encode now)

end Event

end Workflow
