/-
Workflow.Workspace.Builder — putting a workspace together call by call.

A `Builder` draws fresh identifiers from its source and remembers every
failed connection; `Builder.build` reports the first of them, or the first
violation of the result.
-/
import Workflow.Workspace.Validation

namespace Workflow

/-- What was collected so far, with the faults found on the way; identifiers
are drawn as parts are added. -/
structure Builder where
  ids : IdSource
  id : WorkspaceId
  nodes : List Node
  connections : List Connection
  errors : List WorkspaceError
  /-- How many identifiers have been drawn. -/
  nodesDrawn : Nat
  portsDrawn : Nat
  connectionsDrawn : Nat

namespace Builder

def new (ids : IdSource) : Builder := ⟨ids, ids .workspace 0, [], [], [], 0, 0, 0⟩

def withId (b : Builder) (id : WorkspaceId) : Builder := { b with id }

def pushNode (b : Builder) (node : Node) : Builder := { b with nodes := b.nodes ++ [node] }

/-- The last node that was added with an identifier. -/
def node? (b : Builder) (id : NodeId) : Option Node := nodeIn? b.nodes.reverse id

/-- Fresh ports with the given labels; `count` were drawn before. -/
def freshPorts (ids : IdSource) (count : Nat) : List String → List Port
  | [] => []
  | label :: rest => ⟨ids .port count, label⟩ :: freshPorts ids (count + 1) rest

/-- Adds a node with fresh identifiers; its own is answered. -/
def addNode (b : Builder) (name : String) (kind : NodeKind) (inputs outputs : List String) :
    Builder × NodeId :=
  let id := b.ids .node b.nodesDrawn
  let node :=
    { id, name, kind
      inputs := freshPorts b.ids b.portsDrawn inputs
      outputs := freshPorts b.ids (b.portsDrawn + inputs.length) outputs }
  ({ b.pushNode node with
      nodesDrawn := b.nodesDrawn + 1
      portsDrawn := b.portsDrawn + inputs.length + outputs.length }, id)

/-- The first port with a label, of those that `ports` names. -/
def resolve (b : Builder) (ports : Node → List Port) (node : NodeId) (label : String) :
    Except WorkspaceError PortId :=
  match b.node? node with
  | none => .error (.unknownBuilderNode node)
  | some n =>
    match (ports n).find? (·.label == label) with
    | none => .error (.unknownPortLabel node label)
    | some port => .ok port.id

/-- Joins two labelled ports. A failure on either side is remembered, the
source side first; the connection's identifier is drawn in any case. -/
def connect (b : Builder) (source : NodeId) (output : String) (target : NodeId)
    (input : String) : Builder × ConnectionId :=
  let id := b.ids .connection b.connectionsDrawn
  let drawn := { b with connectionsDrawn := b.connectionsDrawn + 1 }
  match b.resolve (·.outputs) source output, b.resolve (·.inputs) target input with
  | .ok sourcePort, .ok targetPort =>
    ({ drawn with
        connections := b.connections ++ [⟨id, source, sourcePort, target, targetPort⟩] }, id)
  | .error e, .ok _ => ({ drawn with errors := b.errors ++ [e] }, id)
  | .ok _, .error e => ({ drawn with errors := b.errors ++ [e] }, id)
  | .error e, .error f => ({ drawn with errors := b.errors ++ [e, f] }, id)

def pushConnection (b : Builder) (c : Connection) : Builder :=
  { b with connections := b.connections ++ [c] }

/-- The workspace as it stands. -/
def buildUnchecked (b : Builder) : Workspace := ⟨b.id, b.nodes, b.connections⟩

/-- The workspace, if no connection failed and it is well-formed. -/
def build (b : Builder) : Except WorkspaceError Workspace :=
  match b.errors with
  | e :: _ => .error e
  | [] => do
    b.buildUnchecked.validate
    return b.buildUnchecked

end Builder

end Workflow
