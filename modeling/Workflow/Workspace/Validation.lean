/-
Workflow.Workspace.Validation — the rules of a well-formed workspace.

`Workspace.validate` answers with the first violation: repeated node
identifiers come before anything about connections, and a connection is
checked for a repeated identifier, an unknown source node, an unknown
target node, an unknown output port and an unknown input port, in this
order.
-/
import Workflow.Workspace.Basic
import Workflow.Failure
import Workflow.Text.Quoted

namespace Workflow

/-- What can be wrong with a workspace, or with the calls that built
it. -/
inductive WorkspaceError where
  | duplicateNode (id : NodeId)
  | duplicateConnection (id : ConnectionId)
  | danglingConnection (connection : ConnectionId) (node : NodeId)
  | unknownOutputPort (connection : ConnectionId) (node : NodeId) (port : PortId)
  | unknownInputPort (connection : ConnectionId) (node : NodeId) (port : PortId)
  | unknownPortLabel (node : NodeId) (label : String)
  | unknownBuilderNode (node : NodeId)
deriving DecidableEq, Repr

namespace WorkspaceError

/-- The wording of a violation. -/
def report : WorkspaceError → Report
  | .duplicateNode id =>
    .withAdvice "workspace::duplicate_node" s!"duplicate node id: {id}"
      "Node ids must be unique within a workspace."
  | .duplicateConnection id =>
    .withAdvice "workspace::duplicate_connection" s!"duplicate connection id: {id}"
      "Connection ids must be unique within a workspace."
  | .danglingConnection connection node =>
    .plain "workspace::dangling_connection"
      s!"connection {connection} references unknown node {node}"
  | .unknownOutputPort connection node port =>
    .withAdvice "workspace::unknown_output_port"
      s!"connection {connection} uses unknown output port {port} on node {node}"
      "A connection must start at an output port owned by its source node."
  | .unknownInputPort connection node port =>
    .withAdvice "workspace::unknown_input_port"
      s!"connection {connection} uses unknown input port {port} on node {node}"
      "A connection must end at an input port owned by its destination node."
  | .unknownPortLabel node label =>
    let quoted := Text.quoted label
    .plain "workspace::unknown_port_label" s!"node {node} has no port labelled {quoted}"
  | .unknownBuilderNode node =>
    .plain "workspace::unknown_builder_node" s!"node {node} was not added to the builder"

end WorkspaceError

namespace Workspace

/-! ## Nodes -/

/-- The first identifier of a list that has already been seen. -/
def firstRepeat {α : Type} [DecidableEq α] (seen : List α) : List α → Option α
  | [] => none
  | a :: rest => if a ∈ seen then some a else firstRepeat (a :: seen) rest

/-- The first node identifier at its second occurrence. -/
def checkNodes (nodes : List Node) : Except WorkspaceError Unit :=
  match firstRepeat [] (nodes.map (·.id)) with
  | some id => .error (.duplicateNode id)
  | none => .ok ()

/-! ## Connections -/

/-- The node that a connection names. -/
def endpoint (nodes : List Node) (c : Connection) (id : NodeId) : Except WorkspaceError Node :=
  match nodeIn? nodes id with
  | some node => .ok node
  | none => .error (.danglingConnection c.id id)

/-- Whether a connection joins existing ports of existing nodes. -/
def checkEnds (nodes : List Node) (c : Connection) : Except WorkspaceError Unit := do
  let source ← endpoint nodes c c.source
  let target ← endpoint nodes c c.target
  if (source.output? c.sourcePort).isNone then
    throw (.unknownOutputPort c.id c.source c.sourcePort)
  if (target.input? c.targetPort).isNone then
    throw (.unknownInputPort c.id c.target c.targetPort)

/-- The connections in authored order, after those with the identifiers
`seen`. -/
def checkConnections (nodes : List Node) (seen : List ConnectionId) :
    List Connection → Except WorkspaceError Unit
  | [] => .ok ()
  | c :: rest => do
    if c.id ∈ seen then throw (.duplicateConnection c.id)
    checkEnds nodes c
    checkConnections nodes (c.id :: seen) rest

/-- The first violation of a workspace, if there is one. -/
def validate (w : Workspace) : Except WorkspaceError Unit := do
  checkNodes w.nodes
  checkConnections w.nodes [] w.connections

end Workspace

end Workflow
