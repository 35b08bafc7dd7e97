/-
Workflow.Workspace.Basic — graphs of nodes joined at their ports.

A `Workspace` lists nodes and connections in authored order. Nothing is
assumed about them here: identifiers may repeat and connections may dangle
until `Workspace.validate` has looked. Of several nodes or connections
with one identifier, look-ups answer with the first.
-/
import Workflow.Id
import Workflow.NodeKind

namespace Workflow

/-- A place where connections join a node. -/
structure Port where
  id : PortId
  label : String
deriving DecidableEq, Repr, Inhabited

/-- A node with its input and output ports. -/
structure Node where
  id : NodeId
  name : String
  kind : NodeKind
  inputs : List Port
  outputs : List Port
deriving DecidableEq, Repr, Inhabited

/-- A connection from an output port of one node to an input port of
another. -/
structure Connection where
  id : ConnectionId
  source : NodeId
  sourcePort : PortId
  target : NodeId
  targetPort : PortId
deriving DecidableEq, Repr, Inhabited

/-- A graph of nodes and connections, both in authored order. -/
structure Workspace where
  id : WorkspaceId
  nodes : List Node
  connections : List Connection
deriving DecidableEq, Repr, Inhabited

/-! ## JSON forms -/

instance : Codec Port where
  encode p := Json.record [present "id" p.id, present "label" p.label]
  decodeAs := readRecord do
    return { id := ← field "id", label := ← field "label" }

instance : Codec Node where
  encode n := Json.record
    [present "id" n.id, present "name" n.name, present "kind" n.kind,
      present "inputs" n.inputs, present "outputs" n.outputs]
  decodeAs := readRecord do
    return { id := ← field "id", name := ← field "name", kind := ← field "kind",
             inputs := ← fieldOr "inputs" [], outputs := ← fieldOr "outputs" [] }

instance : Codec Connection where
  encode c := Json.record
    [present "id" c.id, present "outputNode" c.source, present "outputPort" c.sourcePort,
      present "inputNode" c.target, present "inputPort" c.targetPort]
  decodeAs := readRecord do
    return { id := ← field "id", source := ← field "outputNode",
             sourcePort := ← field "outputPort", target := ← field "inputNode",
             targetPort := ← field "inputPort" }

instance : Codec Workspace where
  encode w := Json.record
    [present "id" w.id, present "nodes" w.nodes, present "connections" w.connections]
  decodeAs := readRecord do
    return { id := ← field "id", nodes := ← fieldOr "nodes" [],
             connections := ← fieldOr "connections" [] }

/-! ## Look-ups -/

namespace Node

def isOperation (n : Node) : Bool := n.kind.isOperation

def input? (n : Node) (id : PortId) : Option Port := n.inputs.find? (·.id == id)

def output? (n : Node) (id : PortId) : Option Port := n.outputs.find? (·.id == id)

end Node

namespace Connection

/-- Whether a connection leads back to the node it comes from. -/
def isSelfLoop (c : Connection) : Bool := c.source == c.target

end Connection

/-- The first node with an identifier. -/
def nodeIn? (nodes : List Node) (id : NodeId) : Option Node := nodes.find? (·.id == id)

namespace Workspace

def node? (w : Workspace) (id : NodeId) : Option Node := nodeIn? w.nodes id

def connection? (w : Workspace) (id : ConnectionId) : Option Connection :=
  w.connections.find? (·.id == id)

/-- The connections into a node. -/
def incoming (w : Workspace) (id : NodeId) : List Connection :=
  w.connections.filter (·.target == id)

/-- The connections out of a node. -/
def outgoing (w : Workspace) (id : NodeId) : List Connection :=
  w.connections.filter (·.source == id)

def selfLoops (w : Workspace) : List Connection := w.connections.filter (·.isSelfLoop)

def operations (w : Workspace) : List Node := w.nodes.filter (·.isOperation)

/-- The connections from one node to another, each with the number of
connections of the workspace that stand after it. -/
def between (w : Workspace) (source target : NodeId) : List (Connection × Nat) :=
  scan w.connections
where
  scan : List Connection → List (Connection × Nat)
    | [] => []
    | c :: rest =>
      if c.source = source ∧ c.target = target then (c, rest.length) :: scan rest else scan rest

end Workspace

end Workflow
