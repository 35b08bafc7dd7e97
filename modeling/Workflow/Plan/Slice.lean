/-
Workflow.Plan.Slice — the part of a graph that one start node needs.

Two walks decide what is in the slice of a start node. Both look only at
connections whose other node exists, and go on through operations only.

* `pullBackward` takes nodes from a stack, each just once: it includes the
  connections into a node, and the operations that these come from go on the
  stack.
* `pushForward` takes nodes from a queue: it includes the connections out of
  a node. Every node that it comes to for the first time is pulled backward,
  and then waits in the queue if it is an operation.

They share one `Traversal`, so that a node may be included before it is
expanded, and what one walk has expanded the other one does not expand again.
Of nodes or connections that share an identifier the first one is taken, and
it decides what is an operation.
-/
import Workflow.Workspace.Basic
import Workflow.Distinct

namespace Workflow

/-- Nodes and connections cut out of a graph, in authored order. -/
structure Slice where
  nodes : List Node
  connections : List Connection
deriving DecidableEq, Repr, Inhabited

instance : Codec Slice where
  encode s := Json.record [present "nodes" s.nodes, present "connections" s.connections]
  decodeAs := readRecord do
    return { nodes := ← field "nodes", connections := ← field "connections" }

namespace Slice

def empty : Slice := ⟨[], []⟩

def isEmpty (s : Slice) : Bool := s.nodes.isEmpty

def node? (s : Slice) (id : NodeId) : Option Node := nodeIn? s.nodes id

def contains (s : Slice) (id : NodeId) : Bool := (s.node? id).isSome

def operations (s : Slice) : List Node := s.nodes.filter (·.isOperation)

/-- Whether a node with the identifier exists. -/
def isKnown (nodes : List Node) (id : NodeId) : Bool := (nodeIn? nodes id).isSome

/-- Whether the first node with the identifier is an operation. -/
def isOperation (nodes : List Node) (id : NodeId) : Bool := (nodeIn? nodes id).any (·.isOperation)

/-- What the walks have found so far. -/
structure Traversal where
  /-- The nodes that are included. -/
  nodes : List NodeId
  /-- The connections that are included. -/
  connections : List ConnectionId
  /-- The nodes whose incoming connections have been looked at. -/
  expanded : List NodeId

namespace Traversal

section

variable (nodes : List Node) (connections : List Connection)

/-- Includes a connection and its two nodes. -/
def keep (t : Traversal) (c : Connection) : Traversal :=
  { t with
    nodes := (t.nodes.insert c.source).insert c.target
    connections := t.connections.insert c.id }

/-- Marks a node as one whose incoming connections are looked at. -/
def expand (t : Traversal) (node : NodeId) : Traversal :=
  { t with expanded := node :: t.expanded }

/-! ## Backward -/

/-- Looks at one connection on the way back from a node, with the stack of
the nodes that are left to expand. -/
def pull (node : NodeId) (s : Traversal × List NodeId) (c : Connection) :
    Traversal × List NodeId :=
  if c.target = node ∧ isKnown nodes c.source then
    (s.1.keep c, if isOperation nodes c.source then c.source :: s.2 else s.2)
  else s

/-- How many connections lead to none of the given nodes. -/
def unseen (seen : List NodeId) : Nat := connections.countP (·.target ∉ seen)

/-- Expanding a node leaves as many fewer connections to look at as lead to
it. -/
theorem unseen_cons {node : NodeId} {seen : List NodeId} (h : node ∉ seen) :
    unseen connections (node :: seen) + connections.countP (·.target = node) =
      unseen connections seen := by
  unfold unseen
  induction connections with
  | nil => rfl
  | cons c rest ih =>
    simp only [List.countP_cons, ← ih]
    by_cases hc : c.target = node
    · simp [hc, h, Nat.add_assoc]
    · simp [hc]
      omega

@[simp] theorem expanded_pull (node : NodeId) (s : Traversal × List NodeId) (c : Connection) :
    (pull nodes node s c).1.expanded = s.1.expanded := by
  unfold pull
  split <;> rfl

/-- Looks at all connections on the way back from a node. -/
def pullAll (node : NodeId) (s : Traversal × List NodeId) : Traversal × List NodeId :=
  connections.foldl (pull nodes node) s

/-- Looking at the connections into a node expands no other. -/
theorem expanded_pullAll (node : NodeId) (s : Traversal × List NodeId) :
    (pullAll nodes connections node s).1.expanded = s.1.expanded := by
  unfold pullAll
  induction connections generalizing s with
  | nil => rfl
  | cons c rest ih => rw [List.foldl_cons, ih, expanded_pull]

/-- Every connection into the node leaves at most one node on the stack. -/
theorem length_pullAll_le (node : NodeId) (s : Traversal × List NodeId) :
    (pullAll nodes connections node s).2.length ≤
      s.2.length + connections.countP (·.target = node) := by
  unfold pullAll
  induction connections generalizing s with
  | nil => exact Nat.le_refl _
  | cons c rest ih =>
    refine Nat.le_trans (ih _) ?_
    rw [List.countP_cons]
    unfold pull
    split
    · rename_i hc
      simp only [hc.1, decide_true, if_true]
      split
      · rw [List.length_cons]
        omega
      · exact Nat.add_le_add_left (Nat.le_succ _) _
    · omega

/-- Expands the nodes of a stack and all operations that lead to them. -/
def pullBackward (t : Traversal) : List NodeId → Traversal
  | [] => t
  | node :: stack =>
    if _h : node ∈ t.expanded then pullBackward t stack
    else
      let s := pullAll nodes connections node (t.expand node, stack)
      pullBackward s.1 s.2
termination_by stack => unseen connections t.expanded + stack.length
decreasing_by
  · simp
  · have hseen := unseen_cons connections _h
    have hlength := length_pullAll_le nodes connections node (t.expand node, stack)
    simp only [expanded_pullAll, expand, List.length_cons] at hlength ⊢
    omega

/-! ## Forward -/

/-- How far the walk forward has come. -/
structure Frontier where
  traversal : Traversal
  /-- The nodes that it has come to. -/
  visited : List NodeId
  /-- The operations whose outgoing connections are left to follow. -/
  queue : List NodeId

/-- Looks at one connection on the way forward from a node. -/
def follow (node : NodeId) (s : Frontier) (c : Connection) : Frontier :=
  if c.source = node ∧ isKnown nodes c.target then
    let t := s.traversal.keep c
    if c.target ∈ s.visited then { s with traversal := t }
    else
      { traversal := pullBackward nodes connections t [c.target]
        visited := c.target :: s.visited
        queue := if isOperation nodes c.target then s.queue ++ [c.target] else s.queue }
  else s

/-- What the walk forward has left to do. -/
def Frontier.size (s : Frontier) : Nat := unseen connections s.visited + s.queue.length

/-- Following a connection adds one node to the queue at most, which is visited
from then on. -/
theorem size_follow_le {node : NodeId} {s : Frontier} {c : Connection} (hc : c ∈ connections) :
    (follow nodes connections node s c).size connections ≤ s.size connections := by
  unfold follow Frontier.size
  split
  · split
    · exact Nat.le_refl _
    · rename_i hnew
      have hseen := unseen_cons connections hnew
      have hpos : 0 < connections.countP (·.target = c.target) :=
        List.countP_pos_iff.mpr ⟨c, hc, decide_eq_true rfl⟩
      simp only
      split
      · rw [List.length_append, List.length_singleton]
        omega
      · omega
  · exact Nat.le_refl _

/-- Looks at connections on the way forward from a node. -/
def followAll (node : NodeId) (cs : List Connection) (s : Frontier) : Frontier :=
  cs.foldl (follow nodes connections node) s

/-- So the size of what is left does not grow while a node is followed. -/
theorem size_followAll_le (node : NodeId) (s : Frontier) {cs : List Connection}
    (h : ∀ c ∈ cs, c ∈ connections) :
    (followAll nodes connections node cs s).size connections ≤ s.size connections := by
  unfold followAll
  induction cs generalizing s with
  | nil => exact Nat.le_refl _
  | cons c rest ih =>
    exact Nat.le_trans (ih _ fun d hd => h d (List.mem_cons_of_mem _ hd))
      (size_follow_le nodes connections (h c List.mem_cons_self))

/-- Follows the connections out of the nodes of a queue, and on through all
operations that they lead to. -/
def pushForward (t : Traversal) (visited : List NodeId) : List NodeId → Traversal
  | [] => t
  | node :: queue =>
    let s := followAll nodes connections node connections ⟨t, visited, queue⟩
    pushForward s.traversal s.visited s.queue
termination_by queue => unseen connections visited + queue.length
decreasing_by
  have hsize := size_followAll_le nodes connections node ⟨t, visited, queue⟩ fun _ hc => hc
  simp only [Frontier.size] at hsize
  rw [List.length_cons]
  omega

/-- Both walks from one node. -/
def ofStart (start : NodeId) : Traversal :=
  pushForward nodes connections (pullBackward nodes connections ⟨[start], [], []⟩ [start])
    [start] [start]

end

end Traversal

/-- The slice of a start node; empty if there is no such node. -/
def ofStart (start : NodeId) (nodes : List Node) (connections : List Connection) : Slice :=
  if isKnown nodes start then
    let t := Traversal.ofStart nodes connections start
    { nodes := distinctBy (·.id) (nodes.filter (t.nodes.contains ·.id))
      connections := distinctBy (·.id) (connections.filter (t.connections.contains ·.id)) }
  else empty

end Slice

/-- The slice of a workspace. -/
def Workspace.slice (w : Workspace) (start : NodeId) : Slice :=
  Slice.ofStart start w.nodes w.connections

end Workflow
