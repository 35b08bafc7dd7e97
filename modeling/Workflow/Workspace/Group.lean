/-
Workflow.Workspace.Group — the parts of a workspace that hang together.

Three passes make the groups. The first one merges the ends of every
connection whose two nodes exist, whatever its direction, and notes the
connection. The second one puts every node into the group of its root, where
the first member of a class opens a new group at the end. The third one adds
the noted connections to the groups of their sources.

So groups stand in the order of their first members, members and connections
in authored order. Every look-up of a root may shorten pointers of the forest
on the way.
-/
import Workflow.Workspace.Basic
import Workflow.Distinct
import Workflow.Graph.UnionFind
import Workflow.Table

namespace Workflow

/-- Nodes that connections join, with these connections. -/
structure Group where
  nodes : List NodeId
  connections : List ConnectionId
deriving DecidableEq, Repr, Inhabited

namespace Group

def size (g : Group) : Nat := g.nodes.length

def isEmpty (g : Group) : Bool := g.nodes.isEmpty

def contains (g : Group) (id : NodeId) : Bool := g.nodes.contains id

def addNode (g : Group) (id : NodeId) : Group := { g with nodes := g.nodes ++ [id] }

def addConnection (g : Group) (id : ConnectionId) : Group :=
  { g with connections := g.connections ++ [id] }

end Group

open Workflow.Graph

/-- The position of an element in a list. -/
def position? {α : Type} [DecidableEq α] (a : α) : (as : List α) → Option (Fin as.length)
  | [] => none
  | b :: rest => if b = a then some ⟨0, by simp⟩ else (position? a rest).map Fin.succ

namespace Workspace

/-- The node identifiers, each once. -/
def nodeIds (w : Workspace) : List NodeId := distinct (w.nodes.map (·.id))

/-- The positions of a connection's two nodes, if both exist. -/
def ends? (ids : List NodeId) (c : Connection) : Option (Fin ids.length × Fin ids.length) := do
  return (← position? c.source ids, ← position? c.target ids)

/-- What the connections looked at so far have joined. -/
structure Joined (n : Nat) where
  /-- The classes of positions. -/
  forest : UnionFind n
  /-- The connections between nodes that exist, each with the position of its
  source. -/
  inner : List (Fin n × ConnectionId)

/-- Every position alone. -/
def Joined.new (n : Nat) : Joined n := ⟨.new n, []⟩

/-- Joins the ends of a connection, if both exist. -/
def Joined.add (ids : List NodeId) (s : Joined ids.length) (c : Connection) :
    Joined ids.length :=
  match ends? ids c with
  | some (a, b) => ⟨(s.forest.union a b).2, s.inner ++ [(a, c.id)]⟩
  | none => s

/-- The first pass: merges the ends of all connections, in order. -/
def join (ids : List NodeId) (connections : List Connection) : Joined ids.length :=
  connections.foldl (Joined.add ids) (.new ids.length)

/-- The groups so far, each one found by the root of its class. -/
structure Sorting (n : Nat) where
  forest : UnionFind n
  groups : Table (Fin n) Group

namespace Sorting

variable {n : Nat}

/-- Puts a member into the group of its root, which is opened for the first
one. -/
def addNode (id : Fin n → NodeId) (s : Sorting n) (i : Fin n) : Sorting n :=
  let found := s.forest.find i
  let group := (s.groups.get? found.root).getD ⟨[], []⟩
  { forest := found.forest, groups := s.groups.insert found.root (group.addNode (id i)) }

/-- Adds a connection to the group of its source. -/
def addConnection (s : Sorting n) (e : Fin n × ConnectionId) : Sorting n :=
  let found := s.forest.find e.1
  { forest := found.forest
    groups := match s.groups.get? found.root with
      | some group => s.groups.insert found.root (group.addConnection e.2)
      | none => s.groups }

end Sorting

/-- All members and connections in their groups. -/
def sorted (ids : List NodeId) (connections : List Connection) : Sorting ids.length :=
  let joined := join ids connections
  joined.inner.foldl Sorting.addConnection
    ((List.finRange ids.length).foldl (Sorting.addNode (ids[·])) ⟨joined.forest, .empty⟩)

/-- The groups of a workspace. -/
def groups (w : Workspace) : List Group := (sorted w.nodeIds w.connections).groups.entries.map (·.2)

/-- The group of a node. -/
def groupOf (w : Workspace) (id : NodeId) : Option Group := w.groups.find? (·.contains id)

end Workspace

end Workflow
