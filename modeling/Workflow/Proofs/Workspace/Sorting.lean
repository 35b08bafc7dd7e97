/-
Workflow.Proofs.Workspace.Sorting — what the three passes of the grouping
come to.

A look-up of a root may shorten pointers, so that the forest changes from
element to element; the roots stay as they are. `Sorted` is the invariant of
the second and the third pass: the groups stand in the order of their first
members, and each has what belongs to its root of all that has been looked at.

* `forest` — the classes after the first pass, and `inner_join`, what it has
  noted.
* `groups_eq` — one group for each root, with the members and connections of
  its class in authored order.
-/
import Mathlib.Data.List.Induction
import Workflow.Proofs.Graph.UnionFind
import Workflow.Proofs.Plan.Layers
import Workflow.Workspace.Group

namespace Workflow.Workspace

open Workflow.Graph

variable {ids : List NodeId} {connections : List Connection} {c : Connection}

/-! ## The first pass -/

/-- The classes of positions that connections join. -/
def forest (ids : List NodeId) (connections : List Connection) : UnionFind ids.length :=
  (join ids connections).forest

theorem join_concat (ids : List NodeId) (connections : List Connection) (c : Connection) :
    join ids (connections ++ [c]) = (join ids connections).add ids c := by
  simp [join]

theorem forest_concat_of_none (h : ends? ids c = none) :
    forest ids (connections ++ [c]) = forest ids connections := by
  simp [forest, join_concat, Joined.add, h]

theorem forest_concat_of_some {ends : Fin ids.length × Fin ids.length}
    (h : ends? ids c = some ends) :
    forest ids (connections ++ [c]) = ((forest ids connections).union ends.1 ends.2).2 := by
  simp [forest, join_concat, Joined.add, h]

/-- The connections between nodes that exist are noted in authored order, each
with the position of its source. -/
theorem inner_join (ids : List NodeId) (connections : List Connection) :
    (join ids connections).inner =
      connections.filterMap fun c => (ends? ids c).map fun ends => (ends.1, c.id) := by
  induction connections using List.reverseRecOn with
  | nil => rfl
  | append_singleton rest c ih =>
    rw [join_concat, Joined.add, List.filterMap_append, ← ih]
    cases h : ends? ids c with
    | none => simp [h]
    | some ends => simp [h]

/-! ## The other passes -/

section

variable {n : Nat} {u : UnionFind n} {id : Fin n → NodeId} {is : List (Fin n)}
  {links : List (Fin n × ConnectionId)} {s : Sorting n}

/-- What belongs to a root, of the given members and connections. -/
def groupFrom (u : UnionFind n) (id : Fin n → NodeId) (is : List (Fin n))
    (links : List (Fin n × ConnectionId)) (r : Fin n) : Group where
  nodes := (is.filter (u.root · = r)).map id
  connections := (links.filter (u.root ·.1 = r)).map (·.2)

/-- The groups of the members and connections looked at so far. -/
structure Sorted (u : UnionFind n) (id : Fin n → NodeId) (is : List (Fin n))
    (links : List (Fin n × ConnectionId)) (s : Sorting n) : Prop where
  /-- Finding a root shortens ways and moves no root. -/
  root_eq : ∀ i, s.forest.root i = u.root i
  /-- A slot is made for a root when its first member comes. -/
  keys_eq : s.groups.keys = distinct (is.map u.root)
  get?_eq : ∀ r ∈ is.map u.root, s.groups.get? r = some (groupFrom u id is links r)

theorem Sorted.find_root (h : Sorted u id is links s) (i : Fin n) :
    (s.forest.find i).root = u.root i := by
  rw [UnionFind.find_root, h.root_eq]

theorem Sorted.root_find (h : Sorted u id is links s) (i j : Fin n) :
    (s.forest.find i).forest.root j = u.root j := by
  rw [UnionFind.root_find, h.root_eq]

theorem sorted_new (u : UnionFind n) (id : Fin n → NodeId) : Sorted u id [] [] ⟨u, .empty⟩ :=
  ⟨fun _ => rfl, rfl, fun _ h => nomatch h⟩

/-- A group has no members before its first one. -/
theorem groupFrom_of_not_mem {r : Fin n} (h : r ∉ is.map u.root) :
    groupFrom u id is [] r = ⟨[], []⟩ := by
  have hnone : is.filter (u.root · = r) = [] := by
    refine List.filter_eq_nil_iff.mpr fun i hi => ?_
    rw [decide_eq_true_iff]
    exact fun heq => h (List.mem_map.mpr ⟨i, hi, heq⟩)
  simp [groupFrom, hnone]

theorem groupFrom_concat (i r : Fin n) : groupFrom u id (is ++ [i]) [] r =
    if u.root i = r then (groupFrom u id is [] r).addNode (id i) else groupFrom u id is [] r := by
  by_cases h : u.root i = r <;> simp [groupFrom, Group.addNode, h]

/-- A class without a slot has no members yet. -/
theorem Sorted.slot (h : Sorted u id is [] s) (r : Fin n) :
    (s.groups.get? r).getD ⟨[], []⟩ = groupFrom u id is [] r := by
  by_cases hr : r ∈ is.map u.root
  · rw [h.get?_eq r hr, Option.getD_some]
  · have hnew : r ∉ s.groups.keys := by rwa [h.keys_eq, mem_distinct]
    rw [Table.get?_eq_none hnew, Option.getD_none, groupFrom_of_not_mem hr]

/-- The pass over the nodes: a slot is made for a class when its first node
comes. -/
theorem Sorted.addNode (h : Sorted u id is [] s) (i : Fin n) :
    Sorted u id (is ++ [i]) [] (s.addNode id i) where
  root_eq := h.root_find i
  keys_eq := by
    simp only [Sorting.addNode, h.find_root, Table.keys_insert, h.keys_eq, mem_distinct,
      List.map_append, List.map_singleton, distinct_concat]
  get?_eq := fun r hr => by
    simp only [Sorting.addNode]
    rw [h.find_root, h.slot, Table.get?_insert, groupFrom_concat]
    by_cases heq : u.root i = r
    · rw [if_pos heq, if_pos heq, heq]
    · have hold : r ∈ is.map u.root := by simpa [Ne.symm heq] using hr
      rw [if_neg heq, if_neg heq, h.get?_eq r hold]

theorem groupFrom_link (e : Fin n × ConnectionId) (r : Fin n) :
    groupFrom u id is (links ++ [e]) r =
      if u.root e.1 = r then (groupFrom u id is links r).addConnection e.2
      else groupFrom u id is links r := by
  by_cases h : u.root e.1 = r <;> simp [groupFrom, Group.addConnection, h]

/-- The pass over the connections: the slot is there, since every node has
one. -/
theorem Sorted.addConnection (h : Sorted u id is links s) {e : Fin n × ConnectionId}
    (he : e.1 ∈ is) : Sorted u id is (links ++ [e]) (s.addConnection e) := by
  have hmem : u.root e.1 ∈ is.map u.root := List.mem_map_of_mem he
  have hget : s.groups.get? (u.root e.1) = some (groupFrom u id is links (u.root e.1)) :=
    h.get?_eq _ hmem
  refine ⟨h.root_find e.1, ?_, fun r hr => ?_⟩
  · simp only [Sorting.addConnection, h.find_root, hget]
    rw [Table.keys_insert, h.keys_eq, if_pos (mem_distinct.mpr hmem)]
  · simp only [Sorting.addConnection, h.find_root, hget]
    rw [Table.get?_insert, groupFrom_link, h.get?_eq r hr]
    by_cases heq : u.root e.1 = r
    · rw [if_pos heq, if_pos heq, heq]
    · rw [if_neg heq, if_neg heq]

theorem Sorted.foldl_addNode (h : Sorted u id is [] s) (more : List (Fin n)) :
    Sorted u id (is ++ more) [] (more.foldl (Sorting.addNode id) s) := by
  induction more generalizing is s with
  | nil => simpa using h
  | cons i rest ih => simpa using ih (h.addNode i)

/-- All connections, in order. -/
theorem Sorted.foldl_addConnection (h : Sorted u id is links s)
    (more : List (Fin n × ConnectionId)) (hmore : ∀ e ∈ more, e.1 ∈ is) :
    Sorted u id is (links ++ more) (more.foldl Sorting.addConnection s) := by
  induction more generalizing links s with
  | nil => simpa using h
  | cons e rest ih =>
    obtain ⟨he, hrest⟩ := List.forall_mem_cons.mp hmore
    simpa using ih (h.addConnection he) hrest

/-- The groups stand in the order of their first members. -/
theorem Sorted.entries_eq (h : Sorted u id is links s) :
    s.groups.entries = (distinct (is.map u.root)).map fun r => (r, groupFrom u id is links r) := by
  rw [← h.keys_eq]
  refine Table.entries_eq_map (h.keys_eq ▸ nodup_distinct _) fun r hr => h.get?_eq r ?_
  rwa [h.keys_eq, mem_distinct] at hr

end

/-! ## All passes -/

/-- The group whose class has the given root. -/
def groupAt (ids : List NodeId) (connections : List Connection) (u : UnionFind ids.length)
    (r : Fin ids.length) : Group where
  nodes := ((List.finRange ids.length).filter (u.root · = r)).map ids.get
  connections := (connections.filter fun c =>
    (ends? ids c).any fun ends => u.root ends.1 = r).map (·.id)

/-- After all passes the slot of a root has all members of its class, and all
connections between them. -/
theorem groupFrom_inner_join (u : UnionFind ids.length) (r : Fin ids.length) :
    groupFrom u ids.get (List.finRange ids.length) (join ids connections).inner r =
      groupAt ids connections u r := by
  have hconnections : ((join ids connections).inner.filter (u.root ·.1 = r)).map (·.2) =
      (connections.filter fun c => (ends? ids c).any fun ends => u.root ends.1 = r).map (·.id) := by
    rw [inner_join]
    induction connections with
    | nil => rfl
    | cons c rest ih =>
      cases h : ends? ids c with
      | none => simpa [h] using ih
      | some ends => by_cases hr : u.root ends.1 = r <;> simpa [h, hr] using ih
  exact congrArg (Group.mk _) hconnections

/-- The slots of a workspace are the groups of its classes. -/
theorem sorted_spec (ids : List NodeId) (connections : List Connection) :
    Sorted (forest ids connections) ids.get (List.finRange ids.length)
      (join ids connections).inner (sorted ids connections) := by
  have hnodes := (sorted_new (forest ids connections) ids.get).foldl_addNode (List.finRange _)
  exact hnodes.foldl_addConnection _ fun e _ => List.mem_finRange e.1

/-- One group for each root of a class. -/
theorem groups_eq (w : Workspace) : w.groups =
    (distinct ((List.finRange w.nodeIds.length).map (forest w.nodeIds w.connections).root)).map
      (groupAt w.nodeIds w.connections (forest w.nodeIds w.connections)) := by
  rw [groups, (sorted_spec w.nodeIds w.connections).entries_eq, List.map_map]
  exact List.map_congr_left fun r _ => groupFrom_inner_join _ r

end Workflow.Workspace
