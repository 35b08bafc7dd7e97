/-
Workflow.Plan.Layers — the order in which the operations of a slice run.

The vertices are the identifiers of the operation nodes, the edges the
connections between them, parallel ones counted once. Every vertex keeps
count of its unplaced predecessors. Layer by layer, the vertices whose
counter is zero are taken away, and the counters at the other ends of their
edges go down by one for each edge. If no vertex can be taken, the ones on a
cycle are reported.
-/
import Workflow.Graph.Reach
import Workflow.Plan.Slice
import Workflow.Failure

namespace Workflow

/-- Why no plan can be made. -/
inductive PlanError where
  | cyclic (nodes : List NodeId)
  | unknownStart (node : NodeId)
  | emptyPlan (start : NodeId)
deriving DecidableEq, Repr

namespace PlanError

/-- The wording of a failed compilation. -/
def report : PlanError → Report
  | .cyclic nodes =>
    let names := ", ".intercalate (nodes.map (·.text))
    .withAdvice "plan::cyclic_workflow" s!"workflow contains a cycle through {names}"
      "Remove one of the connections between the listed operation nodes."
  | .unknownStart node =>
    .plain "plan::unknown_start_node" s!"start node not found: {node}"
  | .emptyPlan start =>
    .withAdvice "plan::empty_plan"
      s!"nothing to run from {start}: the slice has no operation nodes"
      "Start from an operation node, or connect the start node to one."

end PlanError

namespace Layers

open Workflow.Graph

/-- The operations of a slice. -/
def vertices (s : Slice) : List NodeId := distinct (s.operations.map (·.id))

/-- The connections between operations, each pair of ends once. -/
def edges (s : Slice) : List (NodeId × NodeId) :=
  let known := vertices s
  distinct ((s.connections.filter fun c => known.contains c.source && known.contains c.target).map
    fun c => (c.source, c.target))

/-- The number of edges from given vertices into `v`. -/
def degree (edges : List (NodeId × NodeId)) (sources : List NodeId) (v : NodeId) : Nat :=
  edges.countP fun (a, b) => sources.contains a && b == v

/-- Unplaced vertices, each with the number of its unplaced
predecessors. -/
abbrev Pending := List (NodeId × Nat)

namespace Pending

/-- The vertices with no unplaced predecessor. -/
def ready (p : Pending) : List NodeId := (p.filter (·.2 = 0)).map (·.1)

/-- The unplaced vertices that are not ready. -/
def unready (p : Pending) : Pending := p.filter (·.2 ≠ 0)

/-- Takes an edge into a vertex: its counter goes down by one. There is no
result if no unplaced vertex counts the edge. -/
def lower (v : NodeId) : Pending → Option Pending
  | [] => none
  | (u, d) :: rest =>
    if u = v then if d = 0 then none else some ((u, d - 1) :: rest)
    else (lower v rest).map ((u, d) :: ·)

/-- Takes the edges out of some vertices, one vertex after the other and one
edge at a time. -/
def release (edges : List (NodeId × NodeId)) (placed : List NodeId) (p : Pending) :
    Option Pending :=
  placed.foldlM (fun q u => (successors edges u).foldlM (fun q v => q.lower v) q) p

/-- What is left once the ready vertices are placed. Where the counters are
right, all edges out of these can be taken. -/
def rest (edges : List (NodeId × NodeId)) (p : Pending) : Pending :=
  (p.unready.release edges p.ready).getD p.unready

/-! ## Counting down changes no vertex -/

/-- Counting down leaves the vertices as they are, edge by edge, vertex by
vertex, and for the whole round. -/
theorem map_fst_lower {v : NodeId} {p q : Pending} (h : p.lower v = some q) :
    q.map (·.1) = p.map (·.1) := by
  induction p generalizing q with
  | nil => cases h
  | cons first rest ih =>
    unfold lower at h
    split at h
    · split at h
      · cases h
      · cases h
        rfl
    · obtain ⟨q, hq, rfl⟩ := Option.map_eq_some_iff.mp h
      rw [List.map_cons, List.map_cons, ih hq]

theorem map_fst_foldlM {α : Type} {step : Pending → α → Option Pending}
    (hstep : ∀ p a q, step p a = some q → q.map (·.1) = p.map (·.1)) {as : List α} {p q : Pending}
    (h : as.foldlM step p = some q) : q.map (·.1) = p.map (·.1) := by
  induction as generalizing p with
  | nil =>
    cases h
    rfl
  | cons a as ih =>
    rw [List.foldlM_cons] at h
    obtain ⟨r, hr, hq⟩ := Option.bind_eq_some_iff.mp h
    rw [ih hq, hstep p a r hr]

theorem map_fst_release {edges : List (NodeId × NodeId)} {placed : List NodeId} {p q : Pending}
    (h : p.release edges placed = some q) : q.map (·.1) = p.map (·.1) :=
  map_fst_foldlM (fun _ _ _ hinner => map_fst_foldlM (fun _ _ _ => map_fst_lower) hinner) h

theorem map_fst_rest (edges : List (NodeId × NodeId)) (p : Pending) :
    (p.rest edges).map (·.1) = p.unready.map (·.1) := by
  unfold rest
  cases h : p.unready.release edges p.ready with
  | none => rfl
  | some q => exact map_fst_release h

/-- A round that places a vertex leaves fewer; so the peeling ends. -/
theorem length_rest_lt {edges : List (NodeId × NodeId)} {p : Pending} (h : p.ready ≠ []) :
    (p.rest edges).length < p.length := by
  have hlength := congrArg List.length (map_fst_rest edges p)
  rw [List.length_map, List.length_map] at hlength
  rw [hlength]
  refine Nat.lt_of_le_of_ne (List.length_filter_le _ _) fun hall => ?_
  rw [unready, List.length_filter_eq_length_iff] at hall
  apply h
  simp only [ready, List.map_eq_nil_iff, List.filter_eq_nil_iff]
  intro e he
  simpa using hall e he

end Pending

/-- Takes layers until nothing is left, or nothing can be taken: then the
unplaced vertices are the error. -/
def peel (edges : List (NodeId × NodeId)) (p : Pending) :
    Except (List NodeId) (List (List NodeId)) :=
  if p = [] then .ok []
  else if _h : p.ready = [] then .error (p.map (·.1))
  else
    match peel edges (p.rest edges) with
    | .ok layers => .ok (p.ready :: layers)
    | .error stuck => .error stuck
termination_by p.length
decreasing_by exact Pending.length_rest_lt _h

/-- Every vertex with the number of its predecessors. -/
def start (vertices : List NodeId) (edges : List (NodeId × NodeId)) : Pending :=
  vertices.map fun v => (v, degree edges vertices v)

/-- The vertices of `within` that a path of edges inside `within` leads
back to. -/
def onCycle (edges : List (NodeId × NodeId)) (within : List NodeId) : List NodeId :=
  let inner := edges.filter fun (a, b) => within.contains a && within.contains b
  within.filter fun v => (reachable inner (successors inner v)).contains v

end Layers

/-- The layers of a slice. -/
def Slice.layers (s : Slice) : Except PlanError (List (List NodeId)) :=
  let edges := Layers.edges s
  match Layers.peel edges (Layers.start (Layers.vertices s) edges) with
  | .ok layers => .ok layers
  | .error stuck => .error (.cyclic (Layers.onCycle edges stuck))

end Workflow
