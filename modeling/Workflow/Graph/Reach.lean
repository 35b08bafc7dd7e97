/-
Workflow.Graph.Reach — what can be reached along directed edges.

A graph is a list of pairs. `reachable edges starts` walks from a
worklist and uses up the edges of every vertex that it visits, so that the
edges and the worklist together shrink; a vertex may be listed more than
once.
-/
namespace Workflow.Graph

variable {α : Type} [DecidableEq α]

/-- The ends of the edges out of a vertex. -/
def successors (edges : List (α × α)) (a : α) : List α := (edges.filter (·.1 = a)).map (·.2)

/-- The edges that do not come from a vertex. -/
def edgesApart (edges : List (α × α)) (a : α) : List (α × α) := edges.filter (¬ ·.1 = a)

theorem length_edgesApart (edges : List (α × α)) (a : α) :
    (edgesApart edges a).length + (successors edges a).length = edges.length := by
  induction edges with
  | nil => rfl
  | cons e rest ih =>
    simp only [edgesApart, successors, List.length_map] at ih ⊢
    by_cases h : e.1 = a <;> simp [h] <;> simp at ih <;> omega

/-- The vertices that paths from the given vertices end in, these
included. -/
def reachable (edges : List (α × α)) : List α → List α
  | [] => []
  | a :: todo => a :: reachable (edgesApart edges a) (successors edges a ++ todo)
termination_by todo => edges.length + todo.length
decreasing_by
  have h := length_edgesApart edges a
  simp only [List.length_append, List.length_cons]
  omega

end Workflow.Graph
