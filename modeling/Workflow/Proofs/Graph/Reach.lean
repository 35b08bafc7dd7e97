/-
Workflow.Proofs.Graph.Reach — what a walk along directed edges visits.

The walk uses up the edges of every vertex that it visits, so that
closedness is not read off one step: an edge out of a visited vertex may
have been used long before. `mem_reachable_of_edge` carries it along the
whole walk. `mem_reachable` says that a walk visits the least closed set
that has its starts, in whichever order it takes them.
-/
import Workflow.Graph.Reach

namespace Workflow.Graph

variable {α : Type} [DecidableEq α] {edges : List (α × α)} {todo : List α} {a b : α}

theorem mem_successors : b ∈ successors edges a ↔ (a, b) ∈ edges := by
  simp [successors]

theorem mem_edgesApart {e : α × α} : e ∈ edgesApart edges a ↔ e ∈ edges ∧ e.1 ≠ a := by
  simp [edgesApart]

/-- Where the search begins is reached. -/
theorem mem_reachable_of_mem (h : a ∈ todo) : a ∈ reachable edges todo := by
  fun_induction reachable edges todo with
  | case1 => exact absurd h List.not_mem_nil
  | case2 edges v rest ih =>
    rcases List.mem_cons.mp h with rfl | h
    · exact List.mem_cons_self
    · exact List.mem_cons_of_mem _ (ih (List.mem_append_right _ h))

/-- The vertices that a walk visits are closed under its edges. -/
theorem mem_reachable_of_edge (h : a ∈ reachable edges todo) (he : (a, b) ∈ edges) :
    b ∈ reachable edges todo := by
  fun_induction reachable edges todo with
  | case1 => exact absurd h List.not_mem_nil
  | case2 edges v rest ih =>
    refine List.mem_cons_of_mem _ ?_
    by_cases hv : a = v
    · subst hv
      exact mem_reachable_of_mem (List.mem_append_left _ (mem_successors.mpr he))
    · have hrest := (List.mem_cons.mp h).resolve_left hv
      exact ih hrest (mem_edgesApart.mpr ⟨he, hv⟩)

/-- The least set that has the starts and is closed under the edges. -/
inductive Reached (edges : List (α × α)) (starts : List α) : α → Prop
  | start {v : α} (h : v ∈ starts) : Reached edges starts v
  | edge {u v : α} (h : Reached edges starts u) (he : (u, v) ∈ edges) : Reached edges starts v

/-- Walking on, along fewer edges, from vertices that are reached, reaches
no more. -/
theorem Reached.of_walk {β : Type} {edges fewer : List (β × β)} {starts todo : List β} {b : β}
    (h : Reached fewer todo b) (htodo : ∀ u ∈ todo, Reached edges starts u)
    (hfewer : ∀ e ∈ fewer, e ∈ edges) :
    Reached edges starts b := by
  induction h with
  | start h => exact htodo _ h
  | edge _ he ih => exact ih.edge (hfewer _ he)

/-- A walk visits what can be reached, and nothing else. -/
theorem mem_reachable : b ∈ reachable edges todo ↔ Reached edges todo b := by
  constructor
  · intro h
    fun_induction reachable edges todo with
    | case1 => exact absurd h List.not_mem_nil
    | case2 edges v rest ih =>
      have hv : Reached edges (v :: rest) v := .start List.mem_cons_self
      rcases List.mem_cons.mp h with rfl | h
      · exact hv
      · refine (ih h).of_walk (fun u hu => ?_) fun e he => (mem_edgesApart.mp he).1
        rcases List.mem_append.mp hu with hsucc | hrest
        · exact hv.edge (mem_successors.mp hsucc)
        · exact .start (List.mem_cons_of_mem _ hrest)
  · intro h
    induction h with
    | start h => exact mem_reachable_of_mem h
    | edge _ he ih => exact mem_reachable_of_edge ih he

end Workflow.Graph
