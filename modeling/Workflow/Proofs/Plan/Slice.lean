/-
Workflow.Proofs.Plan.Slice — slices of well-formed workspaces.

In a well-formed workspace every connection is live and no identifier
repeats, so that a slice is a plain selection: `Workspace.slice_nodes` and
`Workspace.slice_connections` say of what.

* `isBackward_of_operation` — every operation of a slice is a backward node,
  whichever of the two walks found it.
* `slice_incoming`, `slice_sources` — so the slice has all connections into
  an operation of it, and all nodes that these come from.
-/
import Workflow.Proofs.Plan.ExactSlice
import Workflow.Proofs.Workspace.Validation

namespace Workflow.Workspace

open Slice

variable {w : Workspace} {start : NodeId} {n : Node} {c : Connection}

/-! ## What a slice selects -/

/-- In a well-formed workspace every connection is live. -/
theorem WellFormed.isLive (hw : w.WellFormed) (hc : c ∈ w.connections) :
    IsLive w.nodes w.connections c :=
  isLive_iff_isKnown.mpr ⟨hc, hw.source_isSome c hc, hw.target_isSome c hc⟩

theorem slice_connections (hw : w.WellFormed) (hs : isKnown w.nodes start) :
    (w.slice start).connections =
      w.connections.filter fun c => decide (IsInward w.nodes w.connections start c) :=
  ofStart_connections hw.connections_nodup hs

theorem slice_nodes (hw : w.WellFormed) (hs : isKnown w.nodes start) :
    (w.slice start).nodes =
      w.nodes.filter fun n => decide (IsNeeded w.nodes w.connections start n.id) := by
  rw [Workspace.slice, ofStart_nodes hs]
  exact distinctBy_eq_self (nodup_map_filter _ hw.nodes_nodup)

theorem slice_nodup (hw : w.WellFormed) (hs : isKnown w.nodes start) :
    ((w.slice start).nodes.map (·.id)).Nodup := by
  rw [slice_nodes hw hs]
  exact nodup_map_filter _ hw.nodes_nodup

theorem mem_slice_iff (hw : w.WellFormed) (hs : isKnown w.nodes start) :
    n ∈ (w.slice start).nodes ↔ n ∈ w.nodes ∧ IsNeeded w.nodes w.connections start n.id := by
  rw [slice_nodes hw hs, List.mem_filter, decide_eq_true_iff]

theorem mem_of_mem_slice (hw : w.WellFormed) (hs : isKnown w.nodes start)
    (hn : n ∈ (w.slice start).nodes) : n ∈ w.nodes :=
  ((mem_slice_iff hw hs).mp hn).1

/-- Look-ups in a slice answer with the node itself. -/
theorem slice_node? (hw : w.WellFormed) (hs : isKnown w.nodes start)
    (hn : n ∈ (w.slice start).nodes) : (w.slice start).node? n.id = some n :=
  nodeIn?_eq_of_mem (slice_nodup hw hs) hn

/-! ## Operations of a slice -/

/-- Every operation of a slice is a backward node: it is no variable that only
feeds one. -/
theorem isBackward_of_operation (hw : w.WellFormed) (hs : isKnown w.nodes start)
    (hn : n ∈ (w.slice start).nodes) (hop : n.isOperation) :
    IsBackward w.nodes w.connections start n.id := by
  obtain ⟨hmem, hneeded⟩ := (mem_slice_iff hw hs).mp hn
  rcases hneeded with hback | ⟨⟨m, hm, hvariable⟩, -⟩
  · exact hback
  · rw [hw.nodeIn?_eq hmem] at hm
    cases hm
    cases hop.symm.trans hvariable

/-- Connections into an operation of a slice are inward. -/
theorem isInward_of_operation (hw : w.WellFormed) (hs : isKnown w.nodes start)
    (hn : n ∈ (w.slice start).nodes) (hop : n.isOperation) (hc : c ∈ w.incoming n.id) :
    IsInward w.nodes w.connections start c := by
  obtain ⟨hc, htarget⟩ := List.mem_filter.mp hc
  exact ⟨hw.isLive hc, eq_of_beq htarget ▸ isBackward_of_operation hw hs hn hop⟩

/-- A slice has all connections into its operations. -/
theorem slice_incoming (hw : w.WellFormed) (hs : isKnown w.nodes start)
    (hn : n ∈ (w.slice start).nodes) (hop : n.isOperation) :
    (w.slice start).connections.filter (·.target == n.id) = w.incoming n.id := by
  rw [slice_connections hw hs, List.filter_filter]
  refine List.filter_congr fun c hc => ?_
  rw [Bool.and_eq_left_iff_imp]
  intro htarget
  exact decide_eq_true (isInward_of_operation hw hs hn hop (List.mem_filter.mpr ⟨hc, htarget⟩))

/-- A slice has all nodes from which connections into its operations
come. -/
theorem slice_sources (hw : w.WellFormed) (hs : isKnown w.nodes start)
    (hn : n ∈ (w.slice start).nodes) (hop : n.isOperation) :
    (w.slice start).nodes.filter (fun m => ((w.incoming n.id).map (·.source)).contains m.id) =
      w.nodes.filter fun m => ((w.incoming n.id).map (·.source)).contains m.id := by
  rw [slice_nodes hw hs, List.filter_filter]
  refine List.filter_congr fun m _ => ?_
  rw [Bool.and_eq_left_iff_imp]
  intro hm
  obtain ⟨c, hc, hcs⟩ := List.mem_map.mp (List.contains_iff_mem.mp hm)
  have hinward := isInward_of_operation hw hs hn hop hc
  exact decide_eq_true (belongs_iff_isNeeded.mp (.inr ⟨c, hinward, hcs⟩))

end Workflow.Workspace
