/-
Workflow.Proofs.Plan.Reslice — a slice of a slice is the slice.

Cut off from the rest of the graph, a slice still has what made its nodes
forward or backward ones: a connection that the two closures follow leads into
a backward node, so that it is in the slice with both its ends
(`IsExact.isLive_iff`). So the closures are the same there
(`IsExact.isForward_iff`, `IsExact.isBackward_iff`), and nothing is left out
the second time: `ofStart_ofStart`.

A variable that only feeds a backward node is in the slice without the
connections into it. Neither closure has followed those.
-/
import Workflow.Proofs.Plan.ExactSlice

namespace Workflow

namespace Slice

variable {nodes : List Node} {connections : List Connection} {start id : NodeId} {c : Connection}
  {s : Slice}

/-! ## Ends of connections -/

theorem IsInward.isNeeded_source (h : IsInward nodes connections start c) :
    IsNeeded nodes connections start c.source :=
  belongs_iff_isNeeded.mp (.inr ⟨c, h, rfl⟩)

theorem IsInward.isNeeded_target (h : IsInward nodes connections start c) :
    IsNeeded nodes connections start c.target := Or.inl h.target

namespace IsExact

variable (h : IsExact nodes connections start s)

include h

/-- An exact slice has just the connections into backward nodes. -/
theorem mem_connections_iff : c ∈ s.connections ↔ IsInward nodes connections start c := by
  rw [h.connections_eq]
  simp only [List.mem_filter, decide_eq_true_iff, and_iff_right_iff_imp]
  intro hc
  exact hc.live.mem

theorem nodeIn?_eq (hid : IsNeeded nodes connections start id) :
    nodeIn? s.nodes id = nodeIn? nodes id :=
  (h.node?_eq id).trans (if_pos hid)

theorem isNeeded_of_mem {n : Node} (hn : n ∈ s.nodes) :
    IsNeeded nodes connections start n.id := by
  rw [h.nodes_eq] at hn
  simpa using (List.mem_filter.mp (mem_of_mem_distinctBy hn)).2

/-- A node that is needed, and exists, is in the slice. -/
theorem exists_node (hid : IsNeeded nodes connections start id) (hknown : ∃ n ∈ nodes, n.id = id) :
    ∃ n ∈ s.nodes, n.id = id := by
  rw [← isKnown_iff, isKnown] at hknown ⊢
  rwa [h.nodeIn?_eq hid]

/-- A slice has both ends of its connections. -/
theorem isLive_iff : IsLive s.nodes s.connections c ↔ c ∈ s.connections := by
  constructor
  · intro hc
    exact hc.mem
  · intro hc
    have hinward := h.mem_connections_iff.mp hc
    exact ⟨hc, h.exists_node hinward.isNeeded_source hinward.live.source,
      h.exists_node hinward.isNeeded_target hinward.live.target⟩

theorem isLive_of_isInward (hc : IsInward nodes connections start c) :
    IsLive s.nodes s.connections c :=
  h.isLive_iff.mpr (h.mem_connections_iff.mpr hc)

theorem isLive_of_isLive (hc : IsLive s.nodes s.connections c) : IsLive nodes connections c :=
  (h.mem_connections_iff.mp hc.mem).live

/-! ## The closures inside a slice -/

theorem isOperation_iff (hid : IsNeeded nodes connections start id) :
    isOperation s.nodes id ↔ isOperation nodes id := by
  simp only [isOperation, h.nodeIn?_eq hid]

/-- The slice leads forward to the same nodes: each connection on the way is in
it, by induction along the way. -/
theorem isForward_iff :
    IsForward s.nodes s.connections start id ↔ IsForward nodes connections start id := by
  constructor
  · intro hid
    induction hid with
    | start => exact .start
    | step hc _ hop ih =>
      have hinward := h.mem_connections_iff.mp hc.mem
      exact .step hinward.live ih ((h.isOperation_iff hinward.isNeeded_target).mp hop)
  · intro hid
    induction hid with
    | start => exact .start
    | step hc hs hop ih =>
      have hinward : IsInward nodes connections start _ := ⟨hc, .forward hc hs⟩
      exact .step (h.isLive_of_isInward hinward) ih
        ((h.isOperation_iff hinward.isNeeded_target).mpr hop)

/-- It leads backward to the same nodes. -/
theorem isBackward_iff :
    IsBackward s.nodes s.connections start id ↔ IsBackward nodes connections start id := by
  constructor
  · intro hid
    induction hid with
    | start => exact .start
    | forward hc hs => exact .forward (h.isLive_of_isLive hc) (h.isForward_iff.mp hs)
    | step hc _ hop ih =>
      have hinward := h.mem_connections_iff.mp hc.mem
      exact .step hinward.live ih ((h.isOperation_iff hinward.isNeeded_source).mp hop)
  · intro hid
    induction hid with
    | start => exact .start
    | forward hc hs =>
      have hinward : IsInward nodes connections start _ := ⟨hc, .forward hc hs⟩
      exact .forward (h.isLive_of_isInward hinward) (h.isForward_iff.mpr hs)
    | step hc ht hop ih =>
      have hinward : IsInward nodes connections start _ := ⟨hc, ht⟩
      exact .step (h.isLive_of_isInward hinward) ih
        ((h.isOperation_iff hinward.isNeeded_source).mpr hop)

/-- What is needed of a graph is needed of its slice. -/
theorem isInward_of_mem (hc : c ∈ s.connections) : IsInward s.nodes s.connections start c :=
  ⟨h.isLive_iff.mpr hc, h.isBackward_iff.mpr (h.mem_connections_iff.mp hc).target⟩

/-- So every node that was needed is needed in the slice as well. -/
theorem isNeeded_of_isNeeded (hid : IsNeeded nodes connections start id) :
    IsNeeded s.nodes s.connections start id := by
  have hnode := h.nodeIn?_eq hid
  rcases hid with hback | ⟨⟨n, hn, hvariable⟩, c, hc, hsource⟩
  · exact Or.inl (h.isBackward_iff.mpr hback)
  · have hinward := h.isInward_of_mem (h.mem_connections_iff.mpr hc)
    exact Or.inr ⟨⟨n, hnode.trans hn, hvariable⟩, c, hinward, hsource⟩

/-! ## The second slice -/

/-- Slicing the slice leaves nothing out. -/
theorem ofStart_eq (hstart : ∃ n ∈ nodes, n.id = start) :
    ofStart start s.nodes s.connections = s := by
  have hagain := ofStart_exact h.connections_nodup (h.exists_node (Or.inl .start) hstart)
  have hconnections : (ofStart start s.nodes s.connections).connections = s.connections := by
    rw [hagain.connections_eq]
    simp only [List.filter_eq_self, decide_eq_true_iff]
    intro c hc
    exact h.isInward_of_mem hc
  have hneeded : s.nodes.filter (fun n => decide (IsNeeded s.nodes s.connections start n.id)) =
      s.nodes := by
    simp only [List.filter_eq_self, decide_eq_true_iff]
    intro n hn
    exact h.isNeeded_of_isNeeded (h.isNeeded_of_mem hn)
  have hnodes : (ofStart start s.nodes s.connections).nodes = s.nodes := by
    rw [hagain.nodes_eq, hneeded, distinctBy_eq_self h.nodes_nodup]
  exact congrArg₂ Slice.mk hnodes hconnections

end IsExact

/-- **Slicing is idempotent**, and a slice has both ends of each of its
connections.

The slice of a slice is exact for the smaller graph, and `IsExact` has each
part of it determined by the closures: a walk of the larger graph runs
through connections of the slice, so the smaller graph has the same backward
and forward nodes. -/
theorem ofStart_ofStart (hids : (connections.map (·.id)).Nodup) :
    ofStart start (ofStart start nodes connections).nodes
        (ofStart start nodes connections).connections = ofStart start nodes connections ∧
      ∀ c ∈ (ofStart start nodes connections).connections,
        (∃ n ∈ (ofStart start nodes connections).nodes, n.id = c.source) ∧
          ∃ n ∈ (ofStart start nodes connections).nodes, n.id = c.target := by
  by_cases hknown : isKnown nodes start
  · have hstart := isKnown_iff.mp hknown
    have h := ofStart_exact hids hstart
    refine ⟨h.ofStart_eq hstart, ?_⟩
    intro c hc
    have hlive := h.isLive_iff.mpr hc
    exact ⟨hlive.source, hlive.target⟩
  · have hempty : ofStart start nodes connections = empty := if_neg hknown
    rw [hempty]
    exact ⟨rfl, fun c hc => absurd hc List.not_mem_nil⟩

/-- The writer's slice of the tangled graph: the first of the two nodes called
like it stays, the connection that leads nowhere and the reader do not. -/
theorem tangle_ofStart_ofStart : (tangle.connections.map (·.id)).Nodup ∧
    ((ofStart ⟨"writer"⟩ tangle.nodes tangle.connections).connections.map (·.id.text) =
      ["loop", "written", "edited", "styled", "searched", "asked"]) ∧
    ofStart ⟨"writer"⟩ (ofStart ⟨"writer"⟩ tangle.nodes tangle.connections).nodes
        (ofStart ⟨"writer"⟩ tangle.nodes tangle.connections).connections =
      ofStart ⟨"writer"⟩ tangle.nodes tangle.connections := by
  have hids : (tangle.connections.map (·.id)).Nodup := by decide
  exact ⟨hids, by decide +kernel, (ofStart_ofStart hids).1⟩

end Slice

end Workflow
