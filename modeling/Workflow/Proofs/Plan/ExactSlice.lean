/-
Workflow.Proofs.Plan.ExactSlice — a slice is what its two closures say, and
nothing else.

The walks find the backward nodes and what leads to them
(`Traversal.mem_nodes`, `Traversal.mem_connections`). A slice reads off the
authored lists what has been found, the first one of those that share an
identifier. Nothing is assumed of the graph but that no two connections share
an identifier: connections may dangle, lead in circles or back to their own
node, and identifiers of nodes may repeat.

* `ofStart_exact` — the slice of a node that exists has the live connections
  into backward nodes, the backward nodes and the variables that feed them,
  each once and in authored order.
-/
import Mathlib.Data.List.Nodup
import Workflow.Proofs.Plan.Traversal

namespace Workflow

/-! ## Lists without repeats -/

/-- Where keys do not repeat, nothing is left out. -/
theorem distinctBy_eq_self {α β : Type} [DecidableEq β] {key : α → β} {as : List α}
    (h : (as.map key).Nodup) : distinctBy key as = as := by
  induction as with
  | nil => rfl
  | cons a rest ih =>
    simp only [List.map_cons, List.nodup_cons, List.mem_map, not_exists, not_and] at h
    rw [distinctBy_cons, ih h.2, List.filter_eq_self.mpr]
    intro b hb
    simpa using h.1 b hb

theorem nodup_map_filter {α β : Type} {key : α → β} {as : List α} (p : α → Bool)
    (h : (as.map key).Nodup) : ((as.filter p).map key).Nodup :=
  h.sublist (List.filter_sublist.map key)

/-- What is left is in its old order. -/
theorem distinctBy_sublist {α β : Type} [DecidableEq β] (key : α → β) (as : List α) :
    (distinctBy key as).Sublist as := by
  induction as with
  | nil => exact List.Sublist.slnil
  | cons a rest ih =>
    rw [distinctBy_cons]
    exact (List.filter_sublist.trans ih).cons_cons a

theorem nodup_map_distinctBy {α β : Type} [DecidableEq β] (key : α → β) (as : List α) :
    ((distinctBy key as).map key).Nodup := by
  induction as with
  | nil => exact List.nodup_nil
  | cons a rest ih =>
    rw [distinctBy_cons, List.map_cons, List.nodup_cons]
    exact ⟨by simp, nodup_map_filter _ ih⟩

/-- Of the elements with one key the first one is kept. -/
theorem find?_distinctBy {α β : Type} [DecidableEq β] (key : α → β) (as : List α) (k : β) :
    (distinctBy key as).find? (key · == k) = as.find? (key · == k) := by
  induction as with
  | nil => rfl
  | cons a rest ih =>
    rw [distinctBy_cons, List.find?_cons, List.find?_cons]
    by_cases hk : key a = k
    · simp [hk]
    · rw [beq_eq_false_iff_ne.mpr hk, List.find?_filter, ← ih]
      refine congrArg (List.find? · _) (funext fun b => ?_)
      by_cases hb : key b = k
      · simp [hb, Ne.symm hk]
      · simp [hb]

namespace Slice

/-! ## What is needed -/

/-- A backward node, or a variable from which a live connection leads to
one. -/
def IsNeeded (nodes : List Node) (connections : List Connection) (start id : NodeId) : Prop :=
  IsBackward nodes connections start id ∨
    (∃ n, nodeIn? nodes id = some n ∧ n.isOperation = false) ∧
      ∃ c, IsInward nodes connections start c ∧ c.source = id

variable {nodes : List Node} {connections : List Connection} {start id : NodeId} {c : Connection}

/-- A node from which an inward connection leads is an operation, and so a
backward node, or else a variable. -/
theorem belongs_iff_isNeeded :
    Belongs nodes connections start id ↔ IsNeeded nodes connections start id := by
  refine or_congr_right' fun hback => ⟨?_, And.right⟩
  rintro ⟨c, hc, rfl⟩
  refine ⟨?_, c, hc, rfl⟩
  obtain ⟨n, hn⟩ := Option.isSome_iff_exists.mp (isKnown_iff.mpr hc.live.source)
  refine ⟨n, hn, Bool.eq_false_iff.mpr fun hop => hback ?_⟩
  exact .step hc.live hc.target (by simp [isOperation, hn, hop])

/-! ## The closures can be computed -/

theorem IsForward.eq_start (h : IsForward nodes connections start id)
    (hstart : ¬ Slice.isKnown nodes start) : id = start := by
  induction h with
  | start => rfl
  | step hc _ _ ih => exact absurd (isKnown_iff.mpr (ih ▸ hc.source)) hstart

/-- From a start that does not exist, no connection leads anywhere. -/
theorem isBackward_iff_eq_start (hstart : ¬ isKnown nodes start) :
    IsBackward nodes connections start id ↔ id = start := by
  refine ⟨fun h => ?_, fun h => h ▸ .start⟩
  induction h with
  | start => rfl
  | forward hc hs => exact absurd (isKnown_iff.mpr (hs.eq_start hstart ▸ hc.source)) hstart
  | step hc _ _ ih => exact absurd (isKnown_iff.mpr (ih ▸ hc.target)) hstart

instance : DecidablePred (IsLive nodes connections) := fun _ =>
  decidable_of_iff _ isLive_iff_isKnown.symm

instance : DecidablePred (IsBackward nodes connections start) := fun id =>
  if hstart : isKnown nodes start then
    decidable_of_iff ((Traversal.ofStart nodes connections start).expanded.contains id)
      (List.contains_iff_mem.trans (Traversal.mem_expanded hstart))
  else decidable_of_iff (id = start) (isBackward_iff_eq_start hstart).symm

instance : DecidablePred (IsInward nodes connections start) := fun c =>
  decidable_of_iff (IsLive nodes connections c ∧ IsBackward nodes connections start c.target)
    ⟨fun h => ⟨h.1, h.2⟩, fun h => ⟨h.live, h.target⟩⟩

instance : DecidablePred (IsNeeded nodes connections start) := fun id =>
  decidable_of_iff (IsBackward nodes connections start id ∨
      ∃ c ∈ connections, IsInward nodes connections start c ∧ c.source = id) <| by
    rw [← belongs_iff_isNeeded]
    refine or_congr_right (exists_congr fun c => ?_)
    exact ⟨And.right, fun h => ⟨h.1.live.mem, h⟩⟩

/-! ## Slices -/

/-- What the slice of a node consists of. -/
structure IsExact (nodes : List Node) (connections : List Connection) (start : NodeId)
    (s : Slice) : Prop where
  /-- Authored order is kept. -/
  connections_eq : s.connections =
    connections.filter fun c => decide (IsInward nodes connections start c)
  connections_nodup : (s.connections.map (·.id)).Nodup
  nodes_sublist : s.nodes.Sublist nodes
  nodes_nodup : (s.nodes.map (·.id)).Nodup
  /-- The nodes are the first ones with the identifiers that are needed. -/
  nodes_eq : s.nodes =
    distinctBy (·.id) (nodes.filter fun n => decide (IsNeeded nodes connections start n.id))
  /-- Looking up a node in the slice gives what the graph gives, if the
  node is needed. -/
  node?_eq : ∀ id, s.node? id =
    if IsNeeded nodes connections start id then nodeIn? nodes id else none

/-- The nodes of a slice are the first ones with the identifiers that are
needed. -/
theorem ofStart_nodes (hstart : isKnown nodes start) :
    (ofStart start nodes connections).nodes =
      distinctBy (·.id)
        (nodes.filter fun n => decide (IsNeeded nodes connections start n.id)) := by
  rw [ofStart, if_pos hstart]
  refine congrArg (distinctBy _) (List.filter_congr fun n _ => ?_)
  rw [Bool.eq_iff_iff, List.contains_iff_mem, Traversal.mem_nodes hstart, belongs_iff_isNeeded,
    decide_eq_true_iff]

/-- Where no two connections share an identifier, a slice has the inward
ones. -/
theorem ofStart_connections (hids : (connections.map (·.id)).Nodup)
    (hstart : isKnown nodes start) : (ofStart start nodes connections).connections =
      connections.filter fun c => decide (IsInward nodes connections start c) := by
  rw [ofStart, if_pos hstart]
  refine (distinctBy_eq_self (nodup_map_filter _ hids)).trans (List.filter_congr fun c hc => ?_)
  rw [Bool.eq_iff_iff, List.contains_iff_mem, Traversal.mem_connections hstart, decide_eq_true_iff]
  constructor
  · rintro ⟨d, hd, hid⟩
    rwa [← List.inj_on_of_nodup_map hids hd.live.mem hc hid]
  · exact fun hinward => ⟨c, hinward, rfl⟩

/-- **A slice is exact**: it has the live connections into backward nodes,
the backward nodes and the variables that feed them, each once and in
authored order.

What the two loops have visited and kept at their end is
`Traversal.mem_visited` and `Traversal.mem_connections`; what is left here
is that the filters over the authored lists keep the order and the first of
several nodes of one identifier. -/
theorem ofStart_exact (hids : (connections.map (·.id)).Nodup)
    (hstart : ∃ n ∈ nodes, n.id = start) :
    IsExact nodes connections start (ofStart start nodes connections) := by
  have hknown : isKnown nodes start := isKnown_iff.mpr hstart
  have hnodes : (ofStart start nodes connections).nodes = _ := ofStart_nodes hknown
  have hconnections := ofStart_connections hids hknown
  refine ⟨hconnections, ?_, ?_, ?_, hnodes, fun id => ?_⟩
  · rw [hconnections]
    exact nodup_map_filter _ hids
  · rw [hnodes]
    exact (distinctBy_sublist _ _).trans List.filter_sublist
  · rw [hnodes]
    exact nodup_map_distinctBy _ _
  · rw [node?, hnodes, nodeIn?, find?_distinctBy, List.find?_filter]
    split
    · rename_i hneeded
      refine congrArg (List.find? · nodes) (funext fun n => ?_)
      by_cases hn : n.id = id
      · simp [hn, hneeded]
      · simp [hn]
    · rename_i hneeded
      refine List.find?_eq_none.mpr fun n _ => ?_
      by_cases hn : n.id = id
      · simp [hn, hneeded]
      · simp [hn]

/-! ## A tangled graph -/

/-- Two operations write a summary, the second one together with its source in
a circle. The writer leads back to itself, one connection leads nowhere, the
reader comes after the summary, and a second node is called like the first. -/
def tangle : Slice where
  nodes :=
    [⟨⟨"writer"⟩, "Writer", .operation .action, [], []⟩,
      ⟨⟨"summary"⟩, "Summary", .variable .text, [], []⟩,
      ⟨⟨"editor"⟩, "Editor", .operation .textGeneration, [], []⟩,
      ⟨⟨"style"⟩, "Style", .variable .text, [], []⟩,
      ⟨⟨"source"⟩, "Source", .operation .query, [], []⟩,
      ⟨⟨"reader"⟩, "Reader", .operation .action, [], []⟩,
      ⟨⟨"writer"⟩, "Namesake", .variable .file, [], []⟩]
  connections :=
    [⟨⟨"loop"⟩, ⟨"writer"⟩, ⟨"out"⟩, ⟨"writer"⟩, ⟨"in"⟩⟩,
      ⟨⟨"lost"⟩, ⟨"writer"⟩, ⟨"out"⟩, ⟨"nowhere"⟩, ⟨"in"⟩⟩,
      ⟨⟨"written"⟩, ⟨"writer"⟩, ⟨"out"⟩, ⟨"summary"⟩, ⟨"in"⟩⟩,
      ⟨⟨"edited"⟩, ⟨"editor"⟩, ⟨"out"⟩, ⟨"summary"⟩, ⟨"in"⟩⟩,
      ⟨⟨"styled"⟩, ⟨"style"⟩, ⟨"out"⟩, ⟨"editor"⟩, ⟨"in"⟩⟩,
      ⟨⟨"searched"⟩, ⟨"source"⟩, ⟨"out"⟩, ⟨"editor"⟩, ⟨"in"⟩⟩,
      ⟨⟨"asked"⟩, ⟨"editor"⟩, ⟨"out"⟩, ⟨"source"⟩, ⟨"in"⟩⟩,
      ⟨⟨"read"⟩, ⟨"summary"⟩, ⟨"out"⟩, ⟨"reader"⟩, ⟨"in"⟩⟩]

theorem tangle_exact : (tangle.connections.map (·.id)).Nodup ∧
    (∃ n ∈ tangle.nodes, n.id = ⟨"writer"⟩) ∧
    (ofStart ⟨"writer"⟩ tangle.nodes tangle.connections).nodes = tangle.nodes.take 5 ∧
    IsExact tangle.nodes tangle.connections ⟨"writer"⟩
      (ofStart ⟨"writer"⟩ tangle.nodes tangle.connections) := by
  have hids : (tangle.connections.map (·.id)).Nodup := by decide
  have hstart : ∃ n ∈ tangle.nodes, n.id = ⟨"writer"⟩ := ⟨_, List.mem_cons_self, rfl⟩
  have hnodes : (ofStart ⟨"writer"⟩ tangle.nodes tangle.connections).nodes =
      tangle.nodes.take 5 := by
    decide +kernel
  exact ⟨hids, hstart, hnodes, ofStart_exact hids hstart⟩

end Slice

end Workflow
