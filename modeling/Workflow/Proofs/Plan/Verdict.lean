/-
Workflow.Proofs.Plan.Verdict — when there is no plan, and what is blamed.

The peeling gets stuck on the cycles and on all that comes after them. A
vertex on a cycle has a predecessor on a cycle, so that no round can place it
(`Layers.mem_stuck`); and a cycle leads only through vertices on cycles
(`transGen_onCycle`), so that looking for it among the stuck ones finds it.

A slice has every predecessor of its operations, and therefore, of each
operation in it, the cycles that the workspace has: `onCycle_slice_iff`.

`Blueprint.compile_verdict` puts these together: a compilation ends in a plan
or in the one error whose condition holds, and a cyclic workflow is reported
with the operations of the slice that are on a cycle, and no others.
-/
import Workflow.Proofs.Graph.Reach
import Workflow.Proofs.Plan.Blueprint
import Workflow.Proofs.Plan.ExactLayers

namespace Workflow

/-! ## Cycles -/

/-- On the way from one vertex to another and back, all edges are part of
cycles. -/
theorem transGen_onCycle {α : Type} {edge : α → α → Prop} {a b : α}
    (h : Relation.TransGen edge a b) (hback : Relation.TransGen edge b a) :
    Relation.TransGen
      (fun u v => edge u v ∧ Relation.TransGen edge u u ∧ Relation.TransGen edge v v) a b := by
  induction h with
  | single he => exact .single ⟨he, hback.head he, hback.tail he⟩
  | tail hab he ih =>
    have hreturn := hback.head he
    exact (ih hreturn).tail ⟨he, hreturn.trans hab, hback.trans (hab.tail he)⟩

/-- Where a part of a list has all that is selected from the list. -/
theorem filter_eq_of_sublist {α : Type} {as bs : List α} {p : α → Bool} (h : as.Sublist bs)
    (hnodup : bs.Nodup) (hp : ∀ b ∈ bs, p b → b ∈ as) : as.filter p = bs.filter p := by
  induction h with
  | slnil => rfl
  | @cons as bs b hsub ih =>
    obtain ⟨hb, hnodup⟩ := List.nodup_cons.mp hnodup
    obtain ⟨hhead, hrest⟩ := List.forall_mem_cons.mp hp
    have hpb : ¬ p b := fun htrue => hb (hsub.subset (hhead htrue))
    rw [List.filter_cons_of_neg hpb]
    exact ih hnodup hrest
  | @cons_cons as bs b hsub ih =>
    obtain ⟨hb, hnodup⟩ := List.nodup_cons.mp hnodup
    have hrest : ∀ c ∈ bs, p c → c ∈ as := by
      intro c hc hpc
      have hne : c ≠ b := fun heq => hb (heq ▸ hc)
      exact (List.mem_cons.mp (hp c (List.mem_cons_of_mem _ hc) hpc)).resolve_left hne
    rw [List.filter_cons, List.filter_cons, ih hnodup hrest]

/-- Selecting twice, in terms of membership in the first selection. -/
theorem filter_eq_filter_mem {α : Type} [DecidableEq α] {as bs : List α} {p q : α → Bool}
    (h : bs = as.filter q) : bs.filter p = as.filter fun a => decide (a ∈ bs ∧ p a) := by
  subst h
  rw [List.filter_filter]
  refine List.filter_congr fun a ha => ?_
  simp [ha, Bool.and_comm]

/-- The closure of a vertex's successors is what paths of one edge or more lead
to. -/
theorem Graph.mem_reachable_successors {α : Type} [DecidableEq α] {edges : List (α × α)} {a b : α} :
    b ∈ reachable edges (successors edges a) ↔
      Relation.TransGen (fun u v => (u, v) ∈ edges) a b := by
  rw [mem_reachable]
  constructor
  · intro h
    induction h with
    | start h => exact .single (mem_successors.mp h)
    | edge _ he ih => exact ih.tail he
  · intro h
    induction h with
    | single he => exact .start (mem_successors.mpr he)
    | tail _ he ih => exact ih.edge he

/-! ## What the peeling gets stuck on

Vertices that are never placed each have a predecessor that is not. So a cycle
can be found among them, and whoever lies on a cycle is among them. -/

namespace Layers

variable {edges : List (NodeId × NodeId)} {p : Pending} {stuck : List NodeId} {v : NodeId}

/-- What is stuck was left all along, in its order. -/
theorem peel_stuck_sublist (h : peel edges p = .error stuck) : stuck.Sublist (p.map (·.1)) := by
  fun_induction peel edges p with
  | case1 => cases h
  | case2 =>
    cases h
    exact List.Sublist.refl _
  | case3 => cases h
  | case4 p _ _ stuck' hrest ih =>
    cases h
    have hsub := ih hrest
    rw [Pending.map_fst_rest] at hsub
    exact hsub.trans (List.filter_sublist.map _)

/-- Vertices that have predecessors among themselves are never placed. -/
theorem mem_stuck {tied : NodeId → Prop} (h : peel edges p = .error stuck) (hp : p.Fair edges)
    (hmem : ∀ v, tied v → v ∈ p.map (·.1))
    (hpred : ∀ v, tied v → ∃ u, tied u ∧ (u, v) ∈ edges) (hv : tied v) : v ∈ stuck := by
  fun_induction peel edges p with
  | case1 => cases h
  | case2 =>
    cases h
    exact hmem v hv
  | case3 => cases h
  | case4 p _ _ stuck' hrest ih =>
    cases h
    refine ih hrest hp.rest ?_
    intro w hw
    rcases (Pending.mem_ready_or_rest edges).mp (hmem w hw) with hready | hleft
    · obtain ⟨u, hu, he⟩ := hpred w hw
      exact absurd (hmem u hu) (hp.counted.not_mem_of_ready hready he)
    · exact hleft

end Layers

namespace Slice

open Layers

variable {s : Slice} {v : NodeId}

/-- A path of connections between operations leads from a vertex back to
it. -/
def OnCycle (s : Slice) (v : NodeId) : Prop := Relation.TransGen s.Edge v v

/-- A vertex is on a cycle just if it can be reached from its own successors. -/
theorem onCycle_iff_reachable :
    (Graph.reachable (edges s) (Graph.successors (edges s) v)).contains v ↔ s.OnCycle v := by
  simp only [List.contains_iff_mem, Graph.mem_reachable_successors, mem_edges_iff]
  exact Iff.rfl

instance (s : Slice) : DecidablePred s.OnCycle :=
  fun _ => decidable_of_iff _ onCycle_iff_reachable

theorem OnCycle.isVertex (h : s.OnCycle v) : s.IsVertex v := by
  cases h with
  | single he => exact he.target
  | tail _ he => exact he.target

/-- On a cycle every vertex has a predecessor that is on one. -/
theorem OnCycle.exists_edge (h : s.OnCycle v) : ∃ u, s.OnCycle u ∧ s.Edge u v := by
  cases h with
  | single he => exact ⟨v, .single he, he⟩
  | tail hpath he => exact ⟨_, hpath.head he, he⟩

/-- Every vertex on a cycle is stuck. -/
theorem OnCycle.mem_stuck {stuck : List NodeId}
    (h : peel (edges s) (start (vertices s) (edges s)) = .error stuck) (hv : s.OnCycle v) :
    v ∈ stuck := by
  refine Layers.mem_stuck h s.fair_start ?_ ?_ hv
  · intro v hv
    rw [Pending.map_fst_start]
    exact mem_vertices.mpr hv.isVertex
  · intro v hv
    obtain ⟨u, hu, he⟩ := hv.exists_edge
    exact ⟨u, hu, mem_edges_iff.mpr he⟩

/-- A cycle is found among the vertices that lie on cycles. -/
theorem onCycle_eq {within : List NodeId} (hwithin : ∀ v, s.OnCycle v → v ∈ within) :
    onCycle (edges s) within = within.filter fun v => decide (s.OnCycle v) := by
  refine List.filter_congr fun v hv => ?_
  rw [Bool.eq_iff_iff, List.contains_iff_mem, Graph.mem_reachable_successors, decide_eq_true_iff]
  simp only [List.mem_filter, Bool.and_eq_true, List.contains_iff_mem, mem_edges_iff]
  constructor
  · intro h
    exact Relation.TransGen.mono (fun _ _ hedge => hedge.1) _ _ h
  · intro h
    refine Relation.TransGen.mono ?_ _ _ (transGen_onCycle h h)
    rintro a b ⟨hedge, ha, hb⟩
    exact ⟨hedge, hwithin a ha, hwithin b hb⟩

/-- A failed layering names the vertices on cycles, in the order of the
slice. -/
theorem layers_eq_error {e : PlanError} (h : s.layers = .error e) :
    e = .cyclic ((vertices s).filter fun v => decide (s.OnCycle v)) := by
  cases hpeel : peel (edges s) (start (vertices s) (edges s)) with
  | ok layers => simp [Slice.layers, hpeel] at h
  | error stuck =>
    simp only [Slice.layers, hpeel, Except.error.injEq] at h
    have hsub := peel_stuck_sublist hpeel
    rw [Pending.map_fst_start] at hsub
    have hfilter := filter_eq_of_sublist (p := fun v => decide (s.OnCycle v)) hsub
      (nodup_distinct _) fun v _ hv => OnCycle.mem_stuck hpeel (of_decide_eq_true hv)
    rw [← h, onCycle_eq fun v hv => hv.mem_stuck hpeel, hfilter]

end Slice

namespace Workspace

open Slice

variable {w : Workspace} {start u v : NodeId}

/-! ## Cycles of a workspace -/

/-- The whole workspace, as if it had been cut out of a graph. -/
def whole (w : Workspace) : Slice := ⟨w.nodes, w.connections⟩

/-- An edge of the slice is one of the workspace. -/
theorem edge_whole (hw : w.WellFormed) (hs : isKnown w.nodes start)
    (h : (w.slice start).Edge u v) : w.whole.Edge u v := by
  have hvertex {v : NodeId} (h : (w.slice start).IsVertex v) : w.whole.IsVertex v := by
    obtain ⟨n, hn, hop, hid⟩ := h
    exact ⟨n, mem_of_mem_slice hw hs hn, hop, hid⟩
  obtain ⟨c, hc, hends⟩ := h.connection
  rw [slice_connections hw hs] at hc
  exact ⟨hvertex h.source, hvertex h.target, c, (List.mem_filter.mp hc).1, hends⟩

/-- A slice has the edges into its operations, and what they come from. -/
theorem edge_slice (hw : w.WellFormed) (hs : isKnown w.nodes start) (h : w.whole.Edge u v)
    (hv : (w.slice start).IsVertex v) : (w.slice start).Edge u v := by
  obtain ⟨c, hc, rfl, rfl⟩ := h.connection
  obtain ⟨m, hm, hmop, hmid⟩ := h.source
  obtain ⟨n, hn, hnop, hnid⟩ := hv
  have hincoming : c ∈ w.incoming n.id := List.mem_filter.mpr ⟨hc, by simp [hnid]⟩
  have hsource : m ∈ (w.slice start).nodes := by
    have hmem : m ∈ w.nodes.filter fun m => ((w.incoming n.id).map (·.source)).contains m.id := by
      refine List.mem_filter.mpr ⟨hm, ?_⟩
      rw [List.contains_iff_mem]
      exact List.mem_map.mpr ⟨c, hincoming, hmid.symm⟩
    rw [← slice_sources hw hs hn hnop] at hmem
    exact (List.mem_filter.mp hmem).1
  rw [← slice_incoming hw hs hn hnop] at hincoming
  exact ⟨⟨m, hsource, hmop, hmid⟩, ⟨n, hn, hnop, hnid⟩, c,
    (List.mem_filter.mp hincoming).1, rfl, rfl⟩

/-- An operation of a slice is on a cycle of it just if it is on one of the
workspace. -/
theorem onCycle_slice_iff (hw : w.WellFormed) (hs : isKnown w.nodes start)
    (hv : (w.slice start).IsVertex v) : (w.slice start).OnCycle v ↔ w.whole.OnCycle v := by
  have hpath {u v : NodeId} (h : Relation.TransGen w.whole.Edge u v)
      (hv : (w.slice start).IsVertex v) : Relation.TransGen (w.slice start).Edge u v := by
    -- backwards from an operation of the slice, every predecessor is one
    induction h with
    | single he => exact .single (edge_slice hw hs he hv)
    | tail _ he ih =>
      have hedge := edge_slice hw hs he hv
      exact (ih hedge.source).tail hedge
  constructor
  · intro h
    exact Relation.TransGen.mono (fun _ _ => edge_whole hw hs) _ _ h
  · intro h
    exact hpath h hv

/-- The operations of a slice that are on a cycle, in authored order. -/
def cycleMembers (w : Workspace) (start : NodeId) : List NodeId :=
  (w.nodes.filter fun n => decide
    (n ∈ (w.slice start).nodes ∧ n.isOperation ∧ w.whole.OnCycle n.id)).map (·.id)

/-- Where identifiers do not repeat, nothing is left out of the operations. -/
theorem vertices_slice (hw : w.WellFormed) (hs : isKnown w.nodes start) :
    Layers.vertices (w.slice start) = (w.slice start).operations.map (·.id) := by
  refine distinctBy_eq_self ?_
  rw [List.map_id]
  exact nodup_map_filter _ (slice_nodup hw hs)

/-- The cycle members of the slice are those of the workspace, in its order. -/
theorem filter_onCycle (hw : w.WellFormed) (hs : isKnown w.nodes start) :
    ((Layers.vertices (w.slice start)).filter fun v => decide ((w.slice start).OnCycle v)) =
      w.cycleMembers start := by
  rw [vertices_slice hw hs, List.filter_map, Slice.operations, List.filter_filter,
    filter_eq_filter_mem (slice_nodes hw hs), cycleMembers]
  congr 1
  refine List.filter_congr fun n _ => ?_
  rw [Bool.eq_iff_iff]
  simp only [Bool.and_eq_true, decide_eq_true_iff, Function.comp_apply]
  refine and_congr_right fun hn => ?_
  rw [and_comm]
  exact and_congr_right fun hop => onCycle_slice_iff hw hs ⟨n, hn, hop, rfl⟩

/-- A cycle in the slice has members. -/
theorem cycleMembers_ne_nil (hw : w.WellFormed) (hs : isKnown w.nodes start)
    (h : ∃ n ∈ (w.slice start).operations, w.whole.OnCycle n.id) : w.cycleMembers start ≠ [] := by
  obtain ⟨n, hn, hcycle⟩ := h
  obtain ⟨hn, hop⟩ := List.mem_filter.mp hn
  have hmem : n.id ∈ w.cycleMembers start := by
    refine List.mem_map.mpr ⟨n, List.mem_filter.mpr ⟨mem_of_mem_slice hw hs hn, ?_⟩, rfl⟩
    exact decide_eq_true ⟨hn, hop, hcycle⟩
  exact List.ne_nil_of_mem hmem

/-- A slice has layers if none of its operations is on a cycle. -/
theorem layers_slice_iff (hw : w.WellFormed) (hs : isKnown w.nodes start) :
    (∃ layers, (w.slice start).layers = .ok layers) ↔
      ¬ ∃ n ∈ (w.slice start).operations, w.whole.OnCycle n.id := by
  rw [layers_eq_ok_iff]
  constructor
  · rintro h ⟨n, hn, hcycle⟩
    obtain ⟨hn, hop⟩ := List.mem_filter.mp hn
    exact h n.id ((onCycle_slice_iff hw hs ⟨n, hn, hop, rfl⟩).mpr hcycle)
  · intro h v hcycle
    have hvertex := OnCycle.isVertex hcycle
    have hwhole := (onCycle_slice_iff hw hs hvertex).mp hcycle
    obtain ⟨n, hn, hop, rfl⟩ := hvertex
    exact h ⟨n, List.mem_filter.mpr ⟨hn, hop⟩, hwhole⟩

end Workspace

namespace Blueprint

open Slice Workspace

variable {ids : IdSource} {now : Timestamp} {w : Workspace} {start : NodeId} {s : Slice}

/-! ## The ways a compilation ends -/

theorem ofSlice_of_error {workspace : WorkspaceId} {e : PlanError} (h : s.layers = .error e) :
    ofSlice ids now workspace start s = .error e := by
  simp [ofSlice, h, bind, Except.bind]

theorem ofSlice_of_nil {workspace : WorkspaceId} (h : s.layers = .ok []) :
    ofSlice ids now workspace start s = .error (.emptyPlan start) := by
  simp [ofSlice, h, bind, Except.bind, throw, throwThe, MonadExceptOf.throw]

theorem ofSlice_of_cons {workspace : WorkspaceId} {layer : List NodeId} {rest : List (List NodeId)}
    (h : s.layers = .ok (layer :: rest)) :
    ∃ b, ofSlice ids now workspace start s = .ok b := by
  simp [ofSlice, h, bind, Except.bind, pure, Except.pure]

/-- Only a slice without operations has no layer. -/
theorem layers_eq_nil_iff {layers : List (List NodeId)} (h : s.layers = .ok layers) :
    layers = [] ↔ s.operations = [] := by
  have hmem (v : NodeId) : v ∈ layers.flatten ↔ s.IsVertex v := (isLayering h).mem_iff v
  constructor
  · rintro rfl
    refine List.eq_nil_iff_forall_not_mem.mpr fun n hn => ?_
    obtain ⟨hn, hop⟩ := List.mem_filter.mp hn
    exact List.not_mem_nil ((hmem n.id).mpr ⟨n, hn, hop, rfl⟩)
  · intro hnone
    refine List.eq_nil_iff_forall_not_mem.mpr fun layer hlayer => ?_
    obtain ⟨v, hv⟩ := List.exists_mem_of_ne_nil layer (layers_ne_nil h layer hlayer)
    obtain ⟨n, hn, hop, -⟩ := (hmem v).mp (List.mem_flatten_of_mem hlayer hv)
    have hmember : n ∈ s.operations := List.mem_filter.mpr ⟨hn, hop⟩
    rw [hnone] at hmember
    exact List.not_mem_nil hmember

theorem compile_of_known (hs : isKnown w.nodes start) :
    compile ids now w start = ofSlice ids now w.id start (w.slice start) := by
  have hsome : (w.node? start).isSome := hs
  simp [compile, Option.isNone_iff_eq_none, Option.ne_none_iff_isSome.mpr hsome]

theorem compile_of_not_known (hs : ¬ isKnown w.nodes start) :
    compile ids now w start = .error (.unknownStart start) := by
  have hnone : w.node? start = none := by simpa [isKnown, Workspace.node?] using hs
  simp [compile, hnone]

/-- How a compilation ends. -/
structure IsVerdict (w : Workspace) (start : NodeId) (result : Except PlanError Blueprint) :
    Prop where
  /-- An unknown start is one that no node has. -/
  unknown_iff : ∀ id, result = .error (.unknownStart id) ↔
    id = start ∧ ¬ ∃ n ∈ w.nodes, n.id = start
  /-- A cyclic workflow is one with an operation on a cycle in the slice. -/
  cyclic_iff : (∃ members, result = .error (.cyclic members)) ↔ (∃ n ∈ w.nodes, n.id = start) ∧
    ∃ n ∈ (w.slice start).operations, w.whole.OnCycle n.id
  /-- Just these operations are reported. -/
  members_eq : ∀ members, result = .error (.cyclic members) →
    members ≠ [] ∧ members = w.cycleMembers start
  /-- A plan is empty if the slice has no operation. -/
  empty_iff : ∀ id, result = .error (.emptyPlan id) ↔
    id = start ∧ (∃ n ∈ w.nodes, n.id = start) ∧ (w.slice start).operations = []
  /-- In all other cases there is a plan. -/
  planned_iff : (∃ b, result = .ok b) ↔ (∃ n ∈ w.nodes, n.id = start) ∧
    (w.slice start).operations ≠ [] ∧ ¬ ∃ n ∈ (w.slice start).operations, w.whole.OnCycle n.id

/-- Each way to end is a verdict: the others are excluded. -/
theorem IsVerdict.of_unknown (hstart : ¬ ∃ n ∈ w.nodes, n.id = start) :
    IsVerdict w start (.error (.unknownStart start)) where
  unknown_iff := by simp [hstart, eq_comm (a := start)]
  cyclic_iff := by simp [hstart]
  members_eq := by simp
  empty_iff := by simp [hstart]
  planned_iff := by simp [hstart]

theorem IsVerdict.of_cyclic (hstart : ∃ n ∈ w.nodes, n.id = start)
    (hcycle : ∃ n ∈ (w.slice start).operations, w.whole.OnCycle n.id)
    (hmembers : w.cycleMembers start ≠ []) :
    IsVerdict w start (.error (.cyclic (w.cycleMembers start))) where
  unknown_iff := by simp [hstart]
  cyclic_iff := by simp [hstart, hcycle]
  members_eq := by
    rintro members hreported
    cases hreported
    exact ⟨hmembers, rfl⟩
  empty_iff := by
    obtain ⟨n, hn, -⟩ := hcycle
    simp [List.ne_nil_of_mem hn]
  planned_iff := by simp [hcycle]

theorem IsVerdict.of_empty (hstart : ∃ n ∈ w.nodes, n.id = start)
    (hoperations : (w.slice start).operations = []) :
    IsVerdict w start (.error (.emptyPlan start)) where
  unknown_iff := by simp [hstart]
  cyclic_iff := by simp [hoperations]
  members_eq := by simp
  empty_iff := by simp [hstart, hoperations, eq_comm (a := start)]
  planned_iff := by simp [hoperations]

theorem IsVerdict.of_planned {b : Blueprint} (hstart : ∃ n ∈ w.nodes, n.id = start)
    (hoperations : (w.slice start).operations ≠ [])
    (hacyclic : ¬ ∃ n ∈ (w.slice start).operations, w.whole.OnCycle n.id) :
    IsVerdict w start (.ok b) where
  unknown_iff := by simp [hstart]
  cyclic_iff := by simp [hacyclic]
  members_eq := by simp
  empty_iff := by simp [hoperations]
  planned_iff := by simp [hstart, hoperations, hacyclic]

/-- **Compilation fails exactly when it must**, and reports exactly the
members of cycles. Cycles are those of the whole workspace: all of a cycle
feeds each operation on it, so one through an operation of the slice does
not leave the slice (`filter_onCycle`). -/
theorem compile_verdict (hv : w.validate = .ok ()) :
    IsVerdict w start (compile ids now w start) := by
  have hw := Workspace.wellFormed_of_validate hv
  by_cases hs : isKnown w.nodes start
  · have hstart := isKnown_iff.mp hs
    have hlayers := layers_slice_iff hw hs
    rw [compile_of_known hs]
    cases hresult : (w.slice start).layers with
    | error e =>
      -- without a cycle there would be layers
      have hcycle : ∃ n ∈ (w.slice start).operations, w.whole.OnCycle n.id := by
        by_contra hnone
        obtain ⟨layers, hok⟩ := hlayers.mpr hnone
        cases hresult.symm.trans hok
      rw [ofSlice_of_error hresult, layers_eq_error hresult, filter_onCycle hw hs]
      exact .of_cyclic hstart hcycle (cycleMembers_ne_nil hw hs hcycle)
    | ok layers =>
      have hacyclic := hlayers.mp ⟨layers, hresult⟩
      have hnil := layers_eq_nil_iff hresult
      cases layers with
      | nil =>
        rw [ofSlice_of_nil hresult]
        exact .of_empty hstart (hnil.mp rfl)
      | cons layer rest =>
        have hplan : ∃ b, ofSlice ids now w.id start (w.slice start) = .ok b :=
          ofSlice_of_cons hresult
        obtain ⟨b, hb⟩ := hplan
        rw [hb]
        exact .of_planned hstart (by simp [← hnil]) hacyclic
  · rw [compile_of_not_known hs]
    exact .of_unknown (isKnown_iff.not.mp hs)

end Blueprint

/-! ## A circular workspace -/

namespace Sample

/-- A draft and its review wait for each other. The idea comes before the
circle and the print after it; the archive, which waits for itself, has
nothing to do with them. -/
def circular : Workspace where
  id := ⟨"circular"⟩
  nodes :=
    [⟨⟨"review"⟩, "Review", .operation .textGeneration, [⟨⟨"in"⟩, "In"⟩], [⟨⟨"out"⟩, "Out"⟩]⟩,
      ⟨⟨"idea"⟩, "Idea", .operation .trigger, [], [⟨⟨"out"⟩, "Out"⟩]⟩,
      ⟨⟨"draft"⟩, "Draft", .operation .textGeneration, [⟨⟨"in"⟩, "In"⟩, ⟨⟨"notes"⟩, "Notes"⟩],
        [⟨⟨"out"⟩, "Out"⟩]⟩,
      ⟨⟨"print"⟩, "Print", .operation .action, [⟨⟨"in"⟩, "In"⟩], []⟩,
      ⟨⟨"archive"⟩, "Archive", .operation .action, [⟨⟨"in"⟩, "In"⟩], [⟨⟨"out"⟩, "Out"⟩]⟩]
  connections :=
    [⟨⟨"begin"⟩, ⟨"idea"⟩, ⟨"out"⟩, ⟨"draft"⟩, ⟨"in"⟩⟩,
      ⟨⟨"submit"⟩, ⟨"draft"⟩, ⟨"out"⟩, ⟨"review"⟩, ⟨"in"⟩⟩,
      ⟨⟨"revise"⟩, ⟨"review"⟩, ⟨"out"⟩, ⟨"draft"⟩, ⟨"notes"⟩⟩,
      ⟨⟨"release"⟩, ⟨"review"⟩, ⟨"out"⟩, ⟨"print"⟩, ⟨"in"⟩⟩,
      ⟨⟨"keep"⟩, ⟨"archive"⟩, ⟨"out"⟩, ⟨"archive"⟩, ⟨"in"⟩⟩]

theorem circular_verdict : circular.validate = .ok () ∧
    Blueprint.compile .numbered .epoch circular ⟨"print"⟩ =
      .error (.cyclic [⟨"review"⟩, ⟨"draft"⟩]) ∧
    Blueprint.IsVerdict circular ⟨"print"⟩
      (Blueprint.compile .numbered .epoch circular ⟨"print"⟩) := by
  have hvalid : circular.validate = .ok () := by rfl
  exact ⟨hvalid, by decide +kernel, Blueprint.compile_verdict hvalid⟩

end Sample

end Workflow
