/-
Workflow.Proofs.Workspace.Group — groups are the connected components.

`Workspace.Linked` is the equivalence that the connections between nodes that
exist generate, without the forest that computes it. Nothing is assumed of the
graph: connections may dangle or lead back to their own node, and identifiers
of nodes and connections may repeat.

* `root_forest_eq_iff` — positions have one root just if their nodes are
  linked.
* `groups_exact` — there is one group for each class of linked nodes, with the
  connections inside it, all in authored order.
-/
import Workflow.Proofs.Plan.ExactSlice
import Workflow.Proofs.Workspace.Sorting

namespace Workflow

open Workflow.Graph

/-! ## Classes of a list -/

section

variable {α β : Type} [DecidableEq β] {key : α → β} {as : List α} {a : α}

/-- Keys without repeats are those of the first elements. -/
theorem distinct_map (key : α → β) (as : List α) :
    distinct (as.map key) = (distinctBy key as).map key := by
  induction as with
  | nil => rfl
  | cons a rest ih =>
    rw [distinct] at ih ⊢
    rw [List.map_cons, distinctBy_cons, distinctBy_cons, ih, List.map_cons, List.filter_map]
    rfl

/-- Every element that is kept is the first one of its class. -/
theorem find?_of_mem_distinctBy (h : a ∈ distinctBy key as) :
    as.find? (key · = key a) = some a := by
  induction as with
  | nil => simp at h
  | cons b rest ih =>
    rw [distinctBy_cons, List.mem_cons, List.mem_filter] at h
    rcases h with rfl | ⟨hmem, hne⟩
    · simp
    · have hne' : key b ≠ key a := fun heq => by simp [heq] at hne
      simp [hne', ih hmem]

/-- The classes come in the order of their first elements. -/
theorem forall₂_head?_classes (key : α → β) (as : List α) :
    List.Forall₂ (fun a k => (as.filter (key · = k)).head? = some a) (distinctBy key as)
      (distinct (as.map key)) := by
  rw [distinct_map, List.forall₂_map_right_iff, List.forall₂_same]
  intro a ha
  rw [List.head?_filter, find?_of_mem_distinctBy ha]

/-- Every element is in one class, and once. -/
theorem flatMap_classes_perm (key : α → β) (h : as.Nodup) :
    ((distinct (as.map key)).flatMap fun k => as.filter (key · = k)).Perm as := by
  refine (List.perm_ext_iff_of_nodup ?_ h).mpr fun a => ?_
  · refine List.nodup_flatMap.mpr ⟨fun k _ => h.filter _, ?_⟩
    refine (nodup_distinct (as.map key)).imp fun hne => ?_
    intro a ha hb
    simp only [List.mem_filter, decide_eq_true_eq] at ha hb
    exact hne (ha.2.symm.trans hb.2)
  · simp only [List.mem_flatMap, mem_distinct, List.mem_map, List.mem_filter, decide_eq_true_eq]
    constructor
    · rintro ⟨_, _, hmem, _⟩
      exact hmem
    · exact fun hmem => ⟨key a, ⟨a, hmem, rfl⟩, hmem, rfl⟩

end

/-! ## Positions -/

section

variable {α : Type} [DecidableEq α] {a : α} {as : List α}

/-- What is found at a position is what was looked for. -/
theorem getElem_of_position? {i : Fin as.length} (h : position? a as = some i) : as[i] = a := by
  induction as with
  | nil => exact i.elim0
  | cons b rest ih =>
    unfold position? at h
    split at h
    · rename_i heq
      cases h
      exact heq
    · obtain ⟨j, hj, rfl⟩ := Option.map_eq_some_iff.mp h
      exact ih hj

theorem position?_isSome_iff : (position? a as).isSome ↔ a ∈ as := by
  induction as with
  | nil => simp [position?]
  | cons b rest ih =>
    unfold position?
    split
    · rename_i heq
      simp [heq]
    · rename_i hne
      simp [ih, Ne.symm hne]

theorem position?_eq_some_iff (h : as.Nodup) {i : Fin as.length} :
    position? a as = some i ↔ as[i] = a := by
  refine ⟨getElem_of_position?, ?_⟩
  rintro rfl
  obtain ⟨j, hj⟩ := Option.isSome_iff_exists.mp (position?_isSome_iff.mpr (List.getElem_mem i.isLt))
  have hij : j = i := Fin.ext ((h.getElem_inj_iff).mp (getElem_of_position? hj))
  exact hij ▸ hj

end

namespace Workspace

variable {w : Workspace} {ids : List NodeId} {connections : List Connection} {c : Connection}
  {a b : NodeId}

/-- The positions of the ends of a connection. -/
theorem ends?_eq_some_iff (h : ids.Nodup) {i j : Fin ids.length} :
    ends? ids c = some (i, j) ↔ ids.get i = c.source ∧ ids.get j = c.target := by
  simp only [ends?, Option.bind_eq_bind, Option.pure_def, Option.bind_eq_some_iff,
    position?_eq_some_iff h, Option.some.injEq, Prod.mk.injEq]
  constructor
  · rintro ⟨_, hs, _, ht, rfl, rfl⟩
    exact ⟨hs, ht⟩
  · rintro ⟨hs, ht⟩
    exact ⟨i, hs, j, ht, rfl, rfl⟩

/-! ## Linked nodes

The unions of the first pass join the ends of live connections, so its classes
are those of linked nodes. -/

/-- Two nodes between which a chain of connections leads, in whichever
direction each of them points. -/
def Linked (w : Workspace) : NodeId → NodeId → Prop :=
  Relation.EqvGen fun a b => ∃ c, Slice.IsLive w.nodes w.connections c ∧ c.source = a ∧ c.target = b

theorem nodup_nodeIds (w : Workspace) : w.nodeIds.Nodup := nodup_distinct _

theorem mem_nodeIds_iff : a ∈ w.nodeIds ↔ ∃ n ∈ w.nodes, n.id = a := by
  simp [nodeIds]

/-- The connections between nodes that exist are those with two positions. -/
theorem isLive_iff_ends? : Slice.IsLive w.nodes w.connections c ↔
    c ∈ w.connections ∧ ∃ i j, ends? w.nodeIds c = some (i, j) := by
  simp only [ends?_eq_some_iff w.nodup_nodeIds]
  constructor
  · intro h
    obtain ⟨i, hi, hsource⟩ := List.getElem_of_mem (mem_nodeIds_iff.mpr h.source)
    obtain ⟨j, hj, htarget⟩ := List.getElem_of_mem (mem_nodeIds_iff.mpr h.target)
    exact ⟨h.mem, ⟨i, hi⟩, ⟨j, hj⟩, hsource, htarget⟩
  · rintro ⟨hmem, i, j, hsource, htarget⟩
    exact ⟨hmem, mem_nodeIds_iff.mp (hsource ▸ List.getElem_mem _),
      mem_nodeIds_iff.mp (htarget ▸ List.getElem_mem _)⟩

/-- The classes of the forest are those of the connections' positions. -/
theorem forest_represents (ids : List NodeId) (connections : List Connection) :
    (forest ids connections).Represents
      fun i j => ∃ c ∈ connections, ends? ids c = some (i, j) := by
  induction connections using List.reverseRecOn with
  | nil => exact (UnionFind.represents_new ids.length).congr fun i j => by simp
  | append_singleton rest c ih =>
    cases hc : ends? ids c with
    | none =>
      rw [forest_concat_of_none hc]
      exact ih.congr fun i j => by simp [or_and_right, exists_or, hc]
    | some ends =>
      rw [forest_concat_of_some hc]
      refine (ih.union ends.1 ends.2).congr fun i j => ?_
      simp [or_and_right, exists_or, hc, Prod.ext_iff, eq_comm]

/-- Linked nodes exist together, and their positions are in one class. -/
theorem Linked.positions (h : Linked w a b) : (a ∈ w.nodeIds ↔ b ∈ w.nodeIds) ∧
    ∀ i j : Fin w.nodeIds.length, w.nodeIds[i] = a → w.nodeIds[j] = b →
      (forest w.nodeIds w.connections).root i = (forest w.nodeIds w.connections).root j := by
  induction h with
  | rel a b h =>
    obtain ⟨c, hlive, rfl, rfl⟩ := h
    refine ⟨iff_of_true (mem_nodeIds_iff.mpr hlive.source) (mem_nodeIds_iff.mpr hlive.target),
      fun i j hi hj => ?_⟩
    refine (forest_represents w.nodeIds w.connections i j).mpr (.rel i j ⟨c, hlive.mem, ?_⟩)
    exact (ends?_eq_some_iff w.nodup_nodeIds).mpr ⟨hi, hj⟩
  | refl a =>
    refine ⟨.rfl, fun i j hi hj => congrArg _ (Fin.ext ?_)⟩
    exact w.nodup_nodeIds.getElem_inj_iff.mp (hi.trans hj.symm)
  | symm a b _ ih => exact ⟨ih.1.symm, fun i j hi hj => (ih.2 j i hj hi).symm⟩
  | trans a b c _ _ ih ih' =>
    refine ⟨ih.1.trans ih'.1, fun i j hi hj => ?_⟩
    obtain ⟨k, hk, hb⟩ := List.getElem_of_mem (ih.1.mp (hi ▸ List.getElem_mem i.isLt))
    exact (ih.2 i ⟨k, hk⟩ hi hb).trans (ih'.2 ⟨k, hk⟩ j hb hj)

/-- Two nodes have one root just if they are linked. -/
theorem root_forest_eq_iff (i j : Fin w.nodeIds.length) :
    (forest w.nodeIds w.connections).root i = (forest w.nodeIds w.connections).root j ↔
      Linked w w.nodeIds[i] w.nodeIds[j] := by
  refine (forest_represents _ _ i j).trans ⟨fun h => ?_, fun h => ?_⟩
  · induction h with
    | rel i j h =>
      obtain ⟨c, hc, hends⟩ := h
      obtain ⟨hsource, htarget⟩ := (ends?_eq_some_iff w.nodup_nodeIds).mp hends
      exact .rel _ _ ⟨c, isLive_iff_ends?.mpr ⟨hc, i, j, hends⟩, hsource.symm, htarget.symm⟩
    | refl i => exact .refl _
    | symm i j _ ih => exact .symm _ _ ih
    | trans i j k _ _ ih ih' => exact .trans _ _ _ ih ih'
  · exact (forest_represents _ _ i j).mp (h.positions.2 i j rfl rfl)

/-! ## Groups -/

/-- One group for each class of linked nodes. -/
structure IsGrouping (w : Workspace) (groups : List Group) : Prop where
  /-- Every node is in one group, and once. -/
  nodes_perm : (groups.flatMap (·.nodes)).Perm w.nodeIds
  /-- The members of a group are linked with one another, and with no other
  node. -/
  mem_iff : ∀ g ∈ groups, ∀ a ∈ g.nodes, ∀ b, b ∈ g.nodes ↔ Linked w a b
  /-- Members stand in authored order. -/
  nodes_sublist : ∀ g ∈ groups, g.nodes.Sublist w.nodeIds
  /-- Groups have members, and stand in the order of their first ones. -/
  firsts : ∃ firsts, firsts.Sublist w.nodeIds ∧
    List.Forall₂ (fun a g => g.nodes.head? = some a) firsts groups
  /-- A connection between nodes that exist has both in one group. -/
  ends : ∀ g ∈ groups, ∀ c, Slice.IsLive w.nodes w.connections c →
    (c.source ∈ g.nodes ↔ c.target ∈ g.nodes)
  /-- A group lists its connections in authored order, as often as they
  occur. -/
  connections_eq : ∀ g ∈ groups, g.connections =
    (w.connections.filter fun c =>
      decide (Slice.IsLive w.nodes w.connections c) && decide (c.source ∈ g.nodes)).map (·.id)

/-- The group of the node at a position. -/
def groupFor (w : Workspace) (i : Fin w.nodeIds.length) : Group :=
  groupAt w.nodeIds w.connections (forest w.nodeIds w.connections)
    ((forest w.nodeIds w.connections).root i)

theorem mem_groups_iff {g : Group} : g ∈ w.groups ↔ ∃ i, g = w.groupFor i := by
  simp only [groups_eq, List.mem_map, mem_distinct, List.mem_finRange, true_and,
    exists_exists_eq_and]
  exact exists_congr fun i => eq_comm

/-- The group of a node has the nodes that are linked with it. -/
theorem mem_groupFor {i : Fin w.nodeIds.length} :
    a ∈ (w.groupFor i).nodes ↔ Linked w w.nodeIds[i] a := by
  simp only [groupFor, groupAt, List.mem_map, List.mem_filter, List.mem_finRange, true_and,
    decide_eq_true_eq]
  constructor
  · rintro ⟨j, hj, rfl⟩
    exact (root_forest_eq_iff i j).mp hj.symm
  · intro h
    obtain ⟨j, hj, rfl⟩ := List.getElem_of_mem (h.positions.1.mp (List.getElem_mem i.isLt))
    exact ⟨⟨j, hj⟩, ((root_forest_eq_iff i ⟨j, hj⟩).mpr h).symm, rfl⟩

/-- The group of a node has the connections whose ends are in it. -/
theorem groupFor_connections (i : Fin w.nodeIds.length) : (w.groupFor i).connections =
    (w.connections.filter fun c => decide (Slice.IsLive w.nodes w.connections c) &&
      decide (c.source ∈ (w.groupFor i).nodes)).map (·.id) := by
  refine congrArg (List.map _) (List.filter_congr fun c hc => ?_)
  rw [Bool.eq_iff_iff, Bool.and_eq_true, decide_eq_true_eq, decide_eq_true_eq, isLive_iff_ends?]
  cases hends : ends? w.nodeIds c with
  | none => simp
  | some ends =>
    obtain ⟨j, k⟩ := ends
    have hsource : w.nodeIds[j] = c.source := ((ends?_eq_some_iff w.nodup_nodeIds).mp hends).1
    simp only [Option.any_some, decide_eq_true_eq, hc, true_and, Option.some.injEq, Prod.mk.injEq,
      mem_groupFor, ← hsource, ← root_forest_eq_iff]
    simp [eq_comm]

theorem map_nodeIds_finRange (w : Workspace) :
    (List.finRange w.nodeIds.length).map (w.nodeIds[·]) = w.nodeIds :=
  List.map_getElem_finRange w.nodeIds

/-- Every node is in one group. -/
theorem groups_nodes_perm (w : Workspace) : (w.groups.flatMap (·.nodes)).Perm w.nodeIds := by
  have hperm := (flatMap_classes_perm (forest w.nodeIds w.connections).root
    (List.nodup_finRange w.nodeIds.length)).map (w.nodeIds[·])
  rw [map_nodeIds_finRange, List.map_flatMap] at hperm
  rwa [groups_eq, List.flatMap_map]

/-- The groups stand in the order of their first members. -/
theorem groups_firsts (w : Workspace) : ∃ firsts, firsts.Sublist w.nodeIds ∧
    List.Forall₂ (fun a g => g.nodes.head? = some a) firsts w.groups := by
  refine ⟨(distinctBy (forest w.nodeIds w.connections).root (List.finRange _)).map (w.nodeIds[·]),
    ?_, ?_⟩
  · have hsub := (distinctBy_sublist (forest w.nodeIds w.connections).root
      (List.finRange _)).map (w.nodeIds[·])
    rwa [map_nodeIds_finRange] at hsub
  · rw [groups_eq, List.forall₂_map_left_iff, List.forall₂_map_right_iff]
    refine (forall₂_head?_classes _ _).imp fun i r h => ?_
    simp [groupAt, h]

/-- The groups of a workspace are its classes of linked nodes, clause by
clause. -/
theorem isGrouping (w : Workspace) : IsGrouping w w.groups where
  nodes_perm := w.groups_nodes_perm
  mem_iff := by
    intro g hg a ha b
    obtain ⟨i, rfl⟩ := mem_groups_iff.mp hg
    rw [mem_groupFor] at ha ⊢
    exact ⟨fun hb => .trans _ _ _ (.symm _ _ ha) hb, fun hab => .trans _ _ _ ha hab⟩
  nodes_sublist := by
    intro g hg
    obtain ⟨i, rfl⟩ := mem_groups_iff.mp hg
    have hsub := (List.filter_sublist (l := List.finRange w.nodeIds.length)
      (p := ((forest w.nodeIds w.connections).root · =
        (forest w.nodeIds w.connections).root i))).map (w.nodeIds[·])
    rwa [map_nodeIds_finRange] at hsub
  firsts := w.groups_firsts
  ends := by
    intro g hg c hc
    obtain ⟨i, rfl⟩ := mem_groups_iff.mp hg
    have hlink : Linked w c.source c.target := .rel _ _ ⟨c, hc, rfl, rfl⟩
    rw [mem_groupFor, mem_groupFor]
    exact ⟨fun h => .trans _ _ _ h hlink, fun h => .trans _ _ _ h (.symm _ _ hlink)⟩
  connections_eq := by
    intro g hg
    obtain ⟨i, rfl⟩ := mem_groups_iff.mp hg
    exact groupFor_connections i

/-- A node is in no other group. -/
theorem eq_of_mem_groups {g g' : Group} (hg : g ∈ w.groups) (hg' : g' ∈ w.groups)
    (ha : a ∈ g.nodes) (ha' : a ∈ g'.nodes) : g = g' := by
  obtain ⟨i, rfl⟩ := mem_groups_iff.mp hg
  obtain ⟨j, rfl⟩ := mem_groups_iff.mp hg'
  have hlink : Linked w w.nodeIds[i] w.nodeIds[j] :=
    .trans _ _ _ (mem_groupFor.mp ha) (.symm _ _ (mem_groupFor.mp ha'))
  rw [groupFor, groupFor, (root_forest_eq_iff i j).mpr hlink]

/-- A group that is found for a node is a group with this node. -/
theorem mem_of_groupOf {g : Group} (h : w.groupOf a = some g) : g ∈ w.groups ∧ a ∈ g.nodes := by
  have hcontains : g.contains a := List.find?_some (p := fun g : Group => g.contains a) h
  exact ⟨List.mem_of_find?_eq_some h, List.contains_iff_mem.mp hcontains⟩

theorem groupOf_eq_some_iff {g : Group} :
    w.groupOf a = some g ↔ g ∈ w.groups ∧ a ∈ g.nodes := by
  refine ⟨mem_of_groupOf, ?_⟩
  rintro ⟨hg, ha⟩
  have hsome : (w.groupOf a).isSome :=
    List.find?_isSome.mpr ⟨g, hg, List.contains_iff_mem.mpr ha⟩
  obtain ⟨g', hg'⟩ := Option.isSome_iff_exists.mp hsome
  obtain ⟨hmem, ha'⟩ := mem_of_groupOf hg'
  rw [hg', eq_of_mem_groups hmem hg ha' ha]

theorem groupOf_isSome_iff : (w.groupOf a).isSome ↔ ∃ n ∈ w.nodes, n.id = a := by
  simp only [Option.isSome_iff_exists, groupOf_eq_some_iff]
  rw [← mem_nodeIds_iff, ← w.groups_nodes_perm.mem_iff, List.mem_flatMap]

/-- **Groups are the connected components** of the connections between nodes
that exist, and a node has the group that it is in just if it exists. There
is no condition on the workspace: identifiers may repeat and connections may
lead nowhere. -/
theorem groups_exact (w : Workspace) : IsGrouping w w.groups ∧
    (∀ id g, w.groupOf id = some g ↔ g ∈ w.groups ∧ id ∈ g.nodes) ∧
    ∀ id, (w.groupOf id).isSome ↔ ∃ n ∈ w.nodes, n.id = id :=
  ⟨w.isGrouping, fun _ _ => groupOf_eq_some_iff, fun _ => groupOf_isSome_iff⟩

end Workspace

end Workflow
