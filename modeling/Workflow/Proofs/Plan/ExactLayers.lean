/-
Workflow.Proofs.Plan.ExactLayers — every vertex stands in the layer that its
longest path of dependencies calls for.

Nothing is assumed of a slice: its connections may dangle, run side by side
or lead in circles, and identifiers may repeat.

* `layers_exact` — layers are found just for graphs without a cycle, and then
  vertex and layer belong together by the longest path that ends in the
  vertex. Whatever the graph, no counter is ever taken below zero: at each
  round the edges of the placed vertices can be taken one at a time, in any
  order, and what they leave of the counters is what the next round begins
  with.
-/
import Mathlib.Data.Fintype.Card
import Mathlib.Data.Set.Finite.Basic
import Mathlib.Order.Bounds.Basic
import Workflow.Proofs.Plan.Layers

namespace Workflow

/-! ## Paths and cycles -/

/-- A vertex is the end of a path with so many edges. -/
inductive PathTo {α : Type} (edge : α → α → Prop) : Nat → α → Prop
  | here (v : α) : PathTo edge 0 v
  | step {n : Nat} {u v : α} (h : PathTo edge n u) (he : edge u v) : PathTo edge (n + 1) v

/-- Where each of finitely many vertices has a predecessor among them, one of
them is on a cycle. -/
theorem exists_cycle {α : Type} {edge : α → α → Prop} {vs : List α} (hne : vs ≠ [])
    (hpred : ∀ v ∈ vs, ∃ u ∈ vs, edge u v) : ∃ v, Relation.TransGen edge v v := by
  by_contra hacyclic
  rw [not_exists] at hacyclic
  let below (u v : { v // v ∈ vs }) : Prop := Relation.TransGen edge u v
  have htrans : IsTrans _ below := ⟨fun _ _ _ => Relation.TransGen.trans⟩
  have hirrefl : Std.Irrefl below := ⟨fun v => hacyclic v⟩
  have hfinite : Finite { v // v ∈ vs } := List.finite_toSet vs
  have hwf : WellFounded below := Finite.wellFounded_of_trans_of_irrefl _
  obtain ⟨v, hv⟩ := List.exists_mem_of_ne_nil vs hne
  -- going from predecessor to predecessor cannot come to an end
  refine hwf.induction (C := fun _ => False) ⟨v, hv⟩ fun w ih => ?_
  obtain ⟨u, hu, hedge⟩ := hpred w.1 w.2
  exact ih ⟨u, hu⟩ (.single hedge)

namespace Layers

variable {edges : List (NodeId × NodeId)} {p : Pending} {layers : List (List NodeId)}
  {u v : NodeId} {k : Nat}

/-- A vertex stands in layer `k`. -/
def StandsIn (layers : List (List NodeId)) (k : Nat) (v : NodeId) : Prop :=
  ∃ layer, layers[k]? = some layer ∧ v ∈ layer

/-- A vertex stands in some layer just if it was placed. -/
theorem exists_standsIn : (∃ k, StandsIn layers k v) ↔ v ∈ layers.flatten := by
  rw [List.mem_flatten]
  constructor
  · rintro ⟨k, layer, hk, hv⟩
    exact ⟨layer, List.mem_of_getElem? hk, hv⟩
  · rintro ⟨layer, hlayer, hv⟩
    obtain ⟨k, hk⟩ := List.getElem?_of_mem hlayer
    exact ⟨k, layer, hk, hv⟩

/-! ## Nothing is placed later than needed

A vertex is placed in the first round that finds all its predecessors placed,
by induction on the rounds. -/

/-- A vertex that the first round makes ready has a predecessor that the
round placed. -/
theorem Pending.Fair.exists_of_ready_rest (h : p.Fair edges) (hv : v ∈ (p.rest edges).ready) :
    ∃ u ∈ p.ready, (u, v) ∈ edges := by
  rw [mem_ready, h.rest_eq] at hv
  obtain ⟨⟨w, d⟩, hw, heq⟩ := List.mem_map.mp hv
  obtain ⟨rfl, hd⟩ := Prod.mk.inj heq
  have hpos : d ≠ 0 := by simpa using (List.mem_filter.mp hw).2
  exact degree_pos (by omega)

/-- The first layer holds what is ready. -/
theorem peel_head {layer : List NodeId} {rest : List (List NodeId)}
    (h : peel edges p = .ok (layer :: rest)) : layer = p.ready := by
  unfold peel at h
  split at h
  · cases h
  · split at h
    · cases h
    · split at h
      · cases h
        rfl
      · cases h

/-- A vertex that is not in the first layer has a predecessor in the layer
before its own. -/
theorem peel_predecessor (h : peel edges p = .ok layers) (hp : p.Fair edges)
    (hv : StandsIn layers (k + 1) v) : ∃ u, StandsIn layers k u ∧ (u, v) ∈ edges := by
  fun_induction peel edges p generalizing layers k with
  | case1 =>
    cases h
    obtain ⟨layer, hk, -⟩ := hv
    simp at hk
  | case2 => cases h
  | case3 p _ hready rest hrest ih =>
    cases h
    obtain ⟨layer, hk, hmem⟩ := hv
    rw [List.getElem?_cons_succ] at hk
    cases k with
    | zero =>
      obtain ⟨more, rfl⟩ := List.head?_eq_some_iff.mp (List.head?_eq_getElem? ▸ hk)
      rw [peel_head hrest] at hmem
      obtain ⟨u, hu, he⟩ := hp.exists_of_ready_rest hmem
      exact ⟨u, ⟨p.ready, rfl, hu⟩, he⟩
    | succ k =>
      obtain ⟨u, ⟨lower, hlower, hu⟩, he⟩ := ih hrest hp.rest ⟨layer, hk, hmem⟩
      exact ⟨u, ⟨lower, by simpa using hlower, hu⟩, he⟩
  | case4 => cases h

/-- Layers keep the order of the vertices. -/
theorem peel_sublist (h : peel edges p = .ok layers) :
    ∀ layer ∈ layers, layer.Sublist (p.map (·.1)) := by
  fun_induction peel edges p generalizing layers with
  | case1 => cases h; simp
  | case2 => cases h
  | case3 p _ _ rest hrest ih =>
    cases h
    refine List.forall_mem_cons.mpr ⟨List.filter_sublist.map _, fun layer hlayer => ?_⟩
    have hsub := ih hrest layer hlayer
    rw [Pending.map_fst_rest] at hsub
    exact hsub.trans (List.filter_sublist.map _)
  | case4 => cases h

/-- What is stuck has predecessors that are stuck. -/
theorem peel_stuck {stuck : List NodeId} (h : peel edges p = .error stuck)
    (hp : p.Fair edges) : stuck ≠ [] ∧ ∀ v ∈ stuck, ∃ u ∈ stuck, (u, v) ∈ edges := by
  fun_induction peel edges p with
  | case1 => cases h
  | case2 p hne hready =>
    cases h
    refine ⟨by simpa using hne, fun v hv => ?_⟩
    obtain ⟨⟨v, d⟩, hmem, rfl⟩ := List.mem_map.mp hv
    have hd : d = degree edges (p.map (·.1)) v := hp.counted _ hmem
    refine degree_pos fun hzero => ?_
    have hv : v ∈ p.ready := Pending.mem_ready.mpr (by rwa [hd, hzero] at hmem)
    rw [hready] at hv
    exact List.not_mem_nil hv
  | case3 => cases h
  | case4 p _ _ stuck' hrest ih =>
    cases h
    exact ih hrest hp.rest

/-! ## Rounds -/

namespace Pending

/-- What is left at some round of the peeling. -/
inductive Round (edges : List (NodeId × NodeId)) (p : Pending) : Pending → Prop
  | start : Round edges p p
  | next {q : Pending} (h : Round edges p q) (hready : q.ready ≠ []) :
    Round edges p (q.rest edges)

theorem Round.fair {q : Pending} (h : Round edges p q) (hp : p.Fair edges) : q.Fair edges := by
  induction h with
  | start => exact hp
  | next _ _ ih => exact ih.rest

end Pending

end Layers

/-! ## Layers of a slice -/

namespace Slice

open Layers

variable {s : Slice} {layers : List (List NodeId)} {u v : NodeId} {k : Nat}

/-- The identifier of an operation. -/
def IsVertex (s : Slice) (v : NodeId) : Prop := ∃ n ∈ s.nodes, n.isOperation ∧ n.id = v

/-- A connection joins two operations. -/
structure Edge (s : Slice) (u v : NodeId) : Prop where
  source : s.IsVertex u
  target : s.IsVertex v
  connection : ∃ c ∈ s.connections, c.source = u ∧ c.target = v

theorem mem_vertices : v ∈ vertices s ↔ s.IsVertex v := by
  simp only [vertices, mem_distinct, operations, List.mem_map, List.mem_filter, IsVertex,
    and_assoc]

/-- Its edges are the connections between them. -/
theorem mem_edges_iff : (u, v) ∈ edges s ↔ s.Edge u v := by
  constructor
  · intro h
    rw [edges, mem_distinct] at h
    obtain ⟨c, hc, heq⟩ := List.mem_map.mp h
    obtain ⟨rfl, rfl⟩ := Prod.mk.inj heq
    obtain ⟨hc, hends⟩ := List.mem_filter.mp hc
    rw [Bool.and_eq_true, List.contains_iff_mem, List.contains_iff_mem] at hends
    exact ⟨mem_vertices.mp hends.1, mem_vertices.mp hends.2, c, hc, rfl, rfl⟩
  · rintro ⟨hu, hv, c, hc, rfl, rfl⟩
    exact mem_edges hc (mem_vertices.mpr hu) (mem_vertices.mpr hv)

theorem exists_standsIn_iff (h : s.layers = .ok layers) :
    (∃ k, StandsIn layers k v) ↔ s.IsVertex v := by
  rw [exists_standsIn, (layers_perm h).mem_iff, mem_vertices]

/-- A dependency stands in a lower layer. -/
theorem standsIn_earlier (h : s.layers = .ok layers) (hv : StandsIn layers k v)
    (he : s.Edge u v) : ∃ i < k, StandsIn layers i u := by
  obtain ⟨layer, hk, hmem⟩ := hv
  obtain ⟨c, hc, rfl, rfl⟩ := he.connection
  obtain ⟨i, hi, lower, hlower, hu⟩ :=
    layers_earlier h hc (mem_vertices.mpr he.source) hk hmem
  exact ⟨i, hi, lower, hlower, hu⟩

/-- A path is no longer than the layer at its end is high. -/
theorem le_of_pathTo (h : s.layers = .ok layers) {n : Nat} (hpath : PathTo s.Edge n v)
    (hv : StandsIn layers k v) : n ≤ k := by
  induction hpath generalizing k with
  | here => exact Nat.zero_le _
  | step _ he ih =>
    obtain ⟨i, hi, hu⟩ := standsIn_earlier h hv he
    exact Nat.lt_of_le_of_lt (ih hu) hi

/-- As high as a layer is, so long a path ends in each of its vertices. -/
theorem pathTo_of_standsIn (h : s.layers = .ok layers) (hv : StandsIn layers k v) :
    PathTo s.Edge k v := by
  induction k generalizing v with
  | zero => exact .here v
  | succ k ih =>
    obtain ⟨u, hu, he⟩ := peel_predecessor (peel_of_layers h) s.fair_start hv
    exact (ih hu).step (mem_edges_iff.mp he)

theorem isGreatest_of_standsIn (h : s.layers = .ok layers) (hv : StandsIn layers k v) :
    IsGreatest { n | PathTo s.Edge n v } k :=
  ⟨pathTo_of_standsIn h hv, fun _ hpath => le_of_pathTo h hpath hv⟩

/-- Whatever leads to a vertex stands in an earlier layer. -/
theorem standsIn_earlier_transGen (h : s.layers = .ok layers)
    (hpath : Relation.TransGen s.Edge u v) (hv : StandsIn layers k v) :
    ∃ i < k, StandsIn layers i u := by
  induction hpath generalizing k with
  | single he => exact standsIn_earlier h hv he
  | tail _ he ih =>
    obtain ⟨j, hj, hw⟩ := standsIn_earlier h hv he
    obtain ⟨i, hi, hu⟩ := ih hw
    exact ⟨i, Nat.lt_trans hi hj, hu⟩

/-- Vertices in layers are on no cycle: going around it would lead to lower
and lower layers. -/
theorem not_cyclic_of_standsIn (h : s.layers = .ok layers) (hv : StandsIn layers k v) :
    ¬ Relation.TransGen s.Edge v v := by
  intro hcycle
  induction k using Nat.strong_induction_on with
  | _ k ih =>
    obtain ⟨i, hi, hlower⟩ := standsIn_earlier_transGen h hcycle hv
    exact ih i hi hlower

/-- There are layers just if no path leads back to its beginning. -/
theorem layers_eq_ok_iff : (∃ layers, s.layers = .ok layers) ↔
    ∀ v, ¬ Relation.TransGen s.Edge v v := by
  constructor
  · rintro ⟨layers, h⟩ v hcycle
    have hvertex : s.IsVertex v := by
      cases hcycle with
      | single he => exact he.target
      | tail _ he => exact he.target
    obtain ⟨k, hv⟩ := (exists_standsIn_iff h).mpr hvertex
    exact not_cyclic_of_standsIn h hv hcycle
  · intro hacyclic
    cases hpeel : peel (edges s) (start (vertices s) (edges s)) with
    | ok layers => exact ⟨layers, by simp [Slice.layers, hpeel]⟩
    | error stuck =>
      obtain ⟨hne, hpred⟩ := peel_stuck hpeel s.fair_start
      have hedge : ∀ v ∈ stuck, ∃ u ∈ stuck, s.Edge u v := fun v hv => by
        obtain ⟨u, hu, he⟩ := hpred v hv
        exact ⟨u, hu, mem_edges_iff.mp he⟩
      obtain ⟨v, hcycle⟩ := exists_cycle hne hedge
      exact absurd hcycle (hacyclic v)

/-- Layers that put every vertex of a slice where it belongs. -/
structure IsLayering (s : Slice) (layers : List (List NodeId)) : Prop where
  nodup : layers.flatten.Nodup
  mem_iff : ∀ v, v ∈ layers.flatten ↔ s.IsVertex v
  ne_nil : ∀ layer ∈ layers, layer ≠ []
  /-- A vertex stands in layer `k` just if its longest path has `k` edges. -/
  standsIn_iff : ∀ k v, StandsIn layers k v ↔
    s.IsVertex v ∧ IsGreatest { n | PathTo s.Edge n v } k
  /-- Within a layer the vertices stand as in the slice. -/
  sublist : ∀ layer ∈ layers, layer.Sublist (distinct (s.operations.map (·.id)))

/-- The layers that are found keep all that is asked of them. -/
theorem isLayering (h : s.layers = .ok layers) : s.IsLayering layers where
  nodup := (layers_perm h).nodup_iff.mpr (nodup_distinct _)
  mem_iff := fun v => by rw [(layers_perm h).mem_iff, mem_vertices]
  ne_nil := layers_ne_nil h
  standsIn_iff := by
    refine fun k v => ⟨fun hv => ?_, fun ⟨hvertex, hlongest⟩ => ?_⟩
    · exact ⟨(exists_standsIn_iff h).mp ⟨k, hv⟩, isGreatest_of_standsIn h hv⟩
    · obtain ⟨i, hv⟩ := (exists_standsIn_iff h).mpr hvertex
      rwa [hlongest.unique (isGreatest_of_standsIn h hv)]
  sublist := by
    intro layer hlayer
    have hsub := peel_sublist (peel_of_layers h) layer hlayer
    rwa [Pending.map_fst_start] at hsub

/-- Layers are found just where no cycle is, and put every vertex where it
belongs. In either case no counter is lowered that is zero: at every round
of the peeling the edges of the vertices that it places can be taken one at
a time, in any order.

A round that places nothing leaves vertices each of which waits for one of
them, and among finitely many that is a cycle. That the counters do not go
below zero is `Pending.Fair`: each of them is the number of edges from
vertices that are not placed yet. -/
theorem layers_exact (s : Slice) :
    ((∃ layers, s.layers = .ok layers) ↔ ∀ v, ¬ Relation.TransGen s.Edge v v) ∧
      (∀ layers, s.layers = .ok layers → s.IsLayering layers) ∧
      ∀ p, Pending.Round (edges s) (start (vertices s) (edges s)) p →
        ∀ taken : List (NodeId × NodeId), taken.Perm (Pending.released (edges s) p) →
          taken.foldlM (fun q e => q.lower e.2) p.unready = some (p.rest (edges s)) :=
  ⟨layers_eq_ok_iff, fun _ h => isLayering h,
    fun _ hround _ hperm => by
      have hfair := hround.fair s.fair_start
      rw [hfair.rest_eq]
      exact hfair.foldlM_released hperm⟩

/-- A draft goes to the editor and, twice, straight to the printer, who also
waits for the editor. One connection leads nowhere, and the editor's
identifier occurs again. -/
def detour : Slice where
  nodes :=
    [⟨⟨"printer"⟩, "Printer", .operation .action, [], []⟩,
      ⟨⟨"editor"⟩, "Editor", .operation .textGeneration, [], []⟩,
      ⟨⟨"draft"⟩, "Draft", .operation .query, [], []⟩,
      ⟨⟨"editor"⟩, "Namesake", .operation .action, [], []⟩]
  connections :=
    [⟨⟨"direct"⟩, ⟨"draft"⟩, ⟨"out"⟩, ⟨"printer"⟩, ⟨"in"⟩⟩,
      ⟨⟨"again"⟩, ⟨"draft"⟩, ⟨"out"⟩, ⟨"printer"⟩, ⟨"in"⟩⟩,
      ⟨⟨"edit"⟩, ⟨"draft"⟩, ⟨"out"⟩, ⟨"editor"⟩, ⟨"in"⟩⟩,
      ⟨⟨"print"⟩, ⟨"editor"⟩, ⟨"out"⟩, ⟨"printer"⟩, ⟨"in"⟩⟩,
      ⟨⟨"lost"⟩, ⟨"printer"⟩, ⟨"out"⟩, ⟨"nowhere"⟩, ⟨"in"⟩⟩]

theorem detour_layers_exact :
    detour.layers = .ok [[⟨"draft"⟩], [⟨"editor"⟩], [⟨"printer"⟩]] ∧
      detour.IsLayering [[⟨"draft"⟩], [⟨"editor"⟩], [⟨"printer"⟩]] := by
  have hlayers : detour.layers = .ok [[⟨"draft"⟩], [⟨"editor"⟩], [⟨"printer"⟩]] := by
    decide +kernel
  exact ⟨hlayers, (layers_exact detour).2.1 _ hlayers⟩

end Slice

end Workflow
