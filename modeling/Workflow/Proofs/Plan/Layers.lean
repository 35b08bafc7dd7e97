/-
Workflow.Proofs.Plan.Layers — layers place every vertex once, after the
vertices that it depends on.

`Pending.Counted` is what the peeling keeps true of the counters: the number
beside an unplaced vertex is the number of edges into it from unplaced
vertices. So a vertex that is ready has no unplaced predecessor, and the
predecessors of any other vertex are placed before it (`peel_earlier`).

`Pending.Fair` adds that no edge leads from an unplaced vertex to a placed
one. Then no counter is ever lowered that is zero: the edges out of the ready
vertices can be taken one at a time, in any order, and all orders lead to the
same counters (`Fair.foldlM_released`).
-/
import Mathlib.Data.List.Nodup
import Workflow.Plan.Layers

namespace Workflow

/-- Nothing is left twice. -/
theorem nodup_distinct {α : Type} [DecidableEq α] (as : List α) : (distinct as).Nodup := by
  unfold distinct
  induction as with
  | nil => exact List.nodup_nil
  | cons a rest ih =>
    rw [distinctBy_cons, List.nodup_cons]
    exact ⟨by simp, ih.filter _⟩

namespace Layers

variable {edges : List (NodeId × NodeId)} {p : Pending} {layers : List (List NodeId)}

/-! ## Counting edges -/

/-- A vertex counts nothing just if no edge leads to it. -/
theorem degree_eq_zero {sources : List NodeId} {v : NodeId} :
    degree edges sources v = 0 ↔ ∀ u, (u, v) ∈ edges → u ∉ sources := by
  simp only [degree, List.countP_eq_zero, Bool.and_eq_true, List.contains_iff_mem, beq_iff_eq,
    Prod.forall]
  constructor
  · exact fun h u he hu => h u v he ⟨hu, rfl⟩
  · rintro h u _ he ⟨hu, rfl⟩
    exact h u he hu

/-- A vertex that counts something has a predecessor. -/
theorem degree_pos {sources : List NodeId} {v : NodeId} (h : degree edges sources v ≠ 0) :
    ∃ u ∈ sources, (u, v) ∈ edges := by
  by_contra hnone
  refine h (degree_eq_zero.mpr fun u he hu => hnone ⟨u, hu, he⟩)

/-- Edges from the one or the other of two disjoint sets. -/
theorem degree_add {sources as bs : List NodeId} (v : NodeId)
    (h : ∀ u, u ∈ sources ↔ u ∈ as ∨ u ∈ bs) (hdisj : ∀ u ∈ as, u ∉ bs) :
    degree edges sources v = degree edges as v + degree edges bs v := by
  unfold degree
  induction edges with
  | nil => rfl
  | cons e rest ih =>
    obtain ⟨u, t⟩ := e
    simp only [List.countP_cons, ih]
    have hu := h u
    have hd := hdisj u
    by_cases ha : u ∈ as <;> by_cases hb : u ∈ bs <;> by_cases ht : t = v <;>
      simp_all <;> omega

/-! ## Unplaced vertices -/

namespace Pending

/-- Beside every unplaced vertex stands the number of edges into it from
unplaced vertices. -/
def Counted (edges : List (NodeId × NodeId)) (p : Pending) : Prop :=
  ∀ e ∈ p, e.2 = degree edges (p.map (·.1)) e.1

theorem mem_ready {v : NodeId} : v ∈ p.ready ↔ (v, 0) ∈ p := by
  simp [ready]

/-- A round places the ready vertices and leaves the others. -/
theorem ready_append_rest_perm (edges : List (NodeId × NodeId)) (p : Pending) :
    (p.ready ++ (p.rest edges).map (·.1)).Perm (p.map (·.1)) := by
  rw [map_fst_rest, ready, unready, ← List.map_append]
  refine List.Perm.map _ ?_
  simpa using List.filter_append_perm (fun e : NodeId × Nat => decide (e.2 = 0)) p

theorem nodup_rest (h : (p.map (·.1)).Nodup) : ((p.rest edges).map (·.1)).Nodup := by
  rw [map_fst_rest]
  exact h.sublist (List.filter_sublist.map _)

theorem not_mem_rest_of_mem_ready (edges : List (NodeId × NodeId)) (h : (p.map (·.1)).Nodup)
    {u : NodeId} (hu : u ∈ p.ready) : u ∉ (p.rest edges).map (·.1) := by
  have hnodup := (ready_append_rest_perm edges p).nodup_iff.mpr h
  exact fun hrest => (List.nodup_append.mp hnodup).2.2 u hu u hrest rfl

theorem mem_ready_or_rest (edges : List (NodeId × NodeId)) {u : NodeId} :
    u ∈ p.map (·.1) ↔ u ∈ p.ready ∨ u ∈ (p.rest edges).map (·.1) := by
  rw [← (ready_append_rest_perm edges p).mem_iff, List.mem_append]

/-- A vertex is ready if no edge leads into it from an unplaced vertex. -/
theorem Counted.not_mem_of_ready (hc : Counted edges p) {u v : NodeId} (hv : v ∈ p.ready)
    (he : (u, v) ∈ edges) : u ∉ p.map (·.1) := by
  have hzero := hc _ (mem_ready.mp hv)
  exact degree_eq_zero.mp hzero.symm u he

/-! ## One edge at a time

The edges out of the ready vertices are taken one after the other, and each
lowers the count of its target. However they are ordered, each vertex loses as
much as edges lead to it. -/

/-- The edges out of the ready vertices. -/
def released (edges : List (NodeId × NodeId)) (p : Pending) : List (NodeId × NodeId) :=
  edges.filter (p.ready.contains ·.1)

/-- The counters once the given edges are taken. -/
def lowered (p : Pending) (taken : List (NodeId × NodeId)) : Pending :=
  p.map fun e => (e.1, e.2 - taken.countP (·.2 == e.1))

/-- A counter that is not zero can be lowered, and no other one is touched. -/
theorem lower_eq (hnodup : (p.map (·.1)).Nodup) {d : Nat} (hv : (v, d) ∈ p) (hd : 0 < d) :
    p.lower v = some (p.map fun e => (e.1, if e.1 = v then e.2 - 1 else e.2)) := by
  induction p with
  | nil => exact absurd hv List.not_mem_nil
  | cons first rest ih =>
    obtain ⟨u, e⟩ := first
    simp only [List.map_cons, List.nodup_cons, List.mem_map, Prod.exists, not_exists] at hnodup
    obtain ⟨hfirst, hrest⟩ := hnodup
    unfold lower
    by_cases hu : u = v
    · subst hu
      have he : e = d := by
        rcases List.mem_cons.mp hv with heq | hmem
        · exact (Prod.mk.inj heq).2.symm
        · exact absurd ⟨hmem, rfl⟩ (hfirst u d)
      have hsame : rest.map (fun f => (f.1, if f.1 = u then f.2 - 1 else f.2)) = rest := by
        refine (List.map_congr_left fun f hf => ?_).trans (List.map_id rest)
        rw [if_neg fun heq => hfirst f.1 f.2 ⟨hf, heq⟩]
        rfl
      rw [if_pos rfl, if_neg (by omega), List.map_cons, hsame, if_pos rfl]
    · have hmem : (v, d) ∈ rest := by
        rcases List.mem_cons.mp hv with heq | hmem
        · exact absurd (Prod.mk.inj heq).1.symm hu
        · exact hmem
      rw [if_neg hu, ih hrest hmem, Option.map_some, List.map_cons, if_neg hu]

/-- Edges that the counters hold can be taken one at a time. -/
theorem foldlM_lower (taken : List (NodeId × NodeId)) (hnodup : (p.map (·.1)).Nodup)
    (hheld : ∀ e ∈ taken, ∃ d, (e.2, d) ∈ p ∧ taken.countP (·.2 == e.2) ≤ d) :
    taken.foldlM (fun q e => q.lower e.2) p = some (p.lowered taken) := by
  induction taken generalizing p with
  | nil => simp [lowered]
  | cons e rest ih =>
    obtain ⟨d, hmem, hcount⟩ := hheld e List.mem_cons_self
    have hpos : 0 < d := Nat.lt_of_lt_of_le (by simp) hcount
    rw [List.foldlM_cons, lower_eq hnodup hmem hpos, Option.bind_eq_bind, Option.bind_some, ih]
    · rw [lowered, List.map_map, lowered]
      refine congrArg some (List.map_congr_left fun (u, c) _ => ?_)
      by_cases hu : u = e.2
      · simp only [Function.comp_apply, hu, if_pos, List.countP_cons, beq_self_eq_true]
        congr 1
        omega
      · simp [hu, Ne.symm hu]
    · simpa [Function.comp_def] using hnodup
    · intro f hf
      obtain ⟨c, hc, hle⟩ := hheld f (List.mem_cons_of_mem _ hf)
      refine ⟨_, List.mem_map.mpr ⟨(f.2, c), hc, rfl⟩, ?_⟩
      rw [List.countP_cons] at hle
      by_cases hu : f.2 = e.2
      · simp only [hu, if_pos, beq_self_eq_true] at hle ⊢
        omega
      · simpa [hu, Ne.symm hu] using hle

/-- Vertex by vertex, the edges are taken in one of the possible orders. -/
theorem flatMap_filter_perm (edges : List (NodeId × NodeId)) {placed : List NodeId}
    (h : placed.Nodup) :
    (placed.flatMap fun u => edges.filter (·.1 = u)).Perm (edges.filter (placed.contains ·.1)) := by
  induction placed with
  | nil => simp
  | cons u rest ih =>
    obtain ⟨hu, hrest⟩ := List.nodup_cons.mp h
    refine ((ih hrest).append_left _).trans ?_
    clear ih
    induction edges with
    | nil => exact List.Perm.refl _
    | cons e edges ih =>
      by_cases he : e.1 = u
      · simpa [he, hu] using ih
      · by_cases hmem : e.1 ∈ rest
        · simpa [he, hmem] using List.perm_middle.trans (ih.cons e)
        · simpa [he, hmem] using ih

/-- The edges out of several vertices, taken vertex by vertex, are one list of
edges. -/
theorem release_eq_foldlM (edges : List (NodeId × NodeId)) (placed : List NodeId) (p : Pending) :
    p.release edges placed =
      (placed.flatMap fun u => edges.filter (·.1 = u)).foldlM (fun q e => q.lower e.2) p := by
  unfold release
  induction placed generalizing p with
  | nil => rfl
  | cons u rest ih =>
    rw [List.foldlM_cons, List.flatMap_cons, List.foldlM_append, Graph.successors, List.foldlM_map]
    exact congrArg (_ >>= ·) (funext ih)

/-- A vertex is released as often as edges lead to it from ready vertices. -/
theorem countP_released (edges : List (NodeId × NodeId)) (p : Pending) (v : NodeId) :
    (released edges p).countP (·.2 == v) = degree edges p.ready v := by
  rw [released, List.countP_filter, degree]
  simp only [Bool.and_comm]

/-- What holds at every round: the counters are right, and no edge leads
from an unplaced vertex to a placed one. -/
structure Fair (edges : List (NodeId × NodeId)) (p : Pending) : Prop where
  counted : p.Counted edges
  nodup : (p.map (·.1)).Nodup
  /-- A vertex that has a placed successor is placed. -/
  closed : ∀ e ∈ edges, e.1 ∈ p.map (·.1) → e.2 ∈ p.map (·.1)

/-- What a vertex counts comes from ready vertices and from those that are
left. -/
theorem Fair.degree_eq (h : p.Fair edges) (v : NodeId) : degree edges (p.map (·.1)) v =
    degree edges p.ready v + degree edges ((p.rest edges).map (·.1)) v :=
  degree_add v (fun _ => mem_ready_or_rest edges) fun _ => not_mem_rest_of_mem_ready edges h.nodup

/-- The edges out of the ready vertices can be taken in any order, and leave
the same counters. -/
theorem Fair.foldlM_released (h : p.Fair edges) {taken : List (NodeId × NodeId)}
    (hperm : taken.Perm (released edges p)) :
    taken.foldlM (fun q e => q.lower e.2) p.unready =
      some (p.unready.map fun e => (e.1, e.2 - degree edges p.ready e.1)) := by
  have hcount (v : NodeId) : taken.countP (·.2 == v) = degree edges p.ready v := by
    rw [hperm.countP_eq, countP_released]
  have hlowered : p.unready.lowered taken =
      p.unready.map fun e => (e.1, e.2 - degree edges p.ready e.1) :=
    List.map_congr_left fun e _ => congrArg (fun c => (e.1, e.2 - c)) (hcount e.1)
  rw [← hlowered]
  refine foldlM_lower taken (h.nodup.sublist (List.filter_sublist.map _)) fun e he => ?_
  obtain ⟨hedge, hready⟩ := List.mem_filter.mp (hperm.mem_iff.mp he)
  have hready : e.1 ∈ p.ready := List.contains_iff_mem.mp hready
  have htarget := h.closed e hedge ((mem_ready_or_rest edges).mpr (Or.inl hready))
  obtain ⟨⟨v, d⟩, hmem, hv⟩ := List.mem_map.mp htarget
  obtain rfl : v = e.2 := hv
  have hd : d = degree edges (p.map (·.1)) e.2 := h.counted _ hmem
  have hsplit := h.degree_eq e.2
  have hpos : degree edges p.ready e.2 ≠ 0 := fun hzero =>
    degree_eq_zero.mp hzero e.1 hedge hready
  refine ⟨d, List.mem_filter.mpr ⟨hmem, decide_eq_true (show d ≠ 0 by omega)⟩, ?_⟩
  rw [hcount]
  omega

/-- Placing the ready vertices takes all edges out of them. -/
theorem Fair.rest_eq (h : p.Fair edges) :
    p.rest edges = p.unready.map fun e => (e.1, e.2 - degree edges p.ready e.1) := by
  have hready : p.ready.Nodup := h.nodup.sublist (List.filter_sublist.map _)
  rw [rest, release_eq_foldlM, h.foldlM_released (flatMap_filter_perm edges hready),
    Option.getD_some]

/-- What is left after a round is fair again. -/
theorem Fair.rest (h : p.Fair edges) : (p.rest edges).Fair edges where
  counted := by
    intro e he
    have hsplit := h.degree_eq e.1
    rw [h.rest_eq] at he
    obtain ⟨⟨v, d⟩, hv, rfl⟩ := List.mem_map.mp he
    have hd : d = degree edges (p.map (·.1)) v := h.counted _ (List.mem_filter.mp hv).1
    show d - degree edges p.ready v = degree edges ((p.rest edges).map (·.1)) v
    simp only at hsplit
    omega
  nodup := nodup_rest h.nodup
  closed := by
    intro e he hsource
    have hunplaced : e.1 ∈ p.map (·.1) := (mem_ready_or_rest edges).mpr (Or.inr hsource)
    rcases (mem_ready_or_rest edges).mp (h.closed e he hunplaced) with hready | hrest
    · exact absurd hunplaced (h.counted.not_mem_of_ready hready he)
    · exact hrest

theorem counted_start (vertices : List NodeId) : Counted edges (start vertices edges) := by
  intro e he
  obtain ⟨v, _, rfl⟩ := List.mem_map.mp he
  simp [start, Function.comp_def]

theorem map_fst_start (vertices : List NodeId) :
    (start vertices edges).map (·.1) = vertices := by
  simp [start, Function.comp_def]

end Pending

/-! ## Peeling -/

/-- The layers hold every vertex, once. -/
theorem peel_perm (h : peel edges p = .ok layers) : layers.flatten.Perm (p.map (·.1)) := by
  fun_induction peel edges p generalizing layers with
  | case1 => cases h; exact List.Perm.refl _
  | case2 => cases h
  | case3 p _ _ rest hrest ih =>
    cases h
    rw [List.flatten_cons]
    exact ((ih hrest).append_left _).trans (Pending.ready_append_rest_perm edges p)
  | case4 => cases h

/-- No layer is empty. -/
theorem peel_ne_nil (h : peel edges p = .ok layers) : ∀ layer ∈ layers, layer ≠ [] := by
  fun_induction peel edges p generalizing layers with
  | case1 => cases h; simp
  | case2 => cases h
  | case3 p _ hready rest hrest ih =>
    cases h
    exact List.forall_mem_cons.mpr ⟨hready, ih hrest⟩
  | case4 => cases h

/-- Where an edge joins two unplaced vertices, its source gets the lower
layer. -/
theorem peel_earlier (h : peel edges p = .ok layers) (hp : p.Fair edges) {k : Nat}
    {layer : List NodeId} {u v : NodeId}
    (hk : layers[k]? = some layer) (hv : v ∈ layer) (he : (u, v) ∈ edges)
    (hu : u ∈ p.map (·.1)) : ∃ i < k, ∃ lower, layers[i]? = some lower ∧ u ∈ lower := by
  fun_induction peel edges p generalizing layers k with
  | case1 => simp at hu
  | case2 => cases h
  | case3 p _ _ rest hrest ih =>
    cases h
    cases k with
    | zero =>
      cases hk
      exact absurd hu (hp.counted.not_mem_of_ready hv he)
    | succ k =>
      rcases (Pending.mem_ready_or_rest edges).mp hu with hready | hu
      · exact ⟨0, k.succ_pos, _, rfl, hready⟩
      · obtain ⟨i, hi, lower, hlower, hmem⟩ :=
          ih hrest hp.rest hk hu
        exact ⟨i + 1, Nat.succ_lt_succ hi, lower, hlower, hmem⟩
  | case4 => cases h

end Layers

/-! ## Layers of a slice -/

namespace Slice

open Layers

variable {s : Slice} {layers : List (List NodeId)}

/-- The layers of a slice are peeled off its graph. -/
theorem peel_of_layers (h : s.layers = .ok layers) :
    peel (edges s) (start (vertices s) (edges s)) = .ok layers := by
  simp only [Slice.layers] at h
  split at h
  · rename_i found hpeel
    cases h
    exact hpeel
  · cases h

theorem layers_perm (h : s.layers = .ok layers) : layers.flatten.Perm (vertices s) := by
  have hperm := peel_perm (peel_of_layers h)
  rwa [Pending.map_fst_start] at hperm

theorem layers_ne_nil (h : s.layers = .ok layers) : ∀ layer ∈ layers, layer ≠ [] :=
  peel_ne_nil (peel_of_layers h)

theorem mem_edges {c : Connection} (hc : c ∈ s.connections) (hs : c.source ∈ vertices s)
    (ht : c.target ∈ vertices s) : (c.source, c.target) ∈ edges s := by
  rw [edges, mem_distinct]
  exact List.mem_map.mpr ⟨c, List.mem_filter.mpr ⟨hc, by simp [hs, ht]⟩, rfl⟩

/-- The peeling of a slice begins fairly. -/
theorem fair_start (s : Slice) : (start (vertices s) (edges s)).Fair (edges s) where
  counted := Pending.counted_start _
  nodup := by
    rw [Pending.map_fst_start]
    exact nodup_distinct _
  closed := by
    rw [Pending.map_fst_start]
    intro e he _
    rw [edges, mem_distinct] at he
    obtain ⟨c, hc, rfl⟩ := List.mem_map.mp he
    have hends := (List.mem_filter.mp hc).2
    rw [Bool.and_eq_true, List.contains_iff_mem, List.contains_iff_mem] at hends
    exact hends.2

/-- A connection between two operations goes from a lower to a higher
layer. -/
theorem layers_earlier (h : s.layers = .ok layers) {c : Connection} (hc : c ∈ s.connections)
    (hs : c.source ∈ vertices s) {k : Nat} {layer : List NodeId} (hk : layers[k]? = some layer)
    (ht : c.target ∈ layer) : ∃ i < k, ∃ lower, layers[i]? = some lower ∧ c.source ∈ lower := by
  have hmem : c.target ∈ vertices s :=
    (layers_perm h).mem_iff.mp (List.mem_flatten_of_mem (List.mem_of_getElem? hk) ht)
  refine peel_earlier (peel_of_layers h) s.fair_start hk ht (mem_edges hc hs hmem) ?_
  rwa [Pending.map_fst_start]

end Slice

end Workflow
