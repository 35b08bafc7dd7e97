/-
Workflow.Proofs.Plan.Blueprint — a compiled plan keeps every dependency.

* `sequences_nodes` — the nodes of the steps, sequence by sequence, are the
  layers of the slice.
* `compile_earlier` — the step at the source of a connection stands in an
  earlier sequence than the one at its target.
* `compile_keeps_dependencies` — the steps are the operations of the slice,
  and each one is bound to a generation that knows of everything in the
  workspace that feeds it.
-/
import Mathlib.Data.List.Forall2
import Workflow.Plan.Blueprint
import Workflow.Proofs.Plan.Layers
import Workflow.Proofs.Plan.Slice

namespace Workflow

/-! ## Positions of steps -/

namespace Act

/-- A position is listed with the step that stands there. -/
theorem mem_positions {a : Act} {i j : Nat} {step : Step} :
    (i, j, step) ∈ a.positions ↔ a.step? i j = some step := by
  simp only [positions, List.mem_flatMap, List.mem_map, Prod.exists, List.mem_zipIdx_iff_getElem?,
    Prod.mk.injEq, step?, Option.bind_eq_some_iff]
  constructor
  · rintro ⟨s, _, hs, t, _, ht, rfl, rfl, rfl⟩
    exact ⟨s, hs, ht⟩
  · rintro ⟨s, hs, ht⟩
    exact ⟨s, i, hs, step, j, ht, rfl, rfl, rfl⟩

/-- The listed steps are the steps of all sequences, in order. -/
theorem positions_map_step (a : Act) :
    a.positions.map (·.2.2) = a.sequences.flatMap (·.steps) := by
  have hsteps (x : Sequence × Nat) :
      (x.1.steps.zipIdx.map fun y => (x.2, y.2, y.1)).map (·.2.2) = x.1.steps := by
    rw [List.map_map]
    exact List.zipIdx_map_fst 0 x.1.steps
  rw [positions, List.map_flatMap]
  refine (congrArg a.sequences.zipIdx.flatMap (funext hsteps)).trans ?_
  rw [← List.flatMap_map Prod.fst Sequence.steps, List.zipIdx_map_fst]

end Act

theorem eq_ok_of_isOk {ε α : Type} [Inhabited α] {e : Except ε α} (h : e.isOk) :
    e = .ok (e.toOption.getD default) := by
  cases e with
  | ok a => rfl
  | error _ => cases h

namespace Blueprint

/-! ## Steps and generations of planned operations -/

variable {ids : IdSource} {now : Timestamp} {s : Slice} {origin : Origin}

/-- A step and the generation that it is bound to, of one planned
operation. -/
def Bound (s : Slice) (origin : Origin) (now : Timestamp) (plan : List (Node × Operation))
    (step : Step) (g : Generation) : Prop :=
  ∃ node, (node, step.operation) ∈ plan ∧ step.node = node.id ∧
    g = Generation.new step.generation (contextOf s origin node) now

/-- Steps and generations are made in pairs, one for each planned operation. -/
theorem forall₂_bound (count : Nat) (plan : List (Node × Operation)) :
    List.Forall₂ (Bound s origin now plan) (stepsFrom ids count plan)
      (generationsFrom ids s origin now count plan) := by
  induction plan generalizing count with
  | nil => exact .nil
  | cons planned rest ih =>
    obtain ⟨node, operation⟩ := planned
    refine .cons ⟨node, List.mem_cons_self, rfl, rfl⟩ ((ih (count + 1)).imp ?_)
    rintro step g ⟨n, hmem, hnode, hg⟩
    exact ⟨n, List.mem_cons_of_mem _ hmem, hnode, hg⟩

/-- The numbers of steps go on from one part of a plan to the next. -/
theorem stepsFrom_append (count : Nat) (plan more : List (Node × Operation)) :
    stepsFrom ids count (plan ++ more) =
      stepsFrom ids count plan ++ stepsFrom ids (count + plan.length) more := by
  induction plan generalizing count with
  | nil => rfl
  | cons planned rest ih =>
    obtain ⟨node, operation⟩ := planned
    have hcount : count + 1 + rest.length = count + (rest.length + 1) := by omega
    simp [stepsFrom, ih, hcount]

/-- Each step is for the node that was planned. -/
theorem stepsFrom_nodes (count : Nat) (plan : List (Node × Operation)) :
    (stepsFrom ids count plan).map (·.node) = plan.map (·.1.id) := by
  induction plan generalizing count with
  | nil => rfl
  | cons planned rest ih =>
    obtain ⟨node, operation⟩ := planned
    simp [stepsFrom, ih]

/-- The sequences together have the steps of the whole plan. -/
theorem sequencesFrom_steps (index count : Nat) (plan : List (List (Node × Operation))) :
    (sequencesFrom ids index count plan).flatMap (·.steps) =
      stepsFrom ids count plan.flatten := by
  induction plan generalizing index count with
  | nil => rfl
  | cons layer rest ih => simp [sequencesFrom, ih, stepsFrom_append]

theorem sequencesFrom_nodes (index count : Nat) (plan : List (List (Node × Operation))) :
    (sequencesFrom ids index count plan).map (·.steps.map (·.node)) =
      plan.map (·.map (·.1.id)) := by
  induction plan generalizing index count with
  | nil => rfl
  | cons layer rest ih => simp [sequencesFrom, ih, stepsFrom_nodes]

/-! ## Blueprints of slices -/

/-- What a blueprint consists of. -/
theorem ofSlice_eq {workspace : WorkspaceId} {start : NodeId} {b : Blueprint}
    (h : ofSlice ids now workspace start s = .ok b) :
    ∃ layers, s.layers = .ok layers ∧
      b.act = Act.new (ids .act 0) workspace start
        (sequencesFrom ids 0 0 (layers.map (·.filterMap (planned? s)))) now ∧
      b.generations = generationsFrom ids s ⟨ids .act 0, workspace⟩ now 0
        (layers.map (·.filterMap (planned? s))).flatten := by
  unfold ofSlice at h
  cases hlayers : s.layers with
  | error e => simp [hlayers, bind, Except.bind] at h
  | ok layers =>
    refine ⟨layers, rfl, ?_⟩
    by_cases hempty : layers.isEmpty
    · simp [hlayers, hempty, bind, Except.bind, throw, throwThe, MonadExceptOf.throw] at h
    · simp only [hlayers, hempty, bind, Except.bind, pure, Except.pure] at h
      cases h
      exact ⟨rfl, rfl⟩

theorem operation?_eq_some_iff {kind : NodeKind} {operation : Operation} :
    kind.operation? = some operation ↔ kind = .operation operation := by
  cases kind <;> simp [NodeKind.operation?]

/-- A node is planned just if it is an operation. -/
theorem planned?_eq_some_iff {id : NodeId} {n : Node} {operation : Operation} :
    planned? s id = some (n, operation) ↔ s.node? id = some n ∧ n.kind = .operation operation := by
  simp only [planned?, Option.bind_eq_bind, Option.bind_eq_some_iff, Option.pure_def,
    Option.some.injEq, Prod.mk.injEq, operation?_eq_some_iff]
  constructor
  · rintro ⟨m, hnode, o, hkind, rfl, rfl⟩
    exact ⟨hnode, hkind⟩
  · rintro ⟨hnode, hkind⟩
    exact ⟨n, hnode, operation, hkind, rfl, rfl⟩

theorem mem_nodes_of_planned {id : NodeId} {node : Node} {operation : Operation}
    (h : planned? s id = some (node, operation)) :
    node ∈ s.nodes ∧ node.id = id ∧ node.isOperation := by
  obtain ⟨hnode, hkind⟩ := planned?_eq_some_iff.mp h
  refine ⟨List.mem_of_find?_eq_some hnode, by simpa using List.find?_some hnode, ?_⟩
  simp [Node.isOperation, NodeKind.isOperation, hkind]

/-- Every operation that is found by its identifier is planned. -/
theorem exists_planned {n : Node} (hnode : s.node? n.id = some n) (hop : n.isOperation) :
    ∃ operation, planned? s n.id = some (n, operation) := by
  cases hkind : n.kind with
  | operation kind => exact ⟨kind, planned?_eq_some_iff.mpr ⟨hnode, hkind⟩⟩
  | _ => simp [Node.isOperation, NodeKind.isOperation, hkind] at hop

/-- If every identifier of a layer stands for an operation, each one yields
a step. -/
theorem filterMap_planned {layer : List NodeId}
    (h : ∀ id ∈ layer, ∃ n, n.id = id ∧ s.node? id = some n ∧ n.isOperation) :
    (layer.filterMap (planned? s)).map (·.1.id) = layer := by
  induction layer with
  | nil => rfl
  | cons id rest ih =>
    obtain ⟨n, hid, hnode, hop⟩ := h id List.mem_cons_self
    subst hid
    obtain ⟨operation, hplanned⟩ := exists_planned hnode hop
    rw [List.filterMap_cons_some hplanned, List.map_cons,
      ih fun id hid => h id (List.mem_cons_of_mem _ hid)]

/-! ## Blueprints of workspaces -/

variable {w : Workspace} {start : NodeId} {b : Blueprint}

/-- A compilation that succeeds has made a blueprint of the slice. -/
theorem compile_eq (h : compile ids now w start = .ok b) :
    Slice.isKnown w.nodes start ∧ ofSlice ids now w.id start (w.slice start) = .ok b := by
  unfold compile at h
  split at h
  · cases h
  · rename_i hknown
    refine ⟨?_, h⟩
    rw [Option.isNone_iff_eq_none, ← ne_eq, Option.ne_none_iff_isSome] at hknown
    exact hknown

/-- The vertices of a slice are its operations. -/
theorem mem_vertices (hw : w.WellFormed) (hs : Slice.isKnown w.nodes start) {id : NodeId} :
    id ∈ Layers.vertices (w.slice start) ↔ ∃ n ∈ (w.slice start).nodes,
      n.id = id ∧ (w.slice start).node? id = some n ∧ n.isOperation := by
  simp only [Layers.vertices, mem_distinct, Slice.operations, List.mem_map, List.mem_filter]
  constructor
  · rintro ⟨n, ⟨hn, hop⟩, rfl⟩
    exact ⟨n, hn, rfl, Workspace.slice_node? hw hs hn, hop⟩
  · rintro ⟨n, hn, rfl, -, hop⟩
    exact ⟨n, ⟨hn, hop⟩, rfl⟩

/-- Sequence by sequence, the steps of a plan are the layers of its
slice. -/
theorem sequences_nodes (hw : w.WellFormed) (h : compile ids now w start = .ok b) :
    (w.slice start).layers = .ok (b.act.sequences.map (·.steps.map (·.node))) := by
  obtain ⟨hs, hslice⟩ := compile_eq h
  obtain ⟨layers, hlayers, hact, -⟩ := ofSlice_eq hslice
  have hplanned : layers.map
      (fun layer => (layer.filterMap (planned? (w.slice start))).map (·.1.id))
      = layers := by
    refine (List.map_congr_left fun layer hlayer => ?_).trans (List.map_id layers)
    refine filterMap_planned fun id hid => ?_
    have hmem : id ∈ Layers.vertices (w.slice start) :=
      (Slice.layers_perm hlayers).mem_iff.mp (List.mem_flatten_of_mem hlayer hid)
    obtain ⟨n, -, hn⟩ := (mem_vertices hw hs).mp hmem
    exact ⟨n, hn⟩
  rw [hlayers, hact, Act.new, sequencesFrom_nodes, List.map_map]
  exact congrArg Except.ok hplanned.symm

/-- The step of a plan at a node. -/
theorem step?_of_layer {a : Act} {i : Nat} {id : NodeId} {layer : List NodeId}
    (hi : (a.sequences.map (·.steps.map (·.node)))[i]? = some layer) (hid : id ∈ layer) :
    ∃ j step, a.step? i j = some step ∧ step.node = id := by
  rw [List.getElem?_map, Option.map_eq_some_iff] at hi
  obtain ⟨s, hs, rfl⟩ := hi
  obtain ⟨step, hstep, hnode⟩ := List.mem_map.mp hid
  obtain ⟨j, hj⟩ := List.getElem?_of_mem hstep
  exact ⟨j, step, by simp [Act.step?, hs, hj], hnode⟩

/-- A step is for a node of the layer with its sequence's number. -/
theorem layer_of_step? {a : Act} {i j : Nat} {step : Step} (h : a.step? i j = some step) :
    ∃ layer, (a.sequences.map (·.steps.map (·.node)))[i]? = some layer ∧ step.node ∈ layer := by
  simp only [Act.step?, Option.bind_eq_some_iff] at h
  obtain ⟨s, hs, hj⟩ := h
  exact ⟨s.steps.map (·.node), by simp [hs], List.mem_map_of_mem (List.mem_of_getElem? hj)⟩

/-- A step stands for an operation of the slice. -/
theorem mem_slice_of_step (hw : w.WellFormed) (h : compile ids now w start = .ok b) {i j : Nat}
    {step : Step} (hstep : b.act.step? i j = some step) :
    ∃ n ∈ (w.slice start).nodes, n.id = step.node ∧ n.isOperation := by
  obtain ⟨layer, hlayer, hmem⟩ := layer_of_step? hstep
  have hvertex := (Slice.layers_perm (sequences_nodes hw h)).mem_iff.mp
    (List.mem_flatten_of_mem (List.mem_of_getElem? hlayer) hmem)
  obtain ⟨n, hn, hid, -, hop⟩ := (mem_vertices hw (compile_eq h).1).mp hvertex
  exact ⟨n, hn, hid, hop⟩

/-- What an operation depends on has a step in an earlier sequence. -/
theorem compile_earlier (hw : w.WellFormed) (h : compile ids now w start = .ok b) {k j : Nat}
    {step : Step} (hstep : b.act.step? k j = some step) {c : Connection}
    (hc : c ∈ w.connections) (ht : c.target = step.node) {u : Node} (hu : u ∈ w.nodes)
    (hs : c.source = u.id) (hop : u.isOperation) :
    ∃ i < k, ∃ l dep, b.act.step? i l = some dep ∧ dep.node = u.id := by
  have hknown := (compile_eq h).1
  have hlayers := sequences_nodes hw h
  obtain ⟨n, hn, hid, hnop⟩ := mem_slice_of_step hw h hstep
  -- the slice has all connections into an operation of its own, and their sources
  have hin : c ∈ (w.slice start).connections := by
    have hmem : c ∈ w.incoming n.id := List.mem_filter.mpr ⟨hc, by simp [ht, hid]⟩
    rw [← Workspace.slice_incoming hw hknown hn hnop] at hmem
    exact (List.mem_filter.mp hmem).1
  have hunode : u ∈ (w.slice start).nodes := by
    have hmem : u ∈ w.nodes.filter fun m => ((w.incoming n.id).map (·.source)).contains m.id := by
      refine List.mem_filter.mpr ⟨hu, ?_⟩
      rw [List.contains_iff_mem]
      exact List.mem_map.mpr ⟨c, List.mem_filter.mpr ⟨hc, by simp [ht, hid]⟩, hs⟩
    rw [← Workspace.slice_sources hw hknown hn hnop] at hmem
    exact (List.mem_filter.mp hmem).1
  have hvertex : c.source ∈ Layers.vertices (w.slice start) := by
    rw [hs]
    exact (mem_vertices hw hknown).mpr
      ⟨u, hunode, rfl, Workspace.slice_node? hw hknown hunode, hop⟩
  obtain ⟨layer, hlayer, hmem⟩ := layer_of_step? hstep
  obtain ⟨i, hi, lower, hlower, hsource⟩ :=
    Slice.layers_earlier hlayers hin hvertex hlayer (ht ▸ hmem)
  obtain ⟨l, dep, hdep, hnode⟩ := step?_of_layer hlower hsource
  exact ⟨i, hi, l, dep, hdep, hnode.trans hs⟩

/-- What the generation of a step in sequence `i` knows of the
workspace. -/
structure Fed (w : Workspace) (a : Act) (i : Nat) (step : Step) (g : Generation) : Prop where
  id_eq : g.id = step.generation
  node_eq : w.node? step.node = some g.context.node
  /-- All connections into the step's node, in authored order. -/
  connections_eq : g.context.connections = w.incoming step.node
  /-- All nodes that these connections come from, in authored order. -/
  sources_eq : g.context.sources =
    w.nodes.filter fun n => (w.incoming step.node).any (·.source == n.id)
  /-- A source that is an operation has a step in an earlier sequence. -/
  earlier : ∀ u ∈ g.context.sources, u.isOperation →
    ∃ k < i, ∃ l dep, a.step? k l = some dep ∧ dep.node = u.id

/-- A generation that is bound to a step knows of all connections into the
node, since the slice has them all. -/
theorem fed_of_bound (hw : w.WellFormed) (h : compile ids now w start = .ok b) {i j : Nat}
    {step : Step} (hstep : b.act.step? i j = some step) {g : Generation}
    {plan : List (Node × Operation)}
    (hplan : ∀ p ∈ plan, p.1 ∈ (w.slice start).nodes ∧ p.1.isOperation)
    (hg : Bound (w.slice start) origin now plan step g) : Fed w b.act i step g := by
  have hknown := (compile_eq h).1
  obtain ⟨node, hmem, hnode, rfl⟩ := hg
  obtain ⟨hn, hop⟩ := hplan _ hmem
  have hincoming := Workspace.slice_incoming hw hknown hn hop
  -- sources are told in the order of the workspace
  have hsources : (contextOf (w.slice start) origin node).sources =
      w.nodes.filter fun m => (w.incoming node.id).any (·.source == m.id) := by
    simp only [contextOf]
    rw [hincoming, Workspace.slice_sources hw hknown hn hop]
    refine List.filter_congr fun m _ => ?_
    rw [List.contains_eq_any_beq, List.any_map]
    exact congrArg (List.any _) (funext fun c => Bool.beq_comm)
  refine ⟨rfl, ?_, ?_, ?_, ?_⟩
  · rw [hnode]
    exact hw.nodeIn?_eq (Workspace.mem_of_mem_slice hw hknown hn)
  · rw [hnode]
    exact hincoming
  · rw [hnode]
    exact hsources
  · intro u hu huop
    obtain ⟨humem, hany⟩ := List.mem_filter.mp (hsources ▸ hu)
    obtain ⟨c, hc, hcs⟩ := List.any_eq_true.mp hany
    obtain ⟨hc, hct⟩ := List.mem_filter.mp hc
    exact compile_earlier hw h hstep hc ((eq_of_beq hct).trans hnode.symm) humem
      (eq_of_beq hcs) huop

/-- A plan that takes over every dependency of what it plans. -/
structure KeepsDependencies (w : Workspace) (start : NodeId) (b : Blueprint) : Prop where
  /-- No node has two steps. -/
  nodup : ((b.act.sequences.flatMap (·.steps)).map (·.node)).Nodup
  /-- The steps' nodes are the operations of the slice. -/
  perm : ((b.act.sequences.flatMap (·.steps)).map (·.node)).Perm
    ((w.slice start).operations.map (·.id))
  steps_ne_nil : ∀ s ∈ b.act.sequences, s.steps ≠ []
  /-- Step by step, the generations know of all that feeds the step, which
  runs after it. -/
  fed : List.Forall₂ (fun p g => Fed w b.act p.1 p.2.2 g) b.act.positions b.generations

/-- Everything that a plan takes from a valid workspace is there. The steps
are the slice's operations because the layers are a permutation of its
vertices (`Slice.layers_perm`), and a generation knows of all that feeds its
step because its context is drawn from the whole slice (`fed_of_bound`). -/
theorem compile_keeps_dependencies (hv : w.validate = .ok ())
    (h : compile ids now w start = .ok b) : KeepsDependencies w start b := by
  have hw := Workspace.wellFormed_of_validate hv
  obtain ⟨hknown, hslice⟩ := compile_eq h
  have hlayers := sequences_nodes hw h
  have hflatten : (b.act.sequences.flatMap (·.steps)).map (·.node) =
      (b.act.sequences.map (·.steps.map (·.node))).flatten := by
    rw [List.map_flatMap, List.flatMap_def]
  have hperm : ((b.act.sequences.flatMap (·.steps)).map (·.node)).Perm
      (Layers.vertices (w.slice start)) := by
    rw [hflatten]
    exact Slice.layers_perm hlayers
  -- no identifier repeats in a slice, so every operation is a vertex of its own
  have hvertices : Layers.vertices (w.slice start) = (w.slice start).operations.map (·.id) :=
    distinctBy_eq_self (by
      rw [List.map_id]
      exact nodup_map_filter _ (Workspace.slice_nodup hw hknown))
  refine ⟨hperm.nodup_iff.mpr (nodup_distinct _), hvertices ▸ hperm, ?_, ?_⟩
  · intro s hs hnil
    exact Slice.layers_ne_nil hlayers _ (List.mem_map_of_mem hs) (by simp [hnil])
  · obtain ⟨layers, -, hact, hgenerations⟩ := ofSlice_eq hslice
    have hbound : List.Forall₂
        (Bound (w.slice start) ⟨ids .act 0, w.id⟩ now
          (layers.map (·.filterMap (planned? (w.slice start)))).flatten)
        (b.act.positions.map (·.2.2)) b.generations := by
      rw [Act.positions_map_step, hgenerations, hact, Act.new, sequencesFrom_steps]
      exact forall₂_bound 0 _
    -- all that was planned are operations of the slice
    have hplan : ∀ p ∈ (layers.map (·.filterMap (planned? (w.slice start)))).flatten,
        p.1 ∈ (w.slice start).nodes ∧ p.1.isOperation := by
      intro p hp
      obtain ⟨_, hl, hp⟩ := List.mem_flatten.mp hp
      obtain ⟨layer, -, rfl⟩ := List.mem_map.mp hl
      obtain ⟨id, -, hplanned⟩ := List.mem_filterMap.mp hp
      obtain ⟨hn, -, hop⟩ := mem_nodes_of_planned hplanned
      exact ⟨hn, hop⟩
    rw [List.forall₂_map_left_iff] at hbound
    have hstep : ∀ p ∈ b.act.positions, b.act.step? p.1 p.2.1 = some p.2.2 :=
      fun p hp => Act.mem_positions.mp hp
    exact ((List.forall₂_and_left _ _).mpr ⟨hstep, hbound⟩).imp
      fun p g hp => fed_of_bound hw h hp.1 hplan hp.2

end Blueprint

/-! ## A workspace with a plan -/

namespace Sample

/-- A topic is searched for, and what is found is written up: two connections
lead from the search to the text, and the topic feeds both. -/
def workspace : Workspace where
  id := ⟨"report"⟩
  nodes :=
    [⟨⟨"topic"⟩, "Topic", .variable .text, [], [⟨⟨"value"⟩, "Value"⟩]⟩,
      ⟨⟨"search"⟩, "Search", .operation .query, [⟨⟨"about"⟩, "About"⟩],
        [⟨⟨"found"⟩, "Found"⟩, ⟨⟨"sources"⟩, "Sources"⟩]⟩,
      ⟨⟨"write"⟩, "Write", .operation .textGeneration,
        [⟨⟨"subject"⟩, "Subject"⟩, ⟨⟨"facts"⟩, "Facts"⟩, ⟨⟨"links"⟩, "Links"⟩],
        [⟨⟨"text"⟩, "Text"⟩]⟩]
  connections :=
    [⟨⟨"about"⟩, ⟨"topic"⟩, ⟨"value"⟩, ⟨"search"⟩, ⟨"about"⟩⟩,
      ⟨⟨"facts"⟩, ⟨"search"⟩, ⟨"found"⟩, ⟨"write"⟩, ⟨"facts"⟩⟩,
      ⟨⟨"subject"⟩, ⟨"topic"⟩, ⟨"value"⟩, ⟨"write"⟩, ⟨"subject"⟩⟩,
      ⟨⟨"links"⟩, ⟨"search"⟩, ⟨"sources"⟩, ⟨"write"⟩, ⟨"links"⟩⟩]

/-- The plan of the whole workspace. -/
def blueprint : Blueprint :=
  (Blueprint.compile .numbered .epoch workspace ⟨"write"⟩).toOption.getD default

theorem workspace_valid : workspace.validate = .ok () := by rfl

theorem blueprint_eq :
    Blueprint.compile .numbered .epoch workspace ⟨"write"⟩ = .ok blueprint :=
  eq_ok_of_isOk (by decide +kernel)

end Sample

theorem sample_keeps_dependencies : Sample.workspace.validate = .ok () ∧
    Blueprint.compile .numbered .epoch Sample.workspace ⟨"write"⟩ = .ok Sample.blueprint ∧
    Blueprint.KeepsDependencies Sample.workspace ⟨"write"⟩ Sample.blueprint :=
  ⟨Sample.workspace_valid, Sample.blueprint_eq,
    Blueprint.compile_keeps_dependencies Sample.workspace_valid Sample.blueprint_eq⟩

end Workflow
