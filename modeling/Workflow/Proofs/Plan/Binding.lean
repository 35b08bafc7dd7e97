/-
Workflow.Proofs.Plan.Binding — how the blueprint of any slice binds its steps
to generations.

A layer lists identifiers. The nodes of a slice may share one, and then the
first of them counts: if it is a variable, the identifier yields no step.

* `forall₂_stepOf` — the steps of a layer are those of its identifiers that
  stand for an operation, in order.
* `Told` — what a generation knows of the step that it is bound to.
* `ofSlice_binds` — all of this for the blueprint of a slice. Nothing is
  asked of the slice but that it has a blueprint.
-/
import Mathlib.Algebra.Ring.Nat
import Workflow.Proofs.Id
import Workflow.Proofs.Plan.Blueprint
import Workflow.Proofs.Plan.ExactSlice

namespace Workflow

namespace Blueprint

/-- A step of an operation that nothing has been done for. -/
structure StepOf (n : Node) (step : Step) : Prop where
  node_eq : step.node = n.id
  name_eq : step.name = n.name
  kind_eq : n.kind = .operation step.operation
  status_eq : step.status = .queued

/-- A fresh generation that is bound to a step, and knows all that feeds it in
the slice. -/
structure Told (s : Slice) (origin : Origin) (now : Timestamp) (step : Step) (g : Generation) :
    Prop where
  id_eq : g.id = step.generation
  eq_new : g = Generation.new g.id g.context now
  node_eq : s.node? step.node = some g.context.node
  connections_eq : g.context.connections = s.connections.filter (·.target == step.node)
  /-- The sources are the nodes of the slice that these connections come
  from. -/
  sources_eq : g.context.sources =
    s.nodes.filter fun n => g.context.connections.any (·.source == n.id)
  origin_eq : g.context.origin = origin

/-- The blueprint of a slice, every step of which has its own generation. -/
structure Binds (s : Slice) (workspace : WorkspaceId) (start : NodeId) (now : Timestamp)
    (b : Blueprint) : Prop where
  /-- Each layer has a sequence, with a step for every identifier that stands
  for an operation. -/
  sequences : ∃ layers, s.layers = .ok layers ∧
    List.Forall₂ (fun layer q =>
      List.Forall₂ (fun id step => ∃ n, s.node? id = some n ∧ StepOf n step)
        (layer.filter (Slice.isOperation s.nodes)) q.steps) layers b.act.sequences
  /-- Steps and generations correspond in plan order, each generation bound
  to its step. -/
  generations : List.Forall₂ (fun p g => Told s ⟨b.act.id, workspace⟩ now p.2.2 g)
    b.act.positions b.generations
  workspace_eq : b.act.workspace = workspace
  startNode_eq : b.act.startNode = start
  steps_eq : b.act.steps = { StepCounts.zero with queued := UInt64.ofNat b.act.stepCount }
  stepCount_le : b.act.stepCount ≤ s.nodes.length
  /-- The counter is a machine word, and does not wrap around for a slice whose
  nodes can be counted by one. -/
  queued_toNat (h : s.nodes.length < 2 ^ 64) : b.act.steps.queued.toNat = b.act.stepCount

variable {ids : IdSource} {now : Timestamp} {s : Slice} {origin : Origin}

/-! ## Layers and sequences -/

/-- A node of a layer is planned just if it is an operation. -/
theorem isOperation_eq_isSome (s : Slice) (id : NodeId) :
    Slice.isOperation s.nodes id = (planned? s id).isSome := by
  cases hnode : nodeIn? s.nodes id with
  | none => simp [Slice.isOperation, planned?, Slice.node?, hnode]
  | some n =>
    cases hkind : n.kind <;>
      simp [Slice.isOperation, planned?, Slice.node?, hnode, Node.isOperation, hkind,
        NodeKind.isOperation, NodeKind.operation?]

/-- Of a layer, those identifiers yield a step that stand for an operation. -/
theorem forall₂_stepOf (count : Nat) (layer : List NodeId) :
    List.Forall₂ (fun id step => ∃ n, s.node? id = some n ∧ StepOf n step)
      (layer.filter (Slice.isOperation s.nodes))
      (stepsFrom ids count (layer.filterMap (planned? s))) := by
  induction layer generalizing count with
  | nil => exact .nil
  | cons id rest ih =>
    cases hplanned : planned? s id with
    | none =>
      -- no step is made, and the next one takes the same number
      rw [List.filterMap_cons_none hplanned,
        List.filter_cons_of_neg (by simp [isOperation_eq_isSome, hplanned])]
      exact ih count
    | some p =>
      obtain ⟨n, operation⟩ := p
      obtain ⟨hnode, hkind⟩ := planned?_eq_some_iff.mp hplanned
      rw [List.filterMap_cons_some hplanned,
        List.filter_cons_of_pos (by simp [isOperation_eq_isSome, hplanned])]
      exact .cons ⟨n, hnode, rfl, rfl, hkind, rfl⟩ (ih (count + 1))

/-- Each layer has its sequence, and each operation in it its step. -/
theorem forall₂_sequences (index count : Nat) (layers : List (List NodeId)) :
    List.Forall₂ (fun layer q =>
      List.Forall₂ (fun id step => ∃ n, s.node? id = some n ∧ StepOf n step)
        (layer.filter (Slice.isOperation s.nodes)) q.steps) layers
      (sequencesFrom ids index count (layers.map (·.filterMap (planned? s)))) := by
  induction layers generalizing index count with
  | nil => exact .nil
  | cons layer rest ih => exact .cons (forall₂_stepOf count layer) (ih (index + 1) _)

/-! ## Generations -/

/-- The identifiers of generations, from the first of a plan on. -/
theorem generationsFrom_ids (count : Nat) (plan : List (Node × Operation)) :
    (generationsFrom ids s origin now count plan).map (·.id) =
      (List.range' count plan.length).map (ids .generation) := by
  induction plan generalizing count with
  | nil => rfl
  | cons planned rest ih =>
    obtain ⟨node, operation⟩ := planned
    simp [generationsFrom, Generation.new, ih, List.range'_succ]

/-- A generation that is bound to a step was told what the slice knows of its
node. -/
theorem Bound.told {layers : List (List NodeId)} {step : Step} {g : Generation}
    (h : Bound s origin now (layers.map (·.filterMap (planned? s))).flatten step g) :
    Told s origin now step g := by
  obtain ⟨n, hmem, hnode, rfl⟩ := h
  obtain ⟨_, hl, hmem⟩ := List.mem_flatten.mp hmem
  obtain ⟨layer, -, rfl⟩ := List.mem_map.mp hl
  obtain ⟨id, -, hplanned⟩ := List.mem_filterMap.mp hmem
  -- other nodes may share the identifier, but this one was found by it
  have hfound : s.node? n.id = some n := by
    obtain ⟨-, hid, -⟩ := mem_nodes_of_planned hplanned
    rw [hid]
    exact (planned?_eq_some_iff.mp hplanned).1
  refine ⟨rfl, rfl, ?_, ?_, ?_, rfl⟩
  · rw [hnode]
    exact hfound
  · rw [hnode]
    rfl
  · refine List.filter_congr fun m _ => ?_
    rw [List.contains_eq_any_beq, List.any_map]
    exact congrArg (List.any _) (funext fun c => Bool.beq_comm)

/-- No more operations can be planned than there are nodes. -/
theorem length_plan_le {layers : List (List NodeId)} (h : s.layers = .ok layers) :
    (layers.map (·.filterMap (planned? s))).flatten.length ≤ s.nodes.length := by
  calc (layers.map (·.filterMap (planned? s))).flatten.length
    _ = (layers.flatten.filterMap (planned? s)).length := by rw [List.filterMap_flatten]
    _ ≤ layers.flatten.length := List.length_filterMap_le _ _
    _ = (Layers.vertices s).length := (Slice.layers_perm h).length_eq
    _ ≤ (s.operations.map (·.id)).length := (distinctBy_sublist id _).length_le
    _ ≤ s.nodes.length := by
      rw [List.length_map]
      exact List.length_filter_le _ _

theorem stepsFrom_length (count : Nat) (plan : List (Node × Operation)) :
    (stepsFrom ids count plan).length = plan.length := by
  have hnodes := congrArg List.length (@stepsFrom_nodes ids count plan)
  simpa using hnodes

/-! ## Blueprints of any slice -/

/-- The blueprint of a slice has a step for every operation that its layers
name, and a generation of its own for each of them. Nothing is asked of the
slice, not even that its identifiers are distinct; the generations' are if
no identifier is drawn twice. -/
theorem ofSlice_binds {workspace : WorkspaceId} {start : NodeId} {b : Blueprint}
    (h : ofSlice ids now workspace start s = .ok b) :
    Binds s workspace start now b ∧ (ids.Distinct → (b.generations.map (·.id)).Nodup) := by
  obtain ⟨layers, hlayers, hact, hgenerations⟩ := ofSlice_eq h
  -- the steps of all sequences are those of one plan, numbered through
  have hsteps : b.act.sequences.flatMap (·.steps) =
      stepsFrom ids 0 (layers.map (·.filterMap (planned? s))).flatten := by
    rw [hact]
    exact sequencesFrom_steps 0 0 _
  have hcount : b.act.stepCount ≤ s.nodes.length := by
    rw [Act.stepCount, hsteps, stepsFrom_length]
    exact length_plan_le hlayers
  -- steps and generations are made from that plan in pairs
  have hbound : List.Forall₂ (Told s ⟨b.act.id, workspace⟩ now) (b.act.positions.map (·.2.2))
      b.generations := by
    rw [Act.positions_map_step, hsteps, hgenerations, hact]
    exact (forall₂_bound 0 _).imp fun step g hg => hg.told
  constructor
  · constructor
    case sequences =>
      refine ⟨layers, hlayers, ?_⟩
      rw [hact]
      exact forall₂_sequences 0 0 layers
    case generations => exact List.forall₂_map_left_iff.mp hbound
    case workspace_eq => rw [hact, Act.new]
    case startNode_eq => rw [hact, Act.new]
    case steps_eq => rw [hact]; rfl
    case stepCount_le => exact hcount
    case queued_toNat =>
      intro hnodes
      have hqueued : b.act.steps.queued = UInt64.ofNat b.act.stepCount := by rw [hact]; rfl
      rw [hqueued]
      exact UInt64.toNat_ofNat_of_lt' (Nat.lt_of_le_of_lt hcount hnodes)
  · intro hids
    rw [hgenerations, generationsFrom_ids]
    exact hids.nodup .generation 0 _

/-- A topic and a search share an identifier, and the topic comes first. -/
def sampleSlice : Slice where
  nodes :=
    [⟨⟨"topic"⟩, "Topic", .variable .text, [], [⟨⟨"value"⟩, "Value"⟩]⟩,
      ⟨⟨"topic"⟩, "Search", .operation .query, [], [⟨⟨"found"⟩, "Found"⟩]⟩,
      ⟨⟨"write"⟩, "Write", .operation .textGeneration, [⟨⟨"facts"⟩, "Facts"⟩], []⟩]
  connections := [⟨⟨"facts"⟩, ⟨"topic"⟩, ⟨"found"⟩, ⟨"write"⟩, ⟨"facts"⟩⟩]

def sampleBlueprint : Blueprint :=
  (ofSlice .numbered .epoch ⟨"report"⟩ ⟨"write"⟩ sampleSlice).toOption.getD default

/-- The shared identifier has a layer, but no step. -/
theorem sample_ofSlice_binds :
    ofSlice .numbered .epoch ⟨"report"⟩ ⟨"write"⟩ sampleSlice = .ok sampleBlueprint ∧
    sampleSlice.layers = .ok [[⟨"topic"⟩], [⟨"write"⟩]] ∧
    sampleBlueprint.act.sequences.map (·.steps.map (·.name)) = [[], ["Write"]] ∧
    Binds sampleSlice ⟨"report"⟩ ⟨"write"⟩ .epoch sampleBlueprint ∧
    IdSource.numbered.Distinct ∧ (sampleBlueprint.generations.map (·.id)).Nodup := by
  have hok : ofSlice .numbered .epoch ⟨"report"⟩ ⟨"write"⟩ sampleSlice = .ok sampleBlueprint :=
    eq_ok_of_isOk (by decide +kernel)
  obtain ⟨hbinds, hnodup⟩ := ofSlice_binds hok
  exact ⟨hok, by decide +kernel, by decide +kernel, hbinds, IdSource.distinct_numbered,
    hnodup IdSource.distinct_numbered⟩

end Blueprint

end Workflow
