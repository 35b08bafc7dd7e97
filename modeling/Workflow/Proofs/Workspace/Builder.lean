/-
Workflow.Proofs.Workspace.Builder — what any sequence of calls on a builder
comes to.

* `Collected` — the workspace that calls put together, as long as every
  connection finds its ports.
* `FirstFailure` — the first connection that does not, and what its earlier
  side lacks.
* `build_exact` — the result is the first failure, or else the verdict of
  validation on what was collected. If all identifiers are drawn, it is a
  workspace whose connections lead to the first ports with the labels asked for.
-/
import Mathlib.Data.List.Forall2
import Workflow.Proofs.Id
import Workflow.Proofs.Workspace.Validation
import Workflow.Workspace.Builder

namespace Workflow

namespace Builder

/-! ## Calls -/

/-- A call on a builder. -/
inductive Call where
  | withId (id : WorkspaceId)
  | addNode (name : String) (kind : NodeKind) (inputs outputs : List String)
  | pushNode (node : Node)
  | connect (source : NodeId) (output : String) (target : NodeId) (input : String)
  | pushConnection (c : Connection)
deriving DecidableEq, Repr

namespace Call

/-- How many identifiers of a kind a call draws. -/
def draws : Call → Entity → Nat
  | .addNode .., .node => 1
  | .addNode _ _ inputs outputs, .port => inputs.length + outputs.length
  | .connect .., .connection => 1
  | _, _ => 0

def isConnect : Call → Bool
  | .connect .. => true
  | _ => false

/-- Whether a call brings its own identifiers for a node or a connection. -/
def isPush : Call → Bool
  | .pushNode _ | .pushConnection _ => true
  | _ => false

end Call

/-- How many identifiers of a kind a sequence of calls draws. -/
def drawn (e : Entity) : List Call → Nat
  | [] => 0
  | c :: rest => c.draws e + drawn e rest

/-- What a call makes of a builder. -/
def perform (b : Builder) : Call → Builder
  | .withId id => b.withId id
  | .addNode name kind inputs outputs => (b.addNode name kind inputs outputs).1
  | .pushNode node => b.pushNode node
  | .connect source output target input => (b.connect source output target input).1
  | .pushConnection c => b.pushConnection c

def performAll (b : Builder) (calls : List Call) : Builder := calls.foldl perform b

/-! ## What is collected -/

/-- The node was added last of those with the identifier. -/
def IsLast (nodes : List Node) (id : NodeId) (n : Node) : Prop :=
  ∃ before after, nodes = before ++ n :: after ∧ n.id = id ∧ ∀ m ∈ after, m.id ≠ id

/-- The port is the first one that carries the label. -/
def IsFirst (ports : List Port) (label : String) (p : Port) : Prop :=
  ∃ before after, ports = before ++ p :: after ∧ p.label = label ∧ ∀ q ∈ before, q.label ≠ label

/-- The port that one side of a connection asks for, on the side of the node
that `ports` names. -/
def Means (nodes : List Node) (ports : Node → List Port) (id : NodeId) (label : String)
    (p : Port) : Prop :=
  ∃ n, IsLast nodes id n ∧ IsFirst (ports n) label p

/-- Why there is no port of the kind that one side of a connection asks for. -/
inductive Lacks (nodes : List Node) (ports : Node → List Port) (id : NodeId) (label : String) :
    WorkspaceError → Prop
  | node (h : ∀ n ∈ nodes, n.id ≠ id) : Lacks nodes ports id label (.unknownBuilderNode id)
  | label {n : Node} (hn : IsLast nodes id n) (h : ∀ p ∈ ports n, p.label ≠ label) :
    Lacks nodes ports id label (.unknownPortLabel id label)

/-- A connection that cannot be made; its source is looked at first. -/
inductive Fails (nodes : List Node) : Call → WorkspaceError → Prop
  | source {source target : NodeId} {output input : String} {e : WorkspaceError}
    (h : Lacks nodes (·.outputs) source output e) :
    Fails nodes (.connect source output target input) e
  | target {source target : NodeId} {output input : String} {p : Port} {e : WorkspaceError}
    (hs : Means nodes (·.outputs) source output p) (h : Lacks nodes (·.inputs) target input e) :
    Fails nodes (.connect source output target input) e

/-- Ports with the given labels and fresh identifiers, from the `n`-th on. -/
def labelled (ids : IdSource) (n : Nat) (labels : List String) : List Port :=
  (labels.zipIdx n).map fun x => ⟨ids .port x.2, x.1⟩

/-- What a call adds to the workspace that the calls before it have
collected. -/
inductive Adds (ids : IdSource) (calls : List Call) (w : Workspace) : Call → Workspace → Prop
  | withId (id : WorkspaceId) : Adds ids calls w (.withId id) { w with id }
  | addNode (name : String) (kind : NodeKind) (inputs outputs : List String) :
    Adds ids calls w (.addNode name kind inputs outputs)
      { w with nodes := w.nodes ++
          [{ id := ids .node (drawn .node calls), name, kind
             inputs := labelled ids (drawn .port calls) inputs
             outputs := labelled ids (drawn .port calls + inputs.length) outputs }] }
  | pushNode (node : Node) : Adds ids calls w (.pushNode node) { w with nodes := w.nodes ++ [node] }
  | connect {source target : NodeId} {output input : String} {p q : Port}
    (hs : Means w.nodes (·.outputs) source output p)
    (ht : Means w.nodes (·.inputs) target input q) :
    Adds ids calls w (.connect source output target input)
      { w with connections := w.connections ++
          [⟨ids .connection (drawn .connection calls), source, p.id, target, q.id⟩] }
  | pushConnection (c : Connection) :
    Adds ids calls w (.pushConnection c) { w with connections := w.connections ++ [c] }

/-- The workspace that calls have collected, none of them having failed. -/
inductive Collected (ids : IdSource) : List Call → Workspace → Prop
  | empty : Collected ids [] ⟨ids .workspace 0, [], []⟩
  | concat {calls : List Call} {w w' : Workspace} {c : Call} (h : Collected ids calls w)
    (hc : Adds ids calls w c w') : Collected ids (calls ++ [c]) w'

/-- The first failure of a sequence of calls: everything before it went
well. -/
inductive FirstFailure (ids : IdSource) (calls : List Call) (e : WorkspaceError) : Prop
  | intro {before after : List Call} {c : Call} {w : Workspace}
    (hcalls : calls = before ++ c :: after) (hw : Collected ids before w)
    (hc : Fails w.nodes c e)

/-- What building answers after a sequence of calls. -/
inductive Outcome (ids : IdSource) (calls : List Call) : Except WorkspaceError Workspace → Prop
  | failure {e : WorkspaceError} (h : FirstFailure ids calls e) : Outcome ids calls (.error e)
  | violation {w : Workspace} {e : WorkspaceError} (hw : Collected ids calls w)
    (he : w.validate = .error e) : Outcome ids calls (.error e)
  | workspace {w : Workspace} (hw : Collected ids calls w) (hok : w.validate = .ok ()) :
    Outcome ids calls (.ok w)

/-! ## Looking for ports -/

/-- Looking from the end finds the node that was added last. -/
theorem nodeIn?_reverse_eq_some_iff {nodes : List Node} {id : NodeId} {n : Node} :
    nodeIn? nodes.reverse id = some n ↔ IsLast nodes id n := by
  rw [nodeIn?, List.find?_eq_some_iff_append]
  constructor
  · rintro ⟨hid, after, before, heq, hafter⟩
    refine ⟨before.reverse, after.reverse, ?_, by simpa using hid, by simpa using hafter⟩
    rw [← List.reverse_reverse nodes, heq]
    simp
  · rintro ⟨before, after, rfl, hid, hafter⟩
    refine ⟨by simpa using hid, after.reverse, before.reverse, by simp, by simpa using hafter⟩

/-- Looking for a label finds the first port that carries it. -/
theorem find?_label_eq_some_iff {ports : List Port} {label : String} {p : Port} :
    ports.find? (·.label == label) = some p ↔ IsFirst ports label p := by
  rw [List.find?_eq_some_iff_append]
  constructor
  · rintro ⟨hlabel, before, after, heq, hbefore⟩
    exact ⟨before, after, heq, by simpa using hlabel, by simpa using hbefore⟩
  · rintro ⟨before, after, heq, hlabel, hbefore⟩
    exact ⟨by simpa using hlabel, before, after, heq, by simpa using hbefore⟩

section

variable {b : Builder} {ports : Node → List Port} {id : NodeId} {label : String}

theorem resolve_of_means {p : Port} (h : Means b.nodes ports id label p) :
    b.resolve ports id label = .ok p.id := by
  obtain ⟨n, hn, hp⟩ := h
  have hnode : b.node? id = some n := nodeIn?_reverse_eq_some_iff.mpr hn
  simp [resolve, hnode, find?_label_eq_some_iff.mpr hp]

/-- A side that lacks its node or its port is refused, for this reason. -/
theorem resolve_of_lacks {e : WorkspaceError} (h : Lacks b.nodes ports id label e) :
    b.resolve ports id label = .error e := by
  cases h with
  | node h =>
    have hnode : b.node? id = none := by simpa [node?, nodeIn?] using h
    simp [resolve, hnode]
  | @label n hn h =>
    have hnode : b.node? id = some n := nodeIn?_reverse_eq_some_iff.mpr hn
    have hport : (ports n).find? (·.label == label) = none := by simpa using h
    simp [resolve, hnode, hport]

/-- There is no third case. -/
theorem means_or_lacks (nodes : List Node) (ports : Node → List Port) (id : NodeId)
    (label : String) :
    (∃ p, Means nodes ports id label p) ∨ ∃ e, Lacks nodes ports id label e := by
  cases hnode : nodeIn? nodes.reverse id with
  | none => exact Or.inr ⟨_, .node (by simpa [nodeIn?] using hnode)⟩
  | some n =>
    have hn := nodeIn?_reverse_eq_some_iff.mp hnode
    cases hport : (ports n).find? (·.label == label) with
    | none => exact Or.inr ⟨_, .label hn (by simpa using hport)⟩
    | some p => exact Or.inl ⟨p, n, hn, find?_label_eq_some_iff.mp hport⟩

end

/-! ## Calls and results

After any calls a builder holds what was collected, or the first fault of a
connection is on its list. -/

theorem drawn_concat (e : Entity) (calls : List Call) (c : Call) :
    drawn e (calls ++ [c]) = drawn e calls + c.draws e := by
  induction calls with
  | nil => simp [drawn]
  | cons d rest ih => simp [drawn, ih, Nat.add_assoc]

theorem freshPorts_eq (ids : IdSource) (n : Nat) (labels : List String) :
    freshPorts ids n labels = labelled ids n labels := by
  induction labels generalizing n with
  | nil => rfl
  | cons label rest ih => simp [freshPorts, labelled, ih (n + 1)]

/-- The builder that stands behind what calls have collected. -/
def collecting (ids : IdSource) (calls : List Call) (w : Workspace) : Builder where
  ids := ids
  id := w.id
  nodes := w.nodes
  connections := w.connections
  errors := []
  nodesDrawn := drawn .node calls
  portsDrawn := drawn .port calls
  connectionsDrawn := drawn .connection calls

section

variable {ids : IdSource} {calls : List Call} {w : Workspace} {e : WorkspaceError}

/-- A call that adds to the workspace leads from the builder of what was
collected to that of what is collected with it. -/
theorem Adds.perform {c : Call} {w' : Workspace} (h : Adds ids calls w c w') :
    (collecting ids calls w).perform c = collecting ids (calls ++ [c]) w' := by
  cases h with
  | withId id => simp [Builder.perform, collecting, Builder.withId, drawn_concat, Call.draws]
  | addNode name kind inputs outputs =>
    simp [Builder.perform, collecting, Builder.addNode, Builder.pushNode, freshPorts_eq,
      drawn_concat, Call.draws, Nat.add_assoc]
  | pushNode node => simp [Builder.perform, collecting, Builder.pushNode, drawn_concat, Call.draws]
  | @connect source target output input p q hs ht =>
    have hs' : (collecting ids calls w).resolve (·.outputs) source output = .ok p.id :=
      resolve_of_means hs
    have ht' : (collecting ids calls w).resolve (·.inputs) target input = .ok q.id :=
      resolve_of_means ht
    simp only [Builder.perform, Builder.connect, hs', ht']
    simp [collecting, drawn_concat, Call.draws]
  | pushConnection c =>
    simp [Builder.perform, collecting, Builder.pushConnection, drawn_concat, Call.draws]

theorem performAll_append (b : Builder) (as bs : List Call) :
    b.performAll (as ++ bs) = (b.performAll as).performAll bs :=
  List.foldl_append

/-- Without a failure, a builder holds just what was collected. -/
theorem Collected.performAll (h : Collected ids calls w) :
    (new ids).performAll calls = collecting ids calls w := by
  induction h with
  | empty => rfl
  | concat h hc ih => rw [performAll_append, ih, ← hc.perform]; rfl

/-- A connection that cannot be made leaves its error. -/
theorem head?_errors_of_fails {b : Builder} {c : Call} (h : Fails b.nodes c e)
    (hb : b.errors = []) : (b.perform c).errors.head? = some e := by
  cases h with
  | @source source target output input e hs =>
    have hs' := resolve_of_lacks hs
    cases ht : b.resolve (·.inputs) target input <;>
      simp [Builder.perform, Builder.connect, hs', ht, hb]
  | target hs ht =>
    have hs' := resolve_of_means hs
    have ht' := resolve_of_lacks ht
    simp [Builder.perform, Builder.connect, hs', ht', hb]

/-- Once there is a failure, it stays the first one. -/
theorem head?_errors_perform {b : Builder} (h : b.errors.head? = some e) (c : Call) :
    (b.perform c).errors.head? = some e := by
  cases c with
  | connect source output target input =>
    cases hs : b.resolve (·.outputs) source output <;>
      cases ht : b.resolve (·.inputs) target input <;>
      simp [Builder.perform, Builder.connect, hs, ht, h]
  | _ => exact h

theorem head?_errors_performAll {b : Builder} (h : b.errors.head? = some e) (calls : List Call) :
    (b.performAll calls).errors.head? = some e := by
  induction calls generalizing b with
  | nil => exact h
  | cons c rest ih => exact ih (head?_errors_perform h c)

theorem build_of_head? {b : Builder} (h : b.errors.head? = some e) : b.build = .error e := by
  obtain ⟨rest, herrors⟩ := List.head?_eq_some_iff.mp h
  simp [build, herrors]

theorem build_of_failure (h : FirstFailure ids calls e) :
    ((new ids).performAll calls).build = .error e := by
  obtain ⟨rfl, hw, hc⟩ := h
  rename_i before after c w
  have hfirst : (((new ids).performAll before).perform c).errors.head? = some e := by
    rw [hw.performAll]
    exact head?_errors_of_fails hc rfl
  -- later calls can only add errors behind this one
  have hlast : (((new ids).performAll before).performAll (c :: after)).errors.head? = some e :=
    head?_errors_performAll hfirst after
  rw [performAll_append]
  exact build_of_head? hlast

theorem build_of_collected (h : Collected ids calls w) :
    ((new ids).performAll calls).build = do w.validate; return w := by
  rw [h.performAll]
  rfl

/-- Building answers with the outcome of the calls. -/
theorem Outcome.build {r : Except WorkspaceError Workspace} (h : Outcome ids calls r) :
    ((new ids).performAll calls).build = r := by
  cases h with
  | failure h => exact build_of_failure h
  | violation hw he =>
    rw [build_of_collected hw, he]
    rfl
  | workspace hw hok =>
    rw [build_of_collected hw, hok]
    rfl

/-- Every call adds something to the workspace or fails. -/
theorem adds_or_fails (ids : IdSource) (calls : List Call) (w : Workspace) (c : Call) :
    (∃ w', Adds ids calls w c w') ∨ ∃ e, Fails w.nodes c e := by
  cases c with
  | withId id => exact Or.inl ⟨_, .withId id⟩
  | addNode name kind inputs outputs => exact Or.inl ⟨_, .addNode name kind inputs outputs⟩
  | pushNode node => exact Or.inl ⟨_, .pushNode node⟩
  | pushConnection c => exact Or.inl ⟨_, .pushConnection c⟩
  | connect source output target input =>
    rcases means_or_lacks w.nodes (·.outputs) source output with ⟨p, hs⟩ | ⟨e, hs⟩
    · rcases means_or_lacks w.nodes (·.inputs) target input with ⟨q, ht⟩ | ⟨e, ht⟩
      · exact Or.inl ⟨_, .connect hs ht⟩
      · exact Or.inr ⟨e, .target hs ht⟩
    · exact Or.inr ⟨e, .source hs⟩

/-- Calls either go well up to the end or come to a first failure. -/
theorem collected_or_failure (ids : IdSource) (calls : List Call) :
    (∃ w, Collected ids calls w) ∨ ∃ e, FirstFailure ids calls e := by
  have h := clean_or_first (fun calls => ∃ w, Collected ids calls w)
    (fun calls c => ∃ w e, Collected ids calls w ∧ Fails w.nodes c e) ⟨_, .empty⟩
    (fun calls c hcalls => by
      obtain ⟨w, hw⟩ := hcalls
      rcases adds_or_fails ids calls w c with ⟨w', hc⟩ | ⟨e, hc⟩
      · exact Or.inl ⟨w', .concat hw hc⟩
      · exact Or.inr ⟨w, e, hw, hc⟩)
    calls
  rcases h with hcollected | ⟨before, c, after, hcalls, -, w, e, hw, hc⟩
  · exact Or.inl hcollected
  · exact Or.inr ⟨e, .intro hcalls hw hc⟩

/-- Calls have an outcome. -/
theorem exists_outcome (ids : IdSource) (calls : List Call) : ∃ r, Outcome ids calls r := by
  rcases collected_or_failure ids calls with ⟨w, hw⟩ | ⟨e, he⟩
  · cases hvalid : w.validate with
    | ok => exact ⟨_, .workspace hw hvalid⟩
    | error e => exact ⟨_, .violation hw hvalid⟩
  · exact ⟨_, .failure he⟩

theorem build_eq_iff {r : Except WorkspaceError Workspace} :
    ((new ids).performAll calls).build = r ↔ Outcome ids calls r := by
  constructor
  · rintro rfl
    obtain ⟨r, hr⟩ := exists_outcome ids calls
    rwa [hr.build]
  · exact Outcome.build

end

/-! ## Drawn identifiers -/

/-- The end of a connection is the first port with a label. -/
def Ends (nodes : List Node) (ports : Node → List Port) (id : NodeId) (label : String)
    (port : PortId) : Prop :=
  ∃ n p, nodeIn? nodes id = some n ∧ IsFirst (ports n) label p ∧
    (ports n).find? (·.id == port) = some p

/-- The connection that a call asked for. -/
inductive Joins (nodes : List Node) : Call → Connection → Prop
  | intro {source target : NodeId} {output input : String} {c : Connection}
    (hsource : c.source = source) (htarget : c.target = target)
    (hs : Ends nodes (·.outputs) source output c.sourcePort)
    (ht : Ends nodes (·.inputs) target input c.targetPort) :
    Joins nodes (.connect source output target input) c

/-- What has been collected under drawn identifiers only. -/
structure Drawn (ids : IdSource) (calls : List Call) (w : Workspace) : Prop where
  /-- Identifiers are drawn in the order of the calls, and none is left
  out. -/
  nodes_eq : w.nodes.map (·.id) = (List.range' 0 (drawn .node calls)).map (ids .node)
  connections_eq : w.connections.map (·.id) =
    (List.range' 0 (drawn .connection calls)).map (ids .connection)
  inputs_nodup : ∀ n ∈ w.nodes, (n.inputs.map (·.id)).Nodup
  outputs_nodup : ∀ n ∈ w.nodes, (n.outputs.map (·.id)).Nodup
  /-- Each connection is one that the call asked for, by the first port of
  that label. -/
  joins : List.Forall₂ (Joins w.nodes) (calls.filter (·.isConnect)) w.connections

section

variable {ids : IdSource} {calls : List Call} {w : Workspace}
  {nodes : List Node} {ports : Node → List Port} {id : NodeId} {label : String}

/-- The first port with a label is one of the ports. -/
theorem IsFirst.mem {ports : List Port} {p : Port} (h : IsFirst ports label p) : p ∈ ports := by
  obtain ⟨before, after, rfl, -, -⟩ := h
  simp

/-- Where identifiers do not repeat, the last node is the only one, and the
port is found by its identifier. -/
theorem Means.ends (hnodup : (nodes.map (·.id)).Nodup)
    (hports : ∀ n ∈ nodes, ((ports n).map (·.id)).Nodup) {p : Port}
    (h : Means nodes ports id label p) : Ends nodes ports id label p.id := by
  obtain ⟨n, ⟨before, after, hnodes, rfl, -⟩, hp⟩ := h
  have hn : n ∈ nodes := by simp [hnodes]
  exact ⟨n, p, Workspace.nodeIn?_eq_of_mem hnodup hn, hp, find?_of_nodup (hports n hn) hp.mem⟩

/-- Nodes that are added later do not change where a connection ends. -/
theorem Ends.append {port : PortId} (h : Ends nodes ports id label port) (more : List Node) :
    Ends (nodes ++ more) ports id label port := by
  obtain ⟨n, p, hn, hp, hport⟩ := h
  have hn' : nodeIn? (nodes ++ more) id = some n := by
    rw [nodeIn?, List.find?_append]
    simp [show nodes.find? (·.id == id) = some n from hn]
  exact ⟨n, p, hn', hp, hport⟩

theorem Joins.append {c : Call} {d : Connection} (h : Joins nodes c d) (more : List Node) :
    Joins (nodes ++ more) c d := by
  cases h with
  | intro hsource htarget hs ht => exact .intro hsource htarget (hs.append more) (ht.append more)

/-- A connection ends at a port that its node owns. -/
theorem Ends.hasPort {port : PortId} (h : Ends nodes ports id label port) :
    Workspace.HasPort nodes ports id port := by
  obtain ⟨n, p, hn, -, hp⟩ := h
  have hid : n.id = id := by simpa using List.find?_some hn
  have hport : p.id = port := by simpa using List.find?_some hp
  exact ⟨n, List.mem_of_find?_eq_some hn, hid, p, List.mem_of_find?_eq_some hp, hport⟩

/-- Fresh ports have different identifiers. -/
theorem nodup_labelled (hids : ids.Distinct) (n : Nat) (labels : List String) :
    ((labelled ids n labels).map (·.id)).Nodup := by
  have hmap : (labelled ids n labels).map (·.id) =
      (List.range' n labels.length).map (ids .port) := by
    rw [← List.zipIdx_map_snd n labels, labelled, List.map_map, List.map_map]
    rfl
  rw [hmap]
  exact hids.nodup .port n labels.length

/-- One more call that draws its identifiers keeps them distinct. -/
theorem Drawn.concat (hids : ids.Distinct) (h : Drawn ids calls w) {c : Call} {w' : Workspace}
    (hpush : c.isPush = false) (hc : Adds ids calls w c w') : Drawn ids (calls ++ [c]) w' := by
  obtain ⟨hnodes, hconnections, hinputs, houtputs, hjoins⟩ := h
  cases hc with
  | withId id =>
    constructor
    case joins => simpa [Call.isConnect] using hjoins
    all_goals simpa [drawn_concat, Call.draws]
  | addNode name kind inputs outputs =>
    -- a look-up takes the first node, so what was found before is still found
    have hjoins' := hjoins.imp fun c d hcd => hcd.append
      [⟨ids .node (drawn .node calls), name, kind,
        labelled ids (drawn .port calls) inputs,
        labelled ids (drawn .port calls + inputs.length) outputs⟩]
    constructor
    case nodes_eq => simp [hnodes, drawn_concat, Call.draws, List.range'_concat]
    case connections_eq => simpa [drawn_concat, Call.draws] using hconnections
    case inputs_nodup =>
      simpa [or_imp, forall_and] using ⟨hinputs, nodup_labelled hids _ inputs⟩
    case outputs_nodup =>
      simpa [or_imp, forall_and] using ⟨houtputs, nodup_labelled hids _ outputs⟩
    case joins => simpa [Call.isConnect] using hjoins'
  | @connect source target output input p q hs ht =>
    have hnodup : (w.nodes.map (·.id)).Nodup := by
      rw [hnodes]
      exact hids.nodup .node 0 _
    -- drawn identifiers do not repeat: the last node is also the first one
    have hjoin : Joins w.nodes (.connect source output target input)
        ⟨ids .connection (drawn .connection calls), source, p.id, target, q.id⟩ :=
      .intro rfl rfl (hs.ends hnodup houtputs) (ht.ends hnodup hinputs)
    constructor
    case nodes_eq => simpa [drawn_concat, Call.draws] using hnodes
    case connections_eq => simp [hconnections, drawn_concat, Call.draws, List.range'_concat]
    case inputs_nodup => exact hinputs
    case outputs_nodup => exact houtputs
    case joins => simpa [Call.isConnect] using List.rel_append hjoins (.cons hjoin .nil)
  | pushNode => simp [Call.isPush] at hpush
  | pushConnection => simp [Call.isPush] at hpush

theorem Collected.drawn (hids : ids.Distinct) (h : Collected ids calls w)
    (hpush : ∀ c ∈ calls, c.isPush = false) : Drawn ids calls w := by
  induction h with
  | empty => exact ⟨rfl, rfl, by simp, by simp, .nil⟩
  | concat h hc ih =>
    rw [List.forall_mem_append] at hpush
    exact (ih hpush.1).concat hids (hpush.2 _ List.mem_cons_self) hc

/-- Every connection was asked for. -/
theorem exists_call_of_mem {calls : List Call} {connections : List Connection}
    (h : List.Forall₂ (Joins nodes) calls connections) {d : Connection} (hd : d ∈ connections) :
    ∃ c, Joins nodes c d := by
  induction h with
  | nil => exact absurd hd List.not_mem_nil
  | cons hcd _ ih =>
    rcases List.mem_cons.mp hd with rfl | hd
    · exact ⟨_, hcd⟩
    · exact ih hd

/-- What is collected under drawn identifiers keeps all rules. -/
theorem Drawn.valid (hids : ids.Distinct) (h : Drawn ids calls w) : w.Valid where
  nodes_nodup := by
    rw [h.nodes_eq]
    exact hids.nodup .node 0 _
  connections_nodup := by
    rw [h.connections_eq]
    exact hids.nodup .connection 0 _
  output := by
    intro d hd
    obtain ⟨c, hsource, -, hs, -⟩ := exists_call_of_mem h.joins hd
    rw [hsource]
    exact hs.hasPort
  input := by
    intro d hd
    obtain ⟨c, -, htarget, -, ht⟩ := exists_call_of_mem h.joins hd
    rw [htarget]
    exact ht.hasPort

/-- What building answers is the outcome of the calls. Where all identifiers
are drawn and every connection finds its ports, it is a workspace that has the
connections asked for. -/
theorem build_exact (ids : IdSource) (calls : List Call) :
    (∀ r, ((new ids).performAll calls).build = r ↔ Outcome ids calls r) ∧
      (ids.Distinct → (∀ c ∈ calls, c.isPush = false) → (∀ e, ¬ FirstFailure ids calls e) →
        ∃ w, ((new ids).performAll calls).build = .ok w ∧
          List.Forall₂ (Joins w.nodes) (calls.filter (·.isConnect)) w.connections) := by
  constructor
  · intro r
    exact build_eq_iff
  · intro hids hpush hnone
    rcases collected_or_failure ids calls with ⟨w, hw⟩ | ⟨e, he⟩
    · have hdrawn := hw.drawn hids hpush
      have hvalid : w.validate = .ok () := Workspace.validate_of_valid (hdrawn.valid hids)
      exact ⟨w, build_eq_iff.mpr (.workspace hw hvalid), hdrawn.joins⟩
    · exact absurd he (hnone e)

/-- Two results under one label; the first of them is written. -/
def sampleCalls : List Call :=
  [.addNode "Search" (.operation .query) [] ["result", "result"],
    .addNode "Write" (.operation .action) ["source"] [],
    .connect ⟨"nd-1"⟩ "result" ⟨"nd-2"⟩ "source"]

def sampleWorkspace : Workspace where
  id := ⟨"wrks-1"⟩
  nodes :=
    [⟨⟨"nd-1"⟩, "Search", .operation .query, [], [⟨⟨"prt-1"⟩, "result"⟩, ⟨⟨"prt-2"⟩, "result"⟩]⟩,
      ⟨⟨"nd-2"⟩, "Write", .operation .action, [⟨⟨"prt-3"⟩, "source"⟩], []⟩]
  connections := [⟨⟨"cnnc-1"⟩, ⟨"nd-1"⟩, ⟨"prt-1"⟩, ⟨"nd-2"⟩, ⟨"prt-3"⟩⟩]

theorem sample_build_exact : IdSource.numbered.Distinct ∧
    (∀ c ∈ sampleCalls, c.isPush = false) ∧ (∀ e, ¬ FirstFailure .numbered sampleCalls e) ∧
    ((new .numbered).performAll sampleCalls).build = .ok sampleWorkspace ∧
    List.Forall₂ (Joins sampleWorkspace.nodes) (sampleCalls.filter (·.isConnect))
      sampleWorkspace.connections := by
  have hpush : ∀ c ∈ sampleCalls, c.isPush = false := by decide
  have hbuild : ((new .numbered).performAll sampleCalls).build = .ok sampleWorkspace := by rfl
  have hnone : ∀ e, ¬ FirstFailure .numbered sampleCalls e := by
    intro e he
    rw [build_of_failure he] at hbuild
    cases hbuild
  obtain ⟨w, hw, hjoins⟩ :=
    (build_exact .numbered sampleCalls).2 IdSource.distinct_numbered hpush hnone
  obtain rfl : w = sampleWorkspace := Except.ok.inj (hw.symm.trans hbuild)
  exact ⟨IdSource.distinct_numbered, hpush, hnone, hbuild, hjoins⟩

end

end Builder

end Workflow
