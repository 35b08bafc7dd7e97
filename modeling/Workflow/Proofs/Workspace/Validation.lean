/-
Workflow.Proofs.Workspace.Validation — validation finds the first violation
of a workspace, and nothing but violations.

* `Valid` — no node or connection identifier repeats, and every connection
  leads from an output port to an input port of nodes that exist.
* `FirstViolation` — the first broken rule on the way through the nodes and
  then the connections. Everything in front of it keeps the rules.
* `validate_exact` — a workspace is accepted just if it is valid, and refused
  with just its first violation.
-/
import Mathlib.Data.List.Induction
import Workflow.Workspace.Validation

namespace Workflow

/-- If a list can go wrong only where it goes on, either nothing is wrong with
it or there is a first element with which it went wrong. -/
theorem clean_or_first {α : Type} (clean : List α → Prop) (breaks : List α → α → Prop)
    (hnil : clean []) (hstep : ∀ as a, clean as → clean (as ++ [a]) ∨ breaks as a) (as : List α) :
    clean as ∨ ∃ before a after, as = before ++ a :: after ∧ clean before ∧ breaks before a := by
  induction as using List.reverseRecOn with
  | nil => exact Or.inl hnil
  | append_singleton as a ih =>
    rcases ih with hclean | ⟨before, b, after, rfl, hbefore, hb⟩
    · rcases hstep as a hclean with hclean' | ha
      · exact Or.inl hclean'
      · exact Or.inr ⟨as, a, [], rfl, hclean, ha⟩
    · exact Or.inr ⟨before, b, after ++ [a], by simp, hbefore, hb⟩

/-- One more element keeps keys distinct just if its own is new. -/
theorem nodup_map_concat {α β : Type} {key : α → β} {as : List α} {a : α} :
    ((as ++ [a]).map key).Nodup ↔ (as.map key).Nodup ∧ key a ∉ as.map key := by
  rw [List.map_append, List.map_singleton, List.nodup_append]
  constructor
  · rintro ⟨has, -, hnew⟩
    exact ⟨has, fun hmem => hnew _ hmem _ List.mem_cons_self rfl⟩
  · rintro ⟨has, hnew⟩
    refine ⟨has, by simp, ?_⟩
    rintro b hb c hc rfl
    rw [List.mem_singleton.mp hc] at hb
    exact hnew hb

/-- Where keys do not repeat, an element is found by its key. -/
theorem find?_of_nodup {α β : Type} [DecidableEq β] {key : α → β} {as : List α}
    (hnodup : (as.map key).Nodup) {a : α} (ha : a ∈ as) :
    as.find? (key · == key a) = some a := by
  induction as with
  | nil => exact absurd ha List.not_mem_nil
  | cons b rest ih =>
    simp only [List.map_cons, List.nodup_cons, List.mem_map, not_exists, not_and] at hnodup
    rcases List.mem_cons.mp ha with rfl | ha
    · simp
    · have hne : ¬ key b = key a := fun he => hnodup.1 a ha he.symm
      simp [hne, ih hnodup.2 ha]

namespace Workspace

/-! ## Rules -/

/-- The rules of a workspace that concern its graph. -/
structure WellFormed (w : Workspace) : Prop where
  nodes_nodup : (w.nodes.map (·.id)).Nodup
  connections_nodup : (w.connections.map (·.id)).Nodup
  source_isSome : ∀ c ∈ w.connections, (nodeIn? w.nodes c.source).isSome
  target_isSome : ∀ c ∈ w.connections, (nodeIn? w.nodes c.target).isSome

/-- A node with the identifier exists. -/
def HasNode (nodes : List Node) (id : NodeId) : Prop := ∃ n ∈ nodes, n.id = id

/-- A node with the identifier owns the port, on the side that `ports`
names. -/
def HasPort (nodes : List Node) (ports : Node → List Port) (id : NodeId) (port : PortId) : Prop :=
  ∃ n ∈ nodes, n.id = id ∧ ∃ p ∈ ports n, p.id = port

/-- A workspace that keeps all rules. -/
structure Valid (w : Workspace) : Prop where
  nodes_nodup : (w.nodes.map (·.id)).Nodup
  connections_nodup : (w.connections.map (·.id)).Nodup
  /-- A connection comes from an output of its source node. -/
  output : ∀ c ∈ w.connections, HasPort w.nodes (·.outputs) c.source c.sourcePort
  /-- It leads to an input of its target node. -/
  input : ∀ c ∈ w.connections, HasPort w.nodes (·.inputs) c.target c.targetPort

/-- The first rule that a connection breaks; `seen` are the identifiers of the
connections in front of it. -/
inductive Breach (nodes : List Node) (seen : List ConnectionId) (c : Connection) :
    WorkspaceError → Prop
  | repeated (hid : c.id ∈ seen) : Breach nodes seen c (.duplicateConnection c.id)
  | source (hid : c.id ∉ seen) (hs : ¬ HasNode nodes c.source) :
    Breach nodes seen c (.danglingConnection c.id c.source)
  | target (hid : c.id ∉ seen) (hs : HasNode nodes c.source) (ht : ¬ HasNode nodes c.target) :
    Breach nodes seen c (.danglingConnection c.id c.target)
  | output (hid : c.id ∉ seen) (hs : HasNode nodes c.source) (ht : HasNode nodes c.target)
    (ho : ¬ HasPort nodes (·.outputs) c.source c.sourcePort) :
    Breach nodes seen c (.unknownOutputPort c.id c.source c.sourcePort)
  | input (hid : c.id ∉ seen) (ho : HasPort nodes (·.outputs) c.source c.sourcePort)
    (ht : HasNode nodes c.target) (hi : ¬ HasPort nodes (·.inputs) c.target c.targetPort) :
    Breach nodes seen c (.unknownInputPort c.id c.target c.targetPort)

/-- The first violation on the way through a workspace: nodes come before
connections, and all that stands before the place of the violation is in
order. -/
inductive FirstViolation (w : Workspace) : WorkspaceError → Prop
  /-- An identifier at its second occurrence. -/
  | node {before after : List Node} {n : Node} (hw : w.nodes = before ++ n :: after)
    (hbefore : (before.map (·.id)).Nodup) (hn : n.id ∈ before.map (·.id)) :
    FirstViolation w (.duplicateNode n.id)
  | connection {before after : List Connection} {c : Connection} {e : WorkspaceError}
    (hw : w.connections = before ++ c :: after)
    (hbefore : Valid { w with connections := before })
    (hc : Breach w.nodes (before.map (·.id)) c e) : FirstViolation w e

/-! ## Repeated identifiers -/

/-- No repetition is found just if there is none, among the elements or with
those seen before. -/
theorem firstRepeat_eq_none {α : Type} [DecidableEq α] {as seen : List α} :
    firstRepeat seen as = none ↔ as.Nodup ∧ ∀ a ∈ as, a ∉ seen := by
  induction as generalizing seen with
  | nil => simp [firstRepeat]
  | cons a rest ih =>
    unfold firstRepeat
    split
    · rename_i hseen
      simp [hseen]
    · rename_i hseen
      rw [ih]
      simp only [List.nodup_cons, List.mem_cons, not_or, forall_eq_or_imp]
      constructor
      · rintro ⟨hrest, hnot⟩
        exact ⟨⟨fun ha => (hnot a ha).1 rfl, hrest⟩, hseen, fun b hb => (hnot b hb).2⟩
      · rintro ⟨⟨ha, hrest⟩, -, hnot⟩
        exact ⟨hrest, fun b hb => ⟨fun hba => ha (hba ▸ hb), hnot b hb⟩⟩

/-- Elements that do not repeat are seen by those after them. -/
theorem firstRepeat_append {α : Type} [DecidableEq α] {as bs seen : List α}
    (h : firstRepeat seen as = none) :
    firstRepeat seen (as ++ bs) = firstRepeat (as.reverse ++ seen) bs := by
  induction as generalizing seen with
  | nil => rfl
  | cons a rest ih =>
    have ha : a ∉ seen := (firstRepeat_eq_none.mp h).2 a List.mem_cons_self
    simp only [firstRepeat, if_neg ha] at h
    simp [firstRepeat, ha, ih h]

theorem checkNodes_of_nodup {nodes : List Node} (h : (nodes.map (·.id)).Nodup) :
    checkNodes nodes = .ok () := by
  have hnone : firstRepeat [] (nodes.map (·.id)) = none :=
    firstRepeat_eq_none.mpr ⟨h, by simp⟩
  simp [checkNodes, hnone]

/-- The second occurrence of an identifier is the fault that is found, whatever
comes after it. -/
theorem checkNodes_of_repeat {before after : List Node} {n : Node}
    (hbefore : (before.map (·.id)).Nodup) (hn : n.id ∈ before.map (·.id)) :
    checkNodes (before ++ n :: after) = .error (.duplicateNode n.id) := by
  have hnone : firstRepeat [] (before.map (·.id)) = none :=
    firstRepeat_eq_none.mpr ⟨hbefore, by simp⟩
  have hfirst : firstRepeat [] ((before ++ n :: after).map (·.id)) = some n.id := by
    rw [List.map_append, firstRepeat_append hnone, List.map_cons, firstRepeat]
    exact if_pos (by simpa using hn)
  simp only [checkNodes, hfirst]

/-! ## Look-ups -/

theorem nodeIn?_eq_of_mem {nodes : List Node} (hnodup : (nodes.map (·.id)).Nodup) {n : Node}
    (hn : n ∈ nodes) : nodeIn? nodes n.id = some n :=
  find?_of_nodup hnodup hn

theorem WellFormed.nodeIn?_eq {w : Workspace} (hw : w.WellFormed) {n : Node} (hn : n ∈ w.nodes) :
    nodeIn? w.nodes n.id = some n :=
  nodeIn?_eq_of_mem hw.nodes_nodup hn

theorem isSome_nodeIn? {nodes : List Node} {id : NodeId} :
    (nodeIn? nodes id).isSome ↔ HasNode nodes id := by
  simp [nodeIn?, HasNode]

theorem HasPort.hasNode {nodes : List Node} {ports : Node → List Port} {id : NodeId}
    {port : PortId} (h : HasPort nodes ports id port) : HasNode nodes id := by
  obtain ⟨n, hn, hid, -⟩ := h
  exact ⟨n, hn, hid⟩

/-- Where identifiers do not repeat, the node that is found is the one that
owns the port. -/
theorem isSome_find?_port {nodes : List Node} (hnodup : (nodes.map (·.id)).Nodup) {n : Node}
    (hn : n ∈ nodes) (ports : Node → List Port) (port : PortId) :
    ((ports n).find? (·.id == port)).isSome ↔ HasPort nodes ports n.id port := by
  simp only [List.find?_isSome, beq_iff_eq]
  constructor
  · intro h
    exact ⟨n, hn, rfl, h⟩
  · rintro ⟨m, hm, hid, h⟩
    have hfound := nodeIn?_eq_of_mem hnodup hm
    rw [hid, nodeIn?_eq_of_mem hnodup hn] at hfound
    cases hfound
    exact h

/-! ## Connections

Connections are checked in order, with the identifiers of those before them.
What one of them breaks is found by itself. -/

section

variable {nodes : List Node} {seen : List ConnectionId} {c : Connection}

/-- A connection whose node does not exist dangles. -/
theorem endpoint_of_not_hasNode {id : NodeId} (h : ¬ HasNode nodes id) :
    endpoint nodes c id = .error (.danglingConnection c.id id) := by
  have hnone : nodeIn? nodes id = none := by
    rw [← Option.not_isSome_iff_eq_none, isSome_nodeIn?]
    exact h
  simp [endpoint, hnone]

/-- The node at an end of a connection, with its ports. -/
theorem exists_endpoint (hnodup : (nodes.map (·.id)).Nodup) {id : NodeId} (h : HasNode nodes id) :
    ∃ n, endpoint nodes c id = .ok n ∧ ∀ (ports : Node → List Port) (port : PortId),
      ((ports n).find? (·.id == port)).isSome ↔ HasPort nodes ports id port := by
  obtain ⟨n, hn, rfl⟩ := h
  refine ⟨n, ?_, isSome_find?_port hnodup hn⟩
  simp [endpoint, nodeIn?_eq_of_mem hnodup hn]

theorem checkEnds_of_source {e : WorkspaceError} (hs : endpoint nodes c c.source = .error e) :
    checkEnds nodes c = .error e := by
  simp [checkEnds, hs, bind, Except.bind]

theorem checkEnds_of_target {s : Node} {e : WorkspaceError}
    (hs : endpoint nodes c c.source = .ok s) (ht : endpoint nodes c c.target = .error e) :
    checkEnds nodes c = .error e := by
  simp [checkEnds, hs, ht, bind, Except.bind]

/-- Where both nodes exist, their ports are looked at. -/
theorem checkEnds_eq {s t : Node} (hs : endpoint nodes c c.source = .ok s)
    (ht : endpoint nodes c c.target = .ok t) :
    checkEnds nodes c =
      if (s.output? c.sourcePort).isSome then
        if (t.input? c.targetPort).isSome then .ok ()
        else .error (.unknownInputPort c.id c.target c.targetPort)
      else .error (.unknownOutputPort c.id c.source c.sourcePort) := by
  cases ho : s.output? c.sourcePort <;> cases hi : t.input? c.targetPort <;>
    simp [checkEnds, hs, ht, ho, hi, bind, Except.bind, pure, Except.pure, throw, throwThe,
      MonadExceptOf.throw]

/-- One connection is checked for its identifier and then for its ends. -/
theorem checkConnections_singleton :
    checkConnections nodes seen [c] =
      if c.id ∈ seen then .error (.duplicateConnection c.id) else checkEnds nodes c := by
  by_cases hid : c.id ∈ seen
  · simp [checkConnections, hid, bind, Except.bind, throw, throwThe, MonadExceptOf.throw]
  · cases he : checkEnds nodes c <;> simp [checkConnections, hid, he, bind, Except.bind]

/-- A connection is checked by itself, and then those after it. -/
theorem checkConnections_cons (c : Connection) (rest : List Connection) :
    checkConnections nodes seen (c :: rest) = (do
      checkConnections nodes seen [c]
      checkConnections nodes (c.id :: seen) rest) := by
  rw [checkConnections_singleton, checkConnections]
  by_cases hid : c.id ∈ seen
  · simp [hid, bind, Except.bind, throw, throwThe, MonadExceptOf.throw]
  · simp [hid]

/-- Connections in two portions; the second is checked with the identifiers of
the first as seen. -/
theorem checkConnections_append (as bs : List Connection) :
    checkConnections nodes seen (as ++ bs) = (do
      checkConnections nodes seen as
      checkConnections nodes ((as.map (·.id)).reverse ++ seen) bs) := by
  induction as generalizing seen with
  | nil => rfl
  | cons a rest ih =>
    rw [List.cons_append, checkConnections_cons, ih, checkConnections_cons a rest, bind_assoc]
    simp

/-- A connection that keeps the rules. -/
structure Clean (nodes : List Node) (seen : List ConnectionId) (c : Connection) : Prop where
  id_not_mem : c.id ∉ seen
  output : HasPort nodes (·.outputs) c.source c.sourcePort
  input : HasPort nodes (·.inputs) c.target c.targetPort

/-- A connection keeps the rules, or there is a first one that it breaks. -/
theorem clean_or_breach (nodes : List Node) (seen : List ConnectionId) (c : Connection) :
    Clean nodes seen c ∨ ∃ e, Breach nodes seen c e := by
  by_cases hid : c.id ∈ seen
  · exact Or.inr ⟨_, .repeated hid⟩
  by_cases hs : HasNode nodes c.source
  · by_cases ht : HasNode nodes c.target
    · by_cases ho : HasPort nodes (·.outputs) c.source c.sourcePort
      · by_cases hi : HasPort nodes (·.inputs) c.target c.targetPort
        · exact Or.inl ⟨hid, ho, hi⟩
        · exact Or.inr ⟨_, .input hid ho ht hi⟩
      · exact Or.inr ⟨_, .output hid hs ht ho⟩
    · exact Or.inr ⟨_, .target hid hs ht⟩
  · exact Or.inr ⟨_, .source hid hs⟩

/-- Of what was seen only the connection's own identifier matters. -/
theorem Breach.of_mem_iff {seen' : List ConnectionId} {e : WorkspaceError}
    (h : Breach nodes seen c e) (hseen : c.id ∈ seen' ↔ c.id ∈ seen) : Breach nodes seen' c e := by
  cases h with
  | repeated hid => exact .repeated (hseen.mpr hid)
  | source hid hs => exact .source (hseen.not.mpr hid) hs
  | target hid hs ht => exact .target (hseen.not.mpr hid) hs ht
  | output hid hs ht ho => exact .output (hseen.not.mpr hid) hs ht ho
  | input hid ho ht hi => exact .input (hseen.not.mpr hid) ho ht hi

/-- A connection that keeps the rules passes. -/
theorem checkConnections_of_clean (hnodup : (nodes.map (·.id)).Nodup) (h : Clean nodes seen c) :
    checkConnections nodes seen [c] = .ok () := by
  obtain ⟨s, hs, hsports⟩ := exists_endpoint (c := c) hnodup h.output.hasNode
  obtain ⟨t, ht, htports⟩ := exists_endpoint (c := c) hnodup h.input.hasNode
  have ho : (s.output? c.sourcePort).isSome := (hsports _ _).mpr h.output
  have hi : (t.input? c.targetPort).isSome := (htports _ _).mpr h.input
  rw [checkConnections_singleton, if_neg h.id_not_mem, checkEnds_eq hs ht, if_pos ho, if_pos hi]

/-- The first rule that is broken is the one that is told. -/
theorem checkConnections_of_breach (hnodup : (nodes.map (·.id)).Nodup) {e : WorkspaceError}
    (h : Breach nodes seen c e) : checkConnections nodes seen [c] = .error e := by
  rw [checkConnections_singleton]
  cases h with
  | repeated hid => rw [if_pos hid]
  | source hid hs => rw [if_neg hid, checkEnds_of_source (endpoint_of_not_hasNode hs)]
  | target hid hs ht =>
    obtain ⟨s, hs, -⟩ := exists_endpoint (c := c) hnodup hs
    rw [if_neg hid, checkEnds_of_target hs (endpoint_of_not_hasNode ht)]
  | output hid hs ht ho =>
    obtain ⟨s, hs, hports⟩ := exists_endpoint (c := c) hnodup hs
    obtain ⟨t, ht, -⟩ := exists_endpoint (c := c) hnodup ht
    have ho : ¬ (s.output? c.sourcePort).isSome := (hports _ _).not.mpr ho
    rw [if_neg hid, checkEnds_eq hs ht, if_neg ho]
  | input hid ho ht hi =>
    obtain ⟨s, hs, hsports⟩ := exists_endpoint (c := c) hnodup ho.hasNode
    obtain ⟨t, ht, htports⟩ := exists_endpoint (c := c) hnodup ht
    have ho : (s.output? c.sourcePort).isSome := (hsports _ _).mpr ho
    have hi : ¬ (t.input? c.targetPort).isSome := (htports _ _).not.mpr hi
    rw [if_neg hid, checkEnds_eq hs ht, if_pos ho, if_neg hi]

end

/-! ## Workspaces -/

/-- One more connection keeps a workspace valid just if it is clean itself. -/
theorem valid_concat {w : Workspace} {cs : List Connection} {c : Connection} :
    Valid { w with connections := cs ++ [c] } ↔
      Valid { w with connections := cs } ∧ Clean w.nodes (cs.map (·.id)) c := by
  constructor
  · rintro ⟨hnodes, hnodup, hout, hin⟩
    obtain ⟨hcs, hnew⟩ := nodup_map_concat.mp hnodup
    simp only [List.forall_mem_append, List.forall_mem_singleton] at hout hin
    exact ⟨⟨hnodes, hcs, hout.1, hin.1⟩, hnew, hout.2, hin.2⟩
  · rintro ⟨⟨hnodes, hcs, hout, hin⟩, hnew, ho, hi⟩
    refine ⟨hnodes, nodup_map_concat.mpr ⟨hcs, hnew⟩, ?_, ?_⟩
    · simpa only [List.forall_mem_append, List.forall_mem_singleton] using ⟨hout, ho⟩
    · simpa only [List.forall_mem_append, List.forall_mem_singleton] using ⟨hin, hi⟩

/-- Every workspace is either in order or comes to a first violation. -/
theorem valid_or_violation (w : Workspace) : w.Valid ∨ ∃ e, w.FirstViolation e := by
  have hnodes := clean_or_first (fun ns : List Node => (ns.map (·.id)).Nodup)
    (fun ns n => n.id ∈ ns.map (·.id)) List.nodup_nil
    (fun ns n hns => by
      by_cases hn : n.id ∈ ns.map (·.id)
      · exact Or.inr hn
      · exact Or.inl (nodup_map_concat.mpr ⟨hns, hn⟩))
    w.nodes
  -- connections are looked at only if no node repeats
  rcases hnodes with hnodup | ⟨before, n, after, hw, hbefore, hn⟩
  · have hconnections := clean_or_first (fun cs => Valid { w with connections := cs })
      (fun cs c => ∃ e, Breach w.nodes (cs.map (·.id)) c e)
      ⟨hnodup, List.nodup_nil, by simp, by simp⟩
      (fun cs c hcs => (clean_or_breach w.nodes _ c).imp_left fun hc => valid_concat.mpr ⟨hcs, hc⟩)
      w.connections
    rcases hconnections with hvalid | ⟨before, c, after, hw, hbefore, e, hc⟩
    · exact Or.inl hvalid
    · exact Or.inr ⟨e, .connection hw hbefore hc⟩
  · exact Or.inr ⟨_, .node hw hbefore hn⟩

/-- The connections of a valid workspace pass one by one. -/
theorem checkConnections_of_valid {w : Workspace} {cs : List Connection}
    (h : Valid { w with connections := cs }) : checkConnections w.nodes [] cs = .ok () := by
  -- from the end: a connection is compared with those in front of it
  induction cs using List.reverseRecOn with
  | nil => rfl
  | append_singleton cs c ih =>
    obtain ⟨hvalid, hc⟩ := valid_concat.mp h
    have hclean : Clean w.nodes ((cs.map (·.id)).reverse ++ []) c :=
      ⟨by simpa using hc.id_not_mem, hc.output, hc.input⟩
    rw [checkConnections_append, ih hvalid]
    exact checkConnections_of_clean h.nodes_nodup hclean

theorem validate_of_valid {w : Workspace} (h : w.Valid) : w.validate = .ok () := by
  have hnodes : checkNodes w.nodes = .ok () := checkNodes_of_nodup h.nodes_nodup
  rw [validate, hnodes]
  exact checkConnections_of_valid h

/-- The first violation is the error. -/
theorem validate_of_violation {w : Workspace} {e : WorkspaceError} (h : w.FirstViolation e) :
    w.validate = .error e := by
  cases h with
  | node hw hbefore hn =>
    rw [validate, hw, checkNodes_of_repeat hbefore hn]
    rfl
  | @connection before after c e hw hbefore hc =>
    have hnodes : checkNodes w.nodes = .ok () := checkNodes_of_nodup hbefore.nodes_nodup
    have hbreach : Breach w.nodes ((before.map (·.id)).reverse ++ []) c e :=
      hc.of_mem_iff (by simp)
    rw [validate, hnodes, hw, checkConnections_append, checkConnections_of_valid hbefore,
      checkConnections_cons, checkConnections_of_breach hbefore.nodes_nodup hbreach]
    rfl

/-- Only valid workspaces pass. -/
theorem validate_eq_ok_iff {w : Workspace} : w.validate = .ok () ↔ w.Valid := by
  constructor
  · intro hok
    rcases valid_or_violation w with hvalid | ⟨e, hviolation⟩
    · exact hvalid
    · rw [validate_of_violation hviolation] at hok
      cases hok
  · exact validate_of_valid

theorem validate_eq_error_iff {w : Workspace} {e : WorkspaceError} :
    w.validate = .error e ↔ w.FirstViolation e := by
  constructor
  · intro herror
    rcases valid_or_violation w with hvalid | ⟨f, hviolation⟩
    · rw [validate_of_valid hvalid] at herror
      cases herror
    · rw [validate_of_violation hviolation] at herror
      cases herror
      exact hviolation
  · exact validate_of_violation

/-- Validation accepts the valid workspaces, and answers every other one
with its first violation. A workspace is valid or has a first violation
(`valid_or_violation`), and each of these decides the answer, so that both
directions need the checks in one direction only. -/
theorem validate_exact (w : Workspace) :
    (w.validate = .ok () ↔ w.Valid) ∧ ∀ e, w.validate = .error e ↔ w.FirstViolation e :=
  ⟨validate_eq_ok_iff, fun _ => validate_eq_error_iff⟩

/-! ## Graphs of validated workspaces -/

/-- The ports that connections ask for have nodes. -/
theorem Valid.wellFormed {w : Workspace} (h : w.Valid) : w.WellFormed where
  nodes_nodup := h.nodes_nodup
  connections_nodup := h.connections_nodup
  source_isSome := by
    intro c hc
    exact isSome_nodeIn?.mpr (h.output c hc).hasNode
  target_isSome := by
    intro c hc
    exact isSome_nodeIn?.mpr (h.input c hc).hasNode

theorem wellFormed_of_validate {w : Workspace} (h : w.validate = .ok ()) : w.WellFormed :=
  (validate_eq_ok_iff.mp h).wellFormed

end Workspace

end Workflow
