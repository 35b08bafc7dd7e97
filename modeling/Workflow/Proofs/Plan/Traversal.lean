/-
Workflow.Proofs.Plan.Traversal — what the two walks through a graph find.

`IsForward` and `IsBackward` are two closures as least sets, without the walks
that compute them. Nothing is assumed of the graph: connections may dangle or
lead in circles, and identifiers may repeat.

* `Sound` — whatever is found belongs to the closures. Both walks keep it,
  step by step.
* `Pulled` — the invariant of the walk backward: what leads to an expanded
  node is included, and the operations among it are expanded or wait on the
  stack. A node may well be included before it is expanded.
* `Walked` — the invariant of the walk forward, between two connections: every
  node that it has come to is expanded, and from a forward node it has gone on
  to all targets, unless the node still waits.
* `mem_expanded`, `mem_connections`, `mem_nodes` — so at the end the expanded
  nodes are the backward ones, and the connections into them are included, with
  both their nodes.
-/
import Workflow.Plan.Slice

namespace Workflow.Slice

/-! ## The two closures -/

section

variable (nodes : List Node) (connections : List Connection) (start : NodeId)

/-- A connection whose two nodes exist. -/
structure IsLive (c : Connection) : Prop where
  mem : c ∈ connections
  /-- Connections to or from nowhere are left out. -/
  source : ∃ n ∈ nodes, n.id = c.source
  target : ∃ n ∈ nodes, n.id = c.target

/-- The start, and every operation that a live connection leads to from such
a node. -/
inductive IsForward : NodeId → Prop
  | start : IsForward start
  | step {c : Connection} (hc : IsLive nodes connections c) (hs : IsForward c.source)
    (hop : isOperation nodes c.target) : IsForward c.target

/-- The start, every node that a live connection leads to from a forward
node, and every operation from which a live connection leads to such a
node. -/
inductive IsBackward : NodeId → Prop
  | start : IsBackward start
  | forward {c : Connection} (hc : IsLive nodes connections c)
    (hs : IsForward nodes connections start c.source) : IsBackward c.target
  | step {c : Connection} (hc : IsLive nodes connections c) (ht : IsBackward c.target)
    (hop : isOperation nodes c.source) : IsBackward c.source

/-- A live connection into a backward node. -/
structure IsInward (c : Connection) : Prop where
  live : IsLive nodes connections c
  target : IsBackward nodes connections start c.target

/-- A node that is backward, or that a live connection into a backward node
comes from. -/
def Belongs (id : NodeId) : Prop :=
  IsBackward nodes connections start id ∨ ∃ c, IsInward nodes connections start c ∧ c.source = id

end

variable {nodes : List Node} {connections : List Connection} {start id node : NodeId}
  {c : Connection}

theorem isKnown_iff : isKnown nodes id ↔ ∃ n ∈ nodes, n.id = id := by
  simp [isKnown, nodeIn?]

theorem isKnown_of_isOperation (h : isOperation nodes id) : isKnown nodes id := by
  rw [isOperation, Option.any_eq_true] at h
  obtain ⟨n, hn, -⟩ := h
  simp [isKnown, hn]

/-- A connection is live if it is one of the graph's and both of its ends are
known. -/
theorem isLive_iff_isKnown :
    IsLive nodes connections c ↔
      c ∈ connections ∧ isKnown nodes c.source ∧ isKnown nodes c.target := by
  rw [isKnown_iff, isKnown_iff]
  exact ⟨fun h => ⟨h.mem, h.source, h.target⟩, fun ⟨hmem, hs, ht⟩ => ⟨hmem, hs, ht⟩⟩

theorem IsForward.isKnown (h : IsForward nodes connections start id)
    (hstart : isKnown nodes start) :
    isKnown nodes id := by
  cases h with
  | start => exact hstart
  | step hc => exact isKnown_iff.mpr hc.target

/-- Where the start exists, so do all nodes of the closures. -/
theorem IsBackward.isKnown (h : IsBackward nodes connections start id)
    (hstart : isKnown nodes start) : isKnown nodes id := by
  cases h with
  | start => exact hstart
  | forward hc => exact isKnown_iff.mpr hc.target
  | step hc => exact isKnown_iff.mpr hc.source

namespace Traversal

variable {t : Traversal} {s : Frontier} {stack todo queue visited : List NodeId}
  {x : ConnectionId}

/-! ## What a pass over the connections adds -/

/-- A list that grows by what each element brings, has in the end what any of
them has brought. -/
theorem mem_foldl_iff {α σ γ : Type} {step : σ → α → σ} (view : σ → List γ)
    (brings : α → γ → Prop) (hstep : ∀ s a x, x ∈ view (step s a) ↔ x ∈ view s ∨ brings a x)
    (as : List α) (s : σ) (x : γ) :
    x ∈ view (as.foldl step s) ↔ x ∈ view s ∨ ∃ a ∈ as, brings a x := by
  induction as generalizing s with
  | nil => simp
  | cons a rest ih => simp [ih, hstep, or_assoc]

theorem mem_nodes_keep : id ∈ (t.keep c).nodes ↔ id ∈ t.nodes ∨ id = c.source ∨ id = c.target := by
  simp [keep, or_comm, or_left_comm, or_assoc]

theorem mem_connections_keep : x ∈ (t.keep c).connections ↔ x ∈ t.connections ∨ x = c.id := by
  rw [keep, List.mem_insert_iff]
  exact or_comm

/-- The walk backward from a node looks at a connection into it. -/
def Pulls (nodes : List Node) (node : NodeId) (c : Connection) : Prop :=
  c.target = node ∧ isKnown nodes c.source

/-- One pass over the connections, for the nodes, the connections and the
stack: exactly those of the connections that are pulled are added. -/
theorem mem_nodes_pullAll (u : Traversal × List NodeId) :
    id ∈ (pullAll nodes connections node u).1.nodes ↔
      id ∈ u.1.nodes ∨ ∃ c ∈ connections, Pulls nodes node c ∧ (id = c.source ∨ id = c.target) := by
  refine mem_foldl_iff (·.1.nodes)
    (fun c id => Pulls nodes node c ∧ (id = c.source ∨ id = c.target)) (fun u c id => ?_) _ u id
  unfold pull
  split
  · rename_i hc
    simp [mem_nodes_keep, Pulls, hc]
  · rename_i hc
    simp [Pulls, hc]

theorem mem_connections_pullAll (u : Traversal × List NodeId) :
    x ∈ (pullAll nodes connections node u).1.connections ↔
      x ∈ u.1.connections ∨ ∃ c ∈ connections, Pulls nodes node c ∧ x = c.id := by
  refine mem_foldl_iff (·.1.connections) (fun c x => Pulls nodes node c ∧ x = c.id)
    (fun u c x => ?_) _ u x
  unfold pull
  split
  · rename_i hc
    simp [mem_connections_keep, Pulls, hc]
  · rename_i hc
    simp [Pulls, hc]

theorem mem_stack_pullAll (u : Traversal × List NodeId) :
    id ∈ (pullAll nodes connections node u).2 ↔
      id ∈ u.2 ∨ ∃ c ∈ connections, Pulls nodes node c ∧ isOperation nodes c.source ∧
        id = c.source := by
  refine mem_foldl_iff (·.2)
    (fun c id => Pulls nodes node c ∧ isOperation nodes c.source ∧ id = c.source)
    (fun u c id => ?_) _ u id
  unfold pull
  split
  · rename_i hc
    by_cases hop : isOperation nodes c.source
    · simp [Pulls, hc, hop, or_comm]
    · simp [hop]
  · rename_i hc
    simp [Pulls, hc]

/-- The pass of the walk forward visits exactly the known targets of a node. -/
theorem mem_visited_followAll (s : Frontier) :
    id ∈ (followAll nodes connections node connections s).visited ↔
      id ∈ s.visited ∨ ∃ c ∈ connections, (c.source = node ∧ isKnown nodes c.target) ∧
        id = c.target := by
  refine mem_foldl_iff Frontier.visited
    (fun (c : Connection) id => (c.source = node ∧ isKnown nodes c.target) ∧ id = c.target)
    (fun s c id => ?_) _ s id
  unfold follow
  split
  · rename_i hc
    by_cases hold : c.target ∈ s.visited
    · simp only [hold, if_true, hc, and_self, true_and]
      exact ⟨Or.inl, fun h => h.elim (fun h => h) fun h => h ▸ hold⟩
    · simp [hold, hc, or_comm]
  · rename_i hc
    simp [hc]

/-! ## Nothing is found that does not belong there -/

/-- Whatever has been found belongs to the closures. -/
structure Sound (nodes : List Node) (connections : List Connection) (start : NodeId)
    (t : Traversal) : Prop where
  expanded : ∀ id ∈ t.expanded, IsBackward nodes connections start id
  /-- Connections are kept by their identifiers, which may be shared. -/
  inward : ∀ x ∈ t.connections, ∃ c, IsInward nodes connections start c ∧ c.id = x
  belongs : ∀ id ∈ t.nodes, Belongs nodes connections start id

/-- A connection into a backward node may be kept. -/
theorem Sound.keep (h : Sound nodes connections start t) (hc : IsInward nodes connections start c) :
    Sound nodes connections start (t.keep c) where
  expanded := h.expanded
  inward := fun x hx => by
    rcases mem_connections_keep.mp hx with hx | rfl
    · exact h.inward x hx
    · exact ⟨c, hc, rfl⟩
  belongs := fun id hid => by
    rcases mem_nodes_keep.mp hid with hid | rfl | rfl
    · exact h.belongs id hid
    · exact Or.inr ⟨c, hc, rfl⟩
    · exact Or.inl hc.target

theorem Sound.expand (h : Sound nodes connections start t)
    (hnode : IsBackward nodes connections start node) :
    Sound nodes connections start (t.expand node) :=
  { h with expanded := List.forall_mem_cons.mpr ⟨hnode, h.expanded⟩ }

/-- A connection into a backward node is live if its source exists. -/
theorem Pulls.isInward (h : Pulls nodes node c) (hc : c ∈ connections)
    (hstart : isKnown nodes start)
    (hnode : IsBackward nodes connections start node) : IsInward nodes connections start c := by
  obtain ⟨rfl, hsource⟩ := h
  exact ⟨isLive_iff_isKnown.mpr ⟨hc, hsource, hnode.isKnown hstart⟩, hnode⟩

theorem Sound.pullAll (h : Sound nodes connections start t) (hstart : isKnown nodes start)
    (hnode : IsBackward nodes connections start node) :
    Sound nodes connections start (pullAll nodes connections node (t, stack)).1 where
  expanded := by
    rw [expanded_pullAll]
    exact h.expanded
  inward := fun x hx => by
    rcases (mem_connections_pullAll _).mp hx with hx | ⟨c, hc, hpulls, rfl⟩
    · exact h.inward x hx
    · exact ⟨c, hpulls.isInward hc hstart hnode, rfl⟩
  belongs := fun id hid => by
    rcases (mem_nodes_pullAll _).mp hid with hid | ⟨c, hc, hpulls, hend⟩
    · exact h.belongs id hid
    · have hinward := hpulls.isInward hc hstart hnode
      rcases hend with rfl | rfl
      · exact Or.inr ⟨c, hinward, rfl⟩
      · exact Or.inl hinward.target

/-- The operations that go on the stack are backward. -/
theorem forall_mem_stack_pullAll (hstart : isKnown nodes start)
    (hnode : IsBackward nodes connections start node)
    (hstack : ∀ id ∈ stack, IsBackward nodes connections start id) :
    ∀ id ∈ (pullAll nodes connections node (t, stack)).2,
      IsBackward nodes connections start id := by
  intro id hid
  rcases (mem_stack_pullAll _).mp hid with hid | ⟨c, hc, hpulls, hop, rfl⟩
  · exact hstack id hid
  · have hinward := hpulls.isInward hc hstart hnode
    exact .step hinward.live hinward.target hop

theorem Sound.pullBackward (h : Sound nodes connections start t) (hstart : isKnown nodes start)
    (htodo : ∀ id ∈ todo, IsBackward nodes connections start id) :
    Sound nodes connections start (pullBackward nodes connections t todo) := by
  fun_induction Traversal.pullBackward nodes connections t todo with
  | case1 => exact h
  | case2 t node stack _ ih => exact ih h (List.forall_mem_cons.mp htodo).2
  | case3 t node stack _ s ih =>
    obtain ⟨hnode, hstack⟩ := List.forall_mem_cons.mp htodo
    exact ih ((h.expand hnode).pullAll hstart hnode) (forall_mem_stack_pullAll hstart hnode hstack)

/-! ## The walk backward leaves nothing out -/

/-- What the walk backward keeps true with `todo` on its stack. -/
structure Pulled (nodes : List Node) (connections : List Connection) (t : Traversal)
    (todo : List NodeId) : Prop where
  /-- Connections from existing to expanded nodes are included. -/
  included : ∀ c ∈ connections, isKnown nodes c.source → c.target ∈ t.expanded →
    c.id ∈ t.connections ∧ c.source ∈ t.nodes ∧ c.target ∈ t.nodes
  /-- Operations that lead to an expanded node are expanded or wait. -/
  waits : ∀ c ∈ connections, isOperation nodes c.source → c.target ∈ t.expanded →
    c.source ∈ t.expanded ∨ c.source ∈ todo

/-- Keeping more loses nothing. -/
theorem Pulled.keep (h : Pulled nodes connections t todo) (c : Connection) :
    Pulled nodes connections (t.keep c) todo where
  included := fun d hd hsource htarget => by
    obtain ⟨hid, hs, ht⟩ := h.included d hd hsource htarget
    exact ⟨mem_connections_keep.mpr (.inl hid), mem_nodes_keep.mpr (.inl hs),
      mem_nodes_keep.mpr (.inl ht)⟩
  waits := h.waits

/-- A node that is expanded already need not wait. -/
theorem Pulled.skip (h : Pulled nodes connections t (node :: stack)) (hnode : node ∈ t.expanded) :
    Pulled nodes connections t stack where
  included := h.included
  waits := fun c hc hop htarget => by
    rcases h.waits c hc hop htarget with hexpanded | hwaits
    · exact Or.inl hexpanded
    · rcases List.mem_cons.mp hwaits with heq | hwaits
      · exact Or.inl (heq ▸ hnode)
      · exact Or.inr hwaits

/-- A node that is expanded now leaves the list of what waits: all that leads
to it is kept, and what has to be expanded next waits instead. -/
theorem Pulled.expand (h : Pulled nodes connections t (node :: stack)) :
    let s := pullAll nodes connections node (t.expand node, stack)
    Pulled nodes connections s.1 s.2 := by
  intro s
  have hexpanded : s.1.expanded = node :: t.expanded := expanded_pullAll ..
  refine ⟨fun c hc hsource htarget => ?_, fun c hc hop htarget => ?_⟩
  · rw [mem_connections_pullAll, mem_nodes_pullAll, mem_nodes_pullAll]
    rw [hexpanded] at htarget
    rcases List.mem_cons.mp htarget with heq | htarget
    · have hpulls : Pulls nodes node c := ⟨heq, hsource⟩
      exact ⟨.inr ⟨c, hc, hpulls, rfl⟩, .inr ⟨c, hc, hpulls, .inl rfl⟩,
        .inr ⟨c, hc, hpulls, .inr rfl⟩⟩
    · obtain ⟨hid, hs, ht⟩ := h.included c hc hsource htarget
      exact ⟨.inl hid, .inl hs, .inl ht⟩
  · rw [mem_stack_pullAll, hexpanded]
    rw [hexpanded] at htarget
    rcases List.mem_cons.mp htarget with heq | htarget
    · exact Or.inr (.inr ⟨c, hc, ⟨heq, isKnown_of_isOperation hop⟩, hop, rfl⟩)
    · rcases h.waits c hc hop htarget with hold | hwaits
      · exact Or.inl (List.mem_cons_of_mem _ hold)
      · rcases List.mem_cons.mp hwaits with heq | hwaits
        · exact Or.inl (heq ▸ List.mem_cons_self)
        · exact Or.inr (.inl hwaits)

/-- At the end of the walk nothing waits any more. -/
theorem Pulled.pullBackward (h : Pulled nodes connections t todo) :
    Pulled nodes connections (pullBackward nodes connections t todo) [] := by
  fun_induction Traversal.pullBackward nodes connections t todo with
  | case1 => exact h
  | case2 t node stack hnode ih => exact ih (h.skip hnode)
  | case3 t node stack _ s ih => exact ih h.expand

/-- The walk backward expands the nodes on its stack. -/
theorem mem_expanded_pullBackward (h : id ∈ t.expanded ∨ id ∈ todo) :
    id ∈ (pullBackward nodes connections t todo).expanded := by
  fun_induction pullBackward nodes connections t todo with
  | case1 => exact h.resolve_right List.not_mem_nil
  | case2 t node stack hnode ih =>
    refine ih (h.elim Or.inl fun htodo => ?_)
    rcases List.mem_cons.mp htodo with rfl | hstack
    · exact Or.inl hnode
    · exact Or.inr hstack
  | case3 t node stack _ s ih =>
    have hexpanded : s.1.expanded = node :: t.expanded := expanded_pullAll ..
    refine ih ?_
    rw [hexpanded, mem_stack_pullAll]
    rcases h with hold | htodo
    · exact Or.inl (List.mem_cons_of_mem _ hold)
    · rcases List.mem_cons.mp htodo with heq | htodo
      · exact Or.inl (heq ▸ List.mem_cons_self)
      · exact Or.inr (.inl htodo)

/-- Nothing that is included is taken out again. -/
theorem mem_nodes_pullBackward (h : id ∈ t.nodes) :
    id ∈ (pullBackward nodes connections t todo).nodes := by
  fun_induction pullBackward nodes connections t todo with
  | case1 => exact h
  | case2 t node stack _ ih => exact ih h
  | case3 t node stack _ s ih => exact ih ((mem_nodes_pullAll _).mpr (.inl h))

/-! ## The walk forward leaves nothing out -/

/-- What the walk forward keeps true between two connections, while the nodes
in `todo` have not been followed to the end. -/
structure Walked (nodes : List Node) (connections : List Connection) (start : NodeId)
    (t : Traversal) (visited todo : List NodeId) : Prop where
  sound : Sound nodes connections start t
  /-- The walk backward is always finished before the walk forward goes on. -/
  pulled : Pulled nodes connections t []
  begun : start ∈ visited
  included : start ∈ t.nodes
  /-- Whatever the walk comes to is expanded. -/
  expanded : ∀ id ∈ visited, id ∈ t.expanded
  forward : ∀ id ∈ todo, IsForward nodes connections start id
  /-- From a forward node that does not wait, the walk has gone on to all
  targets. -/
  followed : ∀ c ∈ connections, isKnown nodes c.target → c.source ∈ visited →
    (c.source = start ∨ isOperation nodes c.source) → c.target ∈ visited ∨ c.source ∈ todo

/-- If nothing waits, nothing is lost by letting more wait. -/
theorem Pulled.pending (h : Pulled nodes connections t []) (todo : List NodeId) :
    Pulled nodes connections t todo :=
  { h with waits := fun c hc hop htarget =>
      (h.waits c hc hop htarget).imp_right fun hnil => absurd hnil List.not_mem_nil }

/-- The walk comes to the target of a connection for the first time. -/
theorem Walked.arrive (h : Walked nodes connections start t visited (node :: queue))
    (hstart : isKnown nodes start) (hc : IsInward nodes connections start c)
    (hnode : c.source = node) (hnew : c.target ∉ visited) :
    Walked nodes connections start (pullBackward nodes connections (t.keep c) [c.target])
      (c.target :: visited)
      (node :: if isOperation nodes c.target then queue ++ [c.target] else queue) := by
  obtain ⟨hforward, hqueue⟩ := List.forall_mem_cons.mp h.forward
  refine ⟨(h.sound.keep hc).pullBackward hstart (List.forall_mem_singleton.mpr hc.target),
    ((h.pulled.keep c).pending _).pullBackward, List.mem_cons_of_mem _ h.begun,
    mem_nodes_pullBackward (mem_nodes_keep.mpr (.inl h.included)), ?_, ?_, ?_⟩
  · refine List.forall_mem_cons.mpr ⟨?_, fun id hid => ?_⟩
    · exact mem_expanded_pullBackward (.inr (List.mem_singleton_self _))
    · exact mem_expanded_pullBackward (.inl (h.expanded id hid))
  · refine List.forall_mem_cons.mpr ⟨hforward, ?_⟩
    split
    · rename_i hop
      have htarget := IsForward.step hc.live (hnode ▸ hforward) hop
      exact List.forall_mem_append.mpr ⟨hqueue, List.forall_mem_singleton.mpr htarget⟩
    · exact hqueue
  · intro d hd hknown hsource hop
    rcases List.mem_cons.mp hsource with heq | hold
    · -- what is new is not the start, so that it waits if it leads on
      have hne : d.source ≠ start := fun hs => hnew (heq ▸ hs ▸ h.begun)
      have htarget : isOperation nodes c.target := heq ▸ hop.resolve_left hne
      simp [htarget, heq]
    · refine (h.followed d hd hknown hold hop).imp (List.mem_cons_of_mem _) fun hwaits => ?_
      rcases List.mem_cons.mp hwaits with hwaits | hwaits
      · exact hwaits ▸ List.mem_cons_self
      · refine List.mem_cons_of_mem _ ?_
        split
        · exact List.mem_append_left _ hwaits
        · exact hwaits

/-- The walk looks at one more connection of the node that it follows. -/
theorem Walked.follow (h : Walked nodes connections start s.traversal s.visited (node :: s.queue))
    (hstart : isKnown nodes start) (hc : c ∈ connections) :
    let s' := Traversal.follow nodes connections node s c
    Walked nodes connections start s'.traversal s'.visited (node :: s'.queue) := by
  unfold Traversal.follow
  split
  · rename_i hfollows
    obtain ⟨hnode, htarget⟩ := hfollows
    have hforward : IsForward nodes connections start c.source :=
      hnode ▸ h.forward node List.mem_cons_self
    have hlive : IsLive nodes connections c :=
      isLive_iff_isKnown.mpr ⟨hc, hforward.isKnown hstart, htarget⟩
    have hinward : IsInward nodes connections start c := ⟨hlive, .forward hlive hforward⟩
    split
    · exact { h with
        sound := h.sound.keep hinward
        pulled := h.pulled.keep c
        included := mem_nodes_keep.mpr (.inl h.included) }
    · rename_i hnew
      exact h.arrive hstart hinward hnode hnew
  · exact h

/-- All connections out of one node, in order. -/
theorem Walked.followAll {cs : List Connection}
    (h : Walked nodes connections start s.traversal s.visited (node :: s.queue))
    (hstart : isKnown nodes start) (hcs : ∀ c ∈ cs, c ∈ connections) :
    let s' := Traversal.followAll nodes connections node cs s
    Walked nodes connections start s'.traversal s'.visited (node :: s'.queue) := by
  unfold Traversal.followAll
  induction cs generalizing s with
  | nil => exact h
  | cons c rest ih =>
    obtain ⟨hc, hrest⟩ := List.forall_mem_cons.mp hcs
    exact ih (h.follow hstart hc) hrest

/-- Once all connections have been looked at, the node is followed to the
end. -/
theorem Walked.next (h : Walked nodes connections start t visited (node :: queue))
    (hstart : isKnown nodes start) :
    let s := Traversal.followAll nodes connections node connections ⟨t, visited, queue⟩
    Walked nodes connections start s.traversal s.visited s.queue := by
  intro s
  have hall := Walked.followAll (s := ⟨t, visited, queue⟩) h hstart fun _ hc => hc
  refine { hall with
    forward := (List.forall_mem_cons.mp hall.forward).2
    followed := fun c hc htarget hsource hop => ?_ }
  by_cases hnode : c.source = node
  · exact Or.inl ((mem_visited_followAll _).mpr (.inr ⟨c, hc, ⟨hnode, htarget⟩, rfl⟩))
  · refine (hall.followed c hc htarget hsource hop).imp_right fun hwaits => ?_
    exact (List.mem_cons.mp hwaits).resolve_left hnode

/-- At the end of the walk forward nothing waits any more. -/
theorem Walked.pushForward (h : Walked nodes connections start t visited queue)
    (hstart : isKnown nodes start) :
    ∃ seen, Walked nodes connections start
      (pushForward nodes connections t visited queue) seen [] := by
  fun_induction Traversal.pushForward nodes connections t visited queue with
  | case1 t visited => exact ⟨visited, h⟩
  | case2 t visited node queue s ih => exact ih (h.next hstart)

/-! ## Both walks -/

/-- The walk forward begins when the start has been pulled backward. -/
theorem walked_start (hstart : isKnown nodes start) :
    Walked nodes connections start
      (pullBackward nodes connections ⟨[start], [], []⟩ [start]) [start] [start] where
  sound := by
    have hsound : Sound nodes connections start ⟨[start], [], []⟩ :=
      ⟨by simp, by simp, List.forall_mem_singleton.mpr (.inl .start)⟩
    exact hsound.pullBackward hstart (List.forall_mem_singleton.mpr .start)
  pulled := by
    have hpulled : Pulled nodes connections ⟨[start], [], []⟩ [start] := ⟨by simp, by simp⟩
    exact hpulled.pullBackward
  begun := List.mem_singleton_self _
  included := mem_nodes_pullBackward (List.mem_singleton_self _)
  expanded := fun _ hid => mem_expanded_pullBackward (.inr hid)
  forward := List.forall_mem_singleton.mpr .start
  followed := fun _ _ _ hsource _ => Or.inr hsource

/-- The walk forward comes to all forward nodes. -/
theorem Walked.mem_visited (h : Walked nodes connections start t visited [])
    (hid : IsForward nodes connections start id) :
    id ∈ visited ∧ (id = start ∨ isOperation nodes id) := by
  induction hid with
  | start => exact ⟨h.begun, Or.inl rfl⟩
  | step hc _ hop ih =>
    obtain ⟨hsource, hleads⟩ := ih
    have htarget := h.followed _ hc.mem (isKnown_iff.mpr hc.target) hsource hleads
    exact ⟨htarget.resolve_right List.not_mem_nil, Or.inr hop⟩

/-- After both walks all backward nodes are expanded. -/
theorem Walked.mem_expanded (h : Walked nodes connections start t visited [])
    (hid : IsBackward nodes connections start id) : id ∈ t.expanded := by
  induction hid with
  | start => exact h.expanded _ h.begun
  | forward hc hs =>
    obtain ⟨hsource, hleads⟩ := h.mem_visited hs
    have htarget := h.followed _ hc.mem (isKnown_iff.mpr hc.target) hsource hleads
    exact h.expanded _ (htarget.resolve_right List.not_mem_nil)
  | step hc _ hop ih => exact (h.pulled.waits _ hc.mem hop ih).resolve_right List.not_mem_nil

/-- After both walks the connections into backward nodes are included. -/
theorem Walked.of_isInward (h : Walked nodes connections start t visited [])
    (hc : IsInward nodes connections start c) :
    c.id ∈ t.connections ∧ c.source ∈ t.nodes ∧ c.target ∈ t.nodes :=
  h.pulled.included c hc.live.mem (isKnown_iff.mpr hc.live.source) (h.mem_expanded hc.target)

/-- Every traversal from a known start ends with both lists empty. -/
theorem exists_walked (connections : List Connection) (hstart : isKnown nodes start) :
    ∃ visited, Walked nodes connections start (ofStart nodes connections start) visited [] :=
  (walked_start hstart).pushForward hstart

section

variable (hstart : isKnown nodes start)

include hstart

/-- The walks expand the backward nodes, and no others. -/
theorem mem_expanded : id ∈ (ofStart nodes connections start).expanded ↔
    IsBackward nodes connections start id := by
  obtain ⟨_, h⟩ := exists_walked connections hstart
  exact ⟨h.sound.expanded id, h.mem_expanded⟩

/-- The walks include the connections into backward nodes, and no others. -/
theorem mem_connections : x ∈ (ofStart nodes connections start).connections ↔
    ∃ c, IsInward nodes connections start c ∧ c.id = x := by
  obtain ⟨_, h⟩ := exists_walked connections hstart
  refine ⟨h.sound.inward x, ?_⟩
  rintro ⟨c, hc, rfl⟩
  exact (h.of_isInward hc).1

/-- The walks include the backward nodes and those that lead to one, and no
others. -/
theorem mem_nodes : id ∈ (ofStart nodes connections start).nodes ↔
    Belongs nodes connections start id := by
  obtain ⟨_, h⟩ := exists_walked connections hstart
  refine ⟨h.sound.belongs id, ?_⟩
  rintro (hid | ⟨c, hc, rfl⟩)
  · cases hid with
    | start => exact h.included
    | forward hc hs => exact (h.of_isInward ⟨hc, .forward hc hs⟩).2.2
    | step hc ht _ => exact (h.of_isInward ⟨hc, ht⟩).2.1
  · exact (h.of_isInward hc).2.1

end

end Traversal

end Workflow.Slice
