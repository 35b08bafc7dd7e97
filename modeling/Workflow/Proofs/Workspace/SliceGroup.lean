/-
Workflow.Proofs.Workspace.SliceGroup — a slice stays inside one group.

A slice follows connections in their direction, and stops at variables; a
group is a class of nodes that connections join in whichever direction. Every
step of a closure goes along a connection, so that all nodes of a slice are
linked with its start (`IsNeeded.linked`).

Nothing is assumed of the workspace. Where connections share an identifier,
the slice takes the first one of them in place of the one that is inward, and
this one may lead elsewhere or nowhere; but it goes by the identifier that the
group lists.
-/
import Workflow.Proofs.Workspace.Group

namespace Workflow

variable {w : Workspace} {start id : NodeId} {c : Connection}

/-! ## Closures stay among linked nodes -/

namespace Slice

open Workspace

theorem IsLive.linked (h : IsLive w.nodes w.connections c) : Linked w c.source c.target :=
  .rel _ _ ⟨c, h, rfl, rfl⟩

theorem IsForward.linked (h : IsForward w.nodes w.connections start id) : Linked w start id := by
  induction h with
  | start => exact .refl start
  | step hc _ _ ih => exact .trans _ _ _ ih hc.linked

theorem IsBackward.linked (h : IsBackward w.nodes w.connections start id) :
    Linked w start id := by
  induction h with
  | start => exact .refl start
  | forward hc hs => exact .trans _ _ _ hs.linked hc.linked
  | step hc _ _ ih => exact .trans _ _ _ ih (.symm _ _ hc.linked)

theorem IsInward.linked_source (h : IsInward w.nodes w.connections start c) :
    Linked w start c.source :=
  .trans _ _ _ h.target.linked (.symm _ _ h.live.linked)

theorem IsNeeded.linked (h : IsNeeded w.nodes w.connections start id) : Linked w start id := by
  rcases h with hback | ⟨-, c, hc, rfl⟩
  · exact hback.linked
  · exact hc.linked_source

end Slice

namespace Workspace

open Slice

/-! ## What is in a slice -/

theorem isNeeded_of_mem_slice (hstart : isKnown w.nodes start) {n : Node}
    (hn : n ∈ (w.slice start).nodes) : IsNeeded w.nodes w.connections start n.id := by
  rw [Workspace.slice, ofStart_nodes hstart] at hn
  simpa using (List.mem_filter.mp (mem_of_mem_distinctBy hn)).2

/-- A connection of a slice goes by the identifier of an inward one. -/
theorem exists_inward_of_mem_slice (hstart : isKnown w.nodes start)
    (hc : c ∈ (w.slice start).connections) :
    ∃ d, IsInward w.nodes w.connections start d ∧ d.id = c.id := by
  rw [Workspace.slice, ofStart, if_pos hstart] at hc
  have hid := (List.mem_filter.mp (mem_of_mem_distinctBy hc)).2
  exact (Traversal.mem_connections hstart).mp (List.contains_iff_mem.mp hid)

/-- A live connection from a member is listed by its group. -/
theorem mem_connections_of_mem {g : Group} (hg : g ∈ w.groups)
    (hc : IsLive w.nodes w.connections c) (hs : c.source ∈ g.nodes) : c.id ∈ g.connections := by
  rw [w.isGrouping.connections_eq g hg]
  exact List.mem_map.mpr ⟨c, List.mem_filter.mpr ⟨hc.mem, by simp [hc, hs]⟩, rfl⟩

/-- **A slice never leaves the group of its start.** Every node that the
slice needs is linked to the start, and a group is a class of the links. For
connections only the identifiers are compared: with repeated ones a slice
can hold a connection that is not live, but then a live one has its
identifier. -/
theorem slice_within_group (h : ∃ n ∈ w.nodes, n.id = start) :
    ∃ g, w.groupOf start = some g ∧ (∀ n ∈ (w.slice start).nodes, n.id ∈ g.nodes) ∧
      ∀ c ∈ (w.slice start).connections, c.id ∈ g.connections := by
  obtain ⟨g, hgroup⟩ := Option.isSome_iff_exists.mp (groupOf_isSome_iff.mpr h)
  obtain ⟨hg, hstart⟩ := mem_of_groupOf hgroup
  have hknown : isKnown w.nodes start := isKnown_iff.mpr h
  have hmember {id : NodeId} (hlinked : Linked w start id) : id ∈ g.nodes :=
    (w.isGrouping.mem_iff g hg start hstart id).mpr hlinked
  refine ⟨g, hgroup, ?_, ?_⟩
  · intro n hn
    exact hmember (isNeeded_of_mem_slice hknown hn).linked
  · intro c hc
    obtain ⟨d, hd, hid⟩ := exists_inward_of_mem_slice hknown hc
    rw [← hid]
    exact mem_connections_of_mem hg hd.live (hmember hd.linked_source)

/-- Two drafts, one of which is printed, and a connection to nowhere that
shares the identifier of the one to the printer. -/
def drafts : Workspace where
  id := ⟨"drafts"⟩
  nodes :=
    [⟨⟨"draft"⟩, "Draft", .operation .textGeneration, [], []⟩,
      ⟨⟨"other"⟩, "Other", .operation .textGeneration, [], []⟩,
      ⟨⟨"printer"⟩, "Printer", .operation .action, [], []⟩]
  connections :=
    [⟨⟨"print"⟩, ⟨"other"⟩, ⟨"out"⟩, ⟨"nowhere"⟩, ⟨"in"⟩⟩,
      ⟨⟨"print"⟩, ⟨"draft"⟩, ⟨"out"⟩, ⟨"printer"⟩, ⟨"in"⟩⟩]

theorem drafts_within_group : (∃ n ∈ drafts.nodes, n.id = ⟨"printer"⟩) ∧
    drafts.groupOf ⟨"printer"⟩ = some ⟨[⟨"draft"⟩, ⟨"printer"⟩], [⟨"print"⟩]⟩ ∧
    ((drafts.slice ⟨"printer"⟩).nodes.map (·.id) = [⟨"draft"⟩, ⟨"printer"⟩] ∧
      (drafts.slice ⟨"printer"⟩).connections.map (·.source) = [⟨"other"⟩]) ∧
    ∃ g, drafts.groupOf ⟨"printer"⟩ = some g ∧
      (∀ n ∈ (drafts.slice ⟨"printer"⟩).nodes, n.id ∈ g.nodes) ∧
      ∀ c ∈ (drafts.slice ⟨"printer"⟩).connections, c.id ∈ g.connections := by
  have hstart : ∃ n ∈ drafts.nodes, n.id = ⟨"printer"⟩ :=
    ⟨⟨⟨"printer"⟩, "Printer", .operation .action, [], []⟩, by decide, rfl⟩
  exact ⟨hstart, by decide +kernel, by decide +kernel, slice_within_group hstart⟩

end Workspace

end Workflow
