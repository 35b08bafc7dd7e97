/-
Workflow.Proofs.Graph.Compression — finding a root in two walks.

`UnionFind.find` recurses, and each of its steps needs the ranks to know that
it ends. Bare pointers know no ranks: on them a root is found by going up until
an element points to itself (`climb`), and by going up once more to make each
element on the way point to this root (`shorten`). Both walks are loops that
may go on for ever, and have no answer then.

* `not_transGen_under` — the pointers of a forest lead into no circle.
* `shortened_find` — `find` changes the pointers on the way to the root, and no
  other ones.
* `climb_parent`, `shorten_parent` — on the pointers of a forest both walks
  end, and find what `find` does.
-/
import Mathlib.Data.PFun
import Mathlib.Logic.Relation
import Workflow.Proofs.Graph.UnionFind

namespace Workflow.Graph.UnionFind

variable {n : Nat} {u : UnionFind n} {i j k : Fin n} {parent short : Vector (Fin n) n}

/-! ## The way to the root -/

/-- One element points to another one. -/
def Under (u : UnionFind n) (i j : Fin n) : Prop := u.parent.get i = j ∧ i ≠ j

theorem Under.rank_lt (h : u.Under i j) : u.rank.get i < u.rank.get j := by
  obtain ⟨rfl, hne⟩ := h
  exact u.rank_lt i (Ne.symm hne)

theorem not_transGen_under : ¬ Relation.TransGen u.Under i i := by
  have hlt {j : Fin n} (h : Relation.TransGen u.Under i j) : u.rank.get i < u.rank.get j := by
    induction h with
    | single h => exact h.rank_lt
    | tail _ h ih => exact Nat.lt_trans ih h.rank_lt
  exact fun h => Nat.lt_irrefl _ (hlt h)

/-- The way from one element up to its root starts at another one or leads over
it. -/
def OnWay (u : UnionFind n) (i j : Fin n) : Prop := Relation.ReflTransGen u.Under i j

theorem onWay_self : u.OnWay i i := Relation.ReflTransGen.refl

/-- The way from a root is over. -/
theorem onWay_iff_of_isRoot (h : u.IsRoot i) : u.OnWay i j ↔ i = j := by
  constructor
  · intro hj
    rcases Relation.ReflTransGen.cases_head_iff.mp hj with rfl | ⟨k, ⟨hk, hne⟩, _⟩
    · rfl
    · exact absurd (h.symm.trans hk) hne
  · rintro rfl
    exact onWay_self

theorem onWay_iff_of_not_isRoot (h : ¬ u.IsRoot i) :
    u.OnWay i j ↔ i = j ∨ u.OnWay (u.parent.get i) j := by
  refine Relation.ReflTransGen.cases_head_iff.trans (or_congr_right ⟨?_, fun hj => ?_⟩)
  · rintro ⟨k, ⟨rfl, _⟩, hj⟩
    exact hj
  · exact ⟨u.parent.get i, ⟨rfl, Ne.symm h⟩, hj⟩

/-- Ranks grow on the way. -/
theorem OnWay.rank_le (h : u.OnWay i j) : u.rank.get i ≤ u.rank.get j := by
  induction h with
  | refl => exact Nat.le_refl _
  | tail _ hj ih => exact Nat.le_trans ih (Nat.le_of_lt hj.rank_lt)

theorem not_onWay_parent (h : ¬ u.IsRoot i) : ¬ u.OnWay (u.parent.get i) i := fun hway =>
  Nat.not_le_of_lt (u.rank_lt i h) hway.rank_le

/-- The way is at its end with an element that points to the root. -/
theorem OnWay.parent_eq (hj : u.OnWay i j) (h : u.parent.get i = u.root i) :
    u.parent.get j = u.root i := by
  by_cases hi : u.IsRoot i
  · rw [← (onWay_iff_of_isRoot hi).mp hj, h]
  · rw [onWay_iff_of_not_isRoot hi, h, onWay_iff_of_isRoot isRoot_root] at hj
    rcases hj with rfl | rfl
    · exact h
    · exact isRoot_root

/-- The pointers on the way from an element lead to its root at once, and the
other ones are as they were. -/
structure Shortened (u : UnionFind n) (i : Fin n) (parent short : Vector (Fin n) n) : Prop where
  onWay : ∀ j, u.OnWay i j → short.get j = u.root i
  aside : ∀ j, ¬ u.OnWay i j → short.get j = parent.get j

/-- Finding a root makes every element on the way point to it, and changes no
other pointer. -/
theorem shortened_find (u : UnionFind n) (i : Fin n) :
    u.Shortened i u.parent (u.find i).forest.parent := by
  induction i using u.pointer_induction with
  | root i hi =>
    rw [(find_of_isRoot hi).2]
    refine ⟨fun j hj => ?_, fun _ _ => rfl⟩
    rw [← (onWay_iff_of_isRoot hi).mp hj, root_of_isRoot hi]
    exact hi
  | below i hi ih =>
    obtain ⟨hlt, hforest⟩ := find_forest_of_not_isRoot hi
    have hget (j : Fin n) : (u.find i).forest.parent.get j =
        if i = j then u.root i else (u.find (u.parent.get i)).forest.parent.get j := by
      rw [hforest, parent_setParent, find_root, root_parent]
    refine ⟨fun j hj => ?_, fun j hj => ?_⟩
    · rw [hget]
      split
      · rfl
      · rename_i hij
        rw [ih.onWay j (((onWay_iff_of_not_isRoot hi).mp hj).resolve_left hij), root_parent]
    · rw [onWay_iff_of_not_isRoot hi, not_or] at hj
      rw [hget, if_neg hj.1, ih.aside j hj.2]

/-! ## Two walks -/

/-- A loop that each round ends or leads on. -/
def loop {α β : Type} (round : α → β ⊕ α) : α →. β := PFun.fix fun a => Part.some (round a)

section

variable {α β : Type} {round : α → β ⊕ α} {a a' : α} {b : β}

theorem loop_of_end (h : round a = .inl b) : loop round a = Part.some b :=
  Part.eq_some_iff.mpr (PFun.fix_stop (Part.mem_some_iff.mpr h.symm))

theorem loop_of_next (h : round a = .inr a') : loop round a = loop round a' :=
  PFun.fix_fwd_eq (Part.mem_some_iff.mpr h.symm)

end

/-- Goes up to an element that points to itself. -/
def climb (parent : Vector (Fin n) n) : Fin n →. Fin n :=
  loop fun i => if parent.get i = i then .inl i else .inr (parent.get i)

/-- Makes one element point to `root`, and goes up to the one that it pointed
to, unless this was `root` already. -/
def redirect (root : Fin n) (parent : Vector (Fin n) n) (i : Fin n) :
    Vector (Fin n) n ⊕ Vector (Fin n) n × Fin n :=
  if parent.get i = root then .inl parent
  else .inr (parent.set i root i.isLt, parent.get i)

/-- Goes up to an element that points to `root`, and makes each element before
it point there as well. -/
def shorten (root : Fin n) : Vector (Fin n) n × Fin n →. Vector (Fin n) n :=
  loop fun s => redirect root s.1 s.2

/-- Climbing ends at the root, by induction along the pointers. -/
theorem climb_parent (u : UnionFind n) (i : Fin n) : climb u.parent i = Part.some (u.root i) := by
  induction i using u.pointer_induction with
  | root i hi =>
    rw [root_of_isRoot hi]
    exact loop_of_end (if_pos hi)
  | below i hi ih =>
    rw [← root_parent, ← ih]
    exact loop_of_next (if_neg hi)

/-- From an element on that points to the root nothing is left to be done. -/
theorem Shortened.eq_of_parent_eq_root (h : u.Shortened i parent short)
    (hway : ∀ j, u.OnWay i j → parent.get j = u.parent.get j)
    (hlast : parent.get i = u.root i) : short = parent := by
  have hi : u.parent.get i = u.root i := (hway i onWay_self).symm.trans hlast
  have hget (j : Fin n) : short.get j = parent.get j := by
    by_cases hj : u.OnWay i j
    · rw [h.onWay j hj, hway j hj, hj.parent_eq hi]
    · exact h.aside j hj
  exact Vector.ext fun m hm => hget ⟨m, hm⟩

/-- One round of the second walk. -/
theorem Shortened.of_parent (h : u.Shortened i parent short) (hi : ¬ u.IsRoot i) :
    u.Shortened (u.parent.get i) (parent.set i (u.root i) i.isLt) short := by
  refine ⟨fun j hj => ?_, fun j hj => ?_⟩
  · rw [root_parent]
    exact h.onWay j ((onWay_iff_of_not_isRoot hi).mpr (Or.inr hj))
  · rw [get_set]
    split
    · rename_i hij
      exact h.onWay j (hij ▸ onWay_self)
    · rename_i hij
      exact h.aside j fun hway => ((onWay_iff_of_not_isRoot hi).mp hway).elim hij hj

/-- The second walk, at any point of it: the pointers in front of it are those
of the forest, whatever those behind it have become. -/
theorem shorten_eq (h : u.Shortened i parent short)
    (hway : ∀ j, u.OnWay i j → parent.get j = u.parent.get j) :
    shorten (u.root i) (parent, i) = Part.some short := by
  induction i using u.pointer_induction generalizing parent with
  | root i hi =>
    have hlast : parent.get i = u.root i :=
      (hway i onWay_self).trans (hi.trans (root_of_isRoot hi).symm)
    rw [h.eq_of_parent_eq_root hway hlast]
    exact loop_of_end (if_pos hlast)
  | below i hi ih =>
    by_cases hlast : parent.get i = u.root i
    · rw [h.eq_of_parent_eq_root hway hlast]
      exact loop_of_end (if_pos hlast)
    · have hnext : shorten (u.root i) (parent, i) =
          shorten (u.root i) (parent.set i (u.root i) i.isLt, parent.get i) :=
        loop_of_next (if_neg hlast)
      have hshort := h.of_parent hi
      rw [← root_parent] at hshort
      rw [hnext, hway i onWay_self, ← root_parent]
      refine ih hshort fun j hj => ?_
      -- ranks grow, so that the walk does not meet what it has written
      have hij : i ≠ j := by
        rintro rfl
        exact not_onWay_parent hi hj
      rw [get_set, if_neg hij]
      exact hway j ((onWay_iff_of_not_isRoot hi).mpr (Or.inr hj))

theorem shorten_parent (u : UnionFind n) (i : Fin n) :
    shorten (u.root i) (u.parent, i) = Part.some (u.find i).forest.parent :=
  shorten_eq (u.shortened_find i) fun _ _ => rfl

end Workflow.Graph.UnionFind
