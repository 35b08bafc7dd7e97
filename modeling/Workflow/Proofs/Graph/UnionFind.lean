/-
Workflow.Proofs.Graph.UnionFind — a forest stands for an equivalence.

Two elements are in one class if they have the same root. A change of the
pointers is followed through `root_eq`: a map that goes along the pointers and
leaves the roots alone sends every element to its root.

* `root_find`, `find_root` — finding a root changes no root.
* `union_cases` — a union finds its two elements in one class, or hangs the
  root of one class under that of the other.
* `root_union` — so it gives two classes one of their two roots.
* `Represents.union` — so the classes are those of the equivalence that the
  unions so far generate.
-/
import Mathlib.Logic.Relation
import Workflow.Graph.UnionFind

namespace Workflow.Graph.UnionFind

variable {n : Nat} {u v : UnionFind n} {a b i j r : Fin n}

/-! ## Roots -/

theorem isRoot_iff : u.IsRoot i ↔ u.parent.get i = i := Iff.rfl

theorem root_of_isRoot (h : u.IsRoot i) : u.root i = i := by
  exact (root.eq_def u i).trans (dif_pos h)

@[simp] theorem root_parent : u.root (u.parent.get i) = u.root i := by
  by_cases h : u.IsRoot i
  · exact congrArg u.root h
  · exact ((root.eq_def u i).trans (dif_neg h)).symm

/-- Induction from the roots down, against the pointers. -/
@[elab_as_elim]
theorem pointer_induction {motive : Fin n → Prop} (u : UnionFind n) (i : Fin n)
    (root : ∀ i, u.IsRoot i → motive i)
    (below : ∀ i, ¬ u.IsRoot i → motive (u.parent.get i) → motive i) : motive i :=
  UnionFind.root.induct u motive root below i

theorem isRoot_root : u.IsRoot (u.root i) := by
  induction i using u.pointer_induction with
  | root i hi => rwa [root_of_isRoot hi]
  | below i hi ih => rwa [root_parent] at ih

theorem root_eq_self_iff : u.root i = i ↔ u.IsRoot i :=
  ⟨fun h => h ▸ isRoot_root, root_of_isRoot⟩

@[simp] theorem root_root : u.root (u.root i) = u.root i := root_of_isRoot isRoot_root

/-- What goes along the pointers and leaves the roots alone leads to the
root. -/
theorem root_eq {f : Fin n → Fin n} (hroot : ∀ i, u.IsRoot i → f i = i)
    (hparent : ∀ i, ¬ u.IsRoot i → f (u.parent.get i) = f i) (i : Fin n) : u.root i = f i := by
  induction i using u.pointer_induction with
  | root i hi => rw [root_of_isRoot hi, hroot i hi]
  | below i hi ih => rw [← root_parent, ih, hparent i hi]

/-- Ranks grow on the way to the root. -/
theorem rank_le_rank_root : u.rank.get i ≤ u.rank.get (u.root i) := by
  induction i using u.pointer_induction with
  | root i hi => exact Nat.le_of_eq (congrArg u.rank.get (root_of_isRoot hi).symm)
  | below i hi ih =>
    rw [root_parent] at ih
    exact Nat.le_trans (Nat.le_of_lt (u.rank_lt i hi)) ih

theorem rank_lt_rank_root (h : ¬ u.IsRoot i) : u.rank.get i < u.rank.get (u.root i) := by
  rw [← root_parent]
  exact Nat.lt_of_lt_of_le (u.rank_lt i h) rank_le_rank_root

@[simp] theorem root_new : (new n).root i = i := root_of_isRoot (by simp [IsRoot, new])

/-! ## Pointers that change

A pointer that is moved to an element with the same root changes no root; one
root hung under another merges two classes. -/

/-- One entry of a table is written; the lemmas after it say what this means
for parents and ranks. -/
theorem get_set {α : Type} {xs : Vector α n} {x : α} :
    (xs.set i x i.isLt).get j = if i = j then x else xs.get j := by
  refine (Vector.getElem_set i.isLt j.isLt).trans ?_
  simp only [Fin.val_inj]
  rfl

theorem parent_setParent (h : u.rank.get i < u.rank.get r) :
    (u.setParent i r h).parent.get j = if i = j then r else u.parent.get j := get_set

theorem parent_raise (ha : u.IsRoot a) (hb : u.rank.get b = u.rank.get a) :
    (u.raise a b ha hb).parent.get j = if b = j then a else u.parent.get j := get_set

theorem rank_raise (ha : u.IsRoot a) (hb : u.rank.get b = u.rank.get a) :
    (u.raise a b ha hb).rank.get j = if a = j then u.rank.get a + 1 else u.rank.get j := get_set

/-- A shorter way to the root. -/
theorem root_setParent_of_root (hr : u.root i = r) (h : u.rank.get i < u.rank.get r)
    (j : Fin n) :
    (u.setParent i r h).root j = u.root j := by
  have hne : i ≠ r := fun heq => Nat.ne_of_lt h (congrArg u.rank.get heq)
  refine root_eq (fun k hk => root_of_isRoot ?_) (fun k _ => ?_) j
  · rw [isRoot_iff, parent_setParent] at hk
    split at hk
    · rename_i heq
      exact absurd (heq.trans hk.symm) hne
    · exact hk
  · rw [parent_setParent]
    split
    · rename_i heq
      rw [← heq, ← hr, root_root]
    · exact root_parent

/-- One root comes to lie under another one. -/
theorem root_of_moved (ha : u.IsRoot a) (hb : u.IsRoot b) (hne : a ≠ b)
    (hparent : ∀ j : Fin n, v.parent.get j = if b = j then a else u.parent.get j) (j : Fin n) :
    v.root j = if u.root j = b then a else u.root j := by
  refine root_eq (f := fun j => if u.root j = b then a else u.root j) (fun k hk => ?_)
    (fun k _ => ?_) j
  · rw [isRoot_iff, hparent] at hk
    split at hk
    · rename_i heq
      exact absurd (hk.trans heq.symm) hne
    · rename_i hkb
      simp only [root_of_isRoot hk, if_neg (Ne.symm hkb)]
  · simp only [hparent]
    split
    · rename_i heq
      rw [← heq, root_of_isRoot hb, root_of_isRoot ha, if_pos rfl, if_neg hne]
    · rw [root_parent]

/-! ## Operations -/

theorem find_of_isRoot (h : u.IsRoot i) : (u.find i).root = i ∧ (u.find i).forest = u := by
  have hi : u.parent[i] = i := h
  rw [find.eq_def, dif_pos hi]
  exact ⟨rfl, rfl⟩

/-- What is found is the root. -/
@[simp] theorem find_root : (u.find i).root = u.root i := by
  induction i using u.pointer_induction with
  | root i hi => rw [(find_of_isRoot hi).1, root_of_isRoot hi]
  | below i hi ih =>
    have h : ¬ u.parent[i] = i := hi
    rw [find.eq_def, dif_neg h]
    exact ih.trans root_parent

/-- Finding lets an element point to the root at once, after its parent was
made to. -/
theorem find_forest_of_not_isRoot (h : ¬ u.IsRoot i) :
    ∃ hlt, (u.find i).forest =
      (u.find (u.parent.get i)).forest.setParent i (u.find (u.parent.get i)).root hlt := by
  have hi : ¬ u.parent[i] = i := h
  have hlt : (u.find (u.parent.get i)).forest.rank.get i <
      (u.find (u.parent.get i)).forest.rank.get (u.find (u.parent.get i)).root := by
    rw [(u.find (u.parent.get i)).rank_eq, find_root, root_parent]
    exact rank_lt_rank_root h
  refine ⟨hlt, ?_⟩
  rw [find.eq_def, dif_neg hi]
  rfl

/-- Path compression keeps all roots. -/
@[simp] theorem root_find : (u.find i).forest.root j = u.root j := by
  induction i using u.pointer_induction generalizing j with
  | root i hi => rw [(find_of_isRoot hi).2]
  | below i hi ih =>
    obtain ⟨hlt, hforest⟩ := find_forest_of_not_isRoot hi
    have hway : (u.find (u.parent.get i)).forest.root i = (u.find (u.parent.get i)).root := by
      rw [ih, find_root, root_parent]
    rw [hforest, root_setParent_of_root hway, ih]

/-- The forest in which a union compares the two roots. -/
def found (u : UnionFind n) (a b : Fin n) : UnionFind n := ((u.find a).forest.find b).forest

@[simp] theorem root_found : (u.found a b).root j = u.root j := by simp [found]

@[simp] theorem rank_found : (u.found a b).rank = u.rank :=
  ((u.find a).forest.find b).rank_eq.trans (u.find a).rank_eq

theorem isRoot_found : (u.found a b).IsRoot i ↔ u.IsRoot i := by
  rw [← root_eq_self_iff, root_found, root_eq_self_iff]

/-- In `v` the root `low` hangs under the root `top`, whose rank has grown if
the two ranks were equal. -/
structure Hung (u v : UnionFind n) (top low : Fin n) : Prop where
  isRoot_top : u.IsRoot top
  isRoot_low : u.IsRoot low
  ne : top ≠ low
  /-- The root of smaller rank goes below the other one. -/
  rank_le : u.rank.get low ≤ u.rank.get top
  /-- Only one parent changes. -/
  parent_eq : ∀ j, v.parent.get j = if low = j then top else u.parent.get j
  /-- The rank of the upper root grows by one if the two were equal. -/
  rank_eq : ∀ j, v.rank.get j =
    if top = j ∧ u.rank.get low = u.rank.get top then u.rank.get j + 1 else u.rank.get j

/-- A root of lower rank is hung under one of higher rank. -/
theorem hung_setParent (ha : u.IsRoot a) (hb : u.IsRoot b) (h : u.rank.get b < u.rank.get a) :
    Hung u (u.setParent b a h) a b where
  isRoot_top := ha
  isRoot_low := hb
  ne := by
    rintro rfl
    exact Nat.lt_irrefl _ h
  rank_le := Nat.le_of_lt h
  parent_eq := fun _ => parent_setParent h
  rank_eq := fun _ => (if_neg fun heq => Nat.ne_of_lt h heq.2).symm

/-- Of two roots of one rank, the upper one is raised. -/
theorem hung_raise (ha : u.IsRoot a) (hb : u.IsRoot b) (hne : a ≠ b)
    (h : u.rank.get b = u.rank.get a) : Hung u (u.raise a b ha h) a b where
  isRoot_top := ha
  isRoot_low := hb
  ne := hne
  rank_le := Nat.le_of_eq h
  parent_eq := fun _ => parent_raise ha h
  rank_eq := by
    intro j
    rw [rank_raise]
    by_cases haj : a = j
    · subst haj
      simp [h]
    · simp [haj]

theorem rank_eq_of_not_lt (u : UnionFind n) (a b : Fin n) (h : ¬ u.rank.get a < u.rank.get b)
    (h' : ¬ u.rank.get b < u.rank.get a) : u.rank.get b = u.rank.get a :=
  Nat.le_antisymm (Nat.le_of_not_lt h) (Nat.le_of_not_lt h')

/-- Hangs one of two roots under the other one. -/
def link (u : UnionFind n) (a b : Fin n) (ha : u.IsRoot a) : Bool × UnionFind n :=
  if a = b then (false, u)
  else if h : u.rank.get a < u.rank.get b then (true, u.setParent a b h)
  else if h' : u.rank.get b < u.rank.get a then (true, u.setParent b a h')
  else (true, u.raise a b ha (rank_eq_of_not_lt u a b h h'))

theorem union_eq_link (u : UnionFind n) (a b : Fin n) :
    u.union a b = (u.found a b).link (u.root a) (u.root b) (isRoot_found.mpr isRoot_root) := by
  simp only [union, find_root, root_find]
  rfl

/-- What linking two roots does: nothing if they are the same, and otherwise
one of them is hung under the other. -/
theorem link_cases (ha : u.IsRoot a) (hb : u.IsRoot b) :
    (a = b ∧ u.link a b ha = (false, u)) ∨
    ∃ top low, (top = a ∧ low = b ∨ top = b ∧ low = a) ∧
      (u.link a b ha).1 = true ∧ Hung u (u.link a b ha).2 top low := by
  unfold link
  split
  · rename_i heq
    exact Or.inl ⟨heq, rfl⟩
  · rename_i hne
    refine Or.inr ?_
    split
    · rename_i hlt
      exact ⟨b, a, Or.inr ⟨rfl, rfl⟩, rfl, hung_setParent hb ha hlt⟩
    · rename_i hge
      split
      · rename_i hlt
        exact ⟨a, b, Or.inl ⟨rfl, rfl⟩, rfl, hung_setParent ha hb hlt⟩
      · rename_i hge'
        exact ⟨a, b, Or.inl ⟨rfl, rfl⟩, rfl, hung_raise ha hb hne
          (rank_eq_of_not_lt u a b hge hge')⟩

/-- What a union can do. -/
theorem union_cases (u : UnionFind n) (a b : Fin n) :
    (u.root a = u.root b ∧ u.union a b = (false, u.found a b)) ∨
    ∃ top low, (top = u.root a ∧ low = u.root b ∨ top = u.root b ∧ low = u.root a) ∧
      (u.union a b).1 = true ∧ Hung (u.found a b) (u.union a b).2 top low := by
  rw [union_eq_link]
  exact link_cases _ (isRoot_found.mpr isRoot_root)

/-- All elements whose root was `low` have the root `top` then, and the others
keep theirs. -/
theorem Hung.root_eq {top low : Fin n} (h : Hung u v top low) (j : Fin n) :
    v.root j = if u.root j = low then top else u.root j :=
  root_of_moved h.isRoot_top h.isRoot_low h.ne h.parent_eq j

/-- The merged class has the root of one of the two. -/
theorem root_union (u : UnionFind n) (a b : Fin n) :
    ∃ r, (r = u.root a ∨ r = u.root b) ∧ ∀ j, (u.union a b).2.root j =
      if u.root j = u.root a ∨ u.root j = u.root b then r else u.root j := by
  rcases u.union_cases a b with ⟨heq, hunion⟩ | ⟨top, low, hends, _, hung⟩
  · refine ⟨u.root a, Or.inl rfl, fun j => ?_⟩
    simp only [hunion, root_found, ← heq, or_self]
    split
    · assumption
    · rfl
  · refine ⟨top, hends.imp And.left And.left, fun j => ?_⟩
    rw [hung.root_eq, root_found]
    rcases hends with ⟨rfl, rfl⟩ | ⟨rfl, rfl⟩
    · grind
    · grind

/-- A union answers whether the two classes were apart. -/
theorem union_eq_true_iff : (u.union a b).1 = true ↔ u.root a ≠ u.root b := by
  rcases u.union_cases a b with ⟨heq, hunion⟩ | ⟨top, low, hends, htrue, hung⟩
  · simp [hunion, heq]
  · have hne := hung.ne
    rcases hends with ⟨rfl, rfl⟩ | ⟨rfl, rfl⟩
    · simp [htrue, hne]
    · simp [htrue, hne.symm]

/-! ## Classes -/

/-- Two elements are in one class just if a chain of related pairs links
them, in whichever direction. -/
def Represents (u : UnionFind n) (R : Fin n → Fin n → Prop) : Prop :=
  ∀ i j, u.root i = u.root j ↔ Relation.EqvGen R i j

theorem Represents.congr {R R' : Fin n → Fin n → Prop} (h : u.Represents R)
    (hR : ∀ i j, R' i j ↔ R i j) : u.Represents R' := by
  have heq : R' = R := funext fun i => funext fun j => propext (hR i j)
  rwa [heq]

/-- At first no two elements are linked. -/
theorem represents_new (n : Nat) : (new n).Represents fun _ _ => False := by
  intro i j
  rw [root_new, root_new]
  constructor
  · rintro rfl
    exact .refl i
  · intro h
    induction h with
    | rel _ _ h => exact h.elim
    | refl => rfl
    | symm _ _ _ ih => exact ih.symm
    | trans _ _ _ _ _ ih ih' => exact ih.trans ih'

/-- A union adds one pair to those that generate the classes. -/
theorem Represents.union {R : Fin n → Fin n → Prop} (h : u.Represents R) (a b : Fin n) :
    (u.union a b).2.Represents fun i j => R i j ∨ i = a ∧ j = b := by
  obtain ⟨r, hr, hroot⟩ := u.root_union a b
  have hold {i j : Fin n} (hij : u.root i = u.root j) :
      Relation.EqvGen (fun i j => R i j ∨ i = a ∧ j = b) i j :=
    ((h i j).mp hij).mono fun _ _ => Or.inl
  have hnew : Relation.EqvGen (fun i j => R i j ∨ i = a ∧ j = b) a b :=
    .rel a b (Or.inr ⟨rfl, rfl⟩)
  intro i j
  constructor
  · intro hij
    -- an element whose root has changed is linked to `a`
    have hmerged {k : Fin n} (hk : u.root k = u.root a ∨ u.root k = u.root b) :
        Relation.EqvGen (fun i j => R i j ∨ i = a ∧ j = b) k a :=
      hk.elim hold fun hk => (hold hk).trans _ _ _ hnew.symm
    rw [hroot, hroot] at hij
    split at hij
    · rename_i hi
      split at hij
      · rename_i hj
        exact (hmerged hi).trans _ _ _ (hmerged hj).symm
      · rename_i hj
        exact absurd (hr.imp hij.symm.trans hij.symm.trans) hj
    · rename_i hi
      split at hij
      · exact absurd (hr.imp hij.trans hij.trans) hi
      · exact hold hij
  · intro hij
    induction hij with
    | rel i j hij =>
      rcases hij with hij | ⟨rfl, rfl⟩
      · rw [hroot, hroot, (h i j).mpr (.rel i j hij)]
      · simp [hroot]
    | refl => rfl
    | symm _ _ _ ih => exact ih.symm
    | trans _ _ _ _ _ ih ih' => exact ih.trans ih'

end Workflow.Graph.UnionFind
