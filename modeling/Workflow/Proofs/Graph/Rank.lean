/-
Workflow.Proofs.Graph.Rank — ranks are small.

A rank grows only when two classes of equal rank are merged, so the classes
double with it: a root of rank `r` stands for `2 ^ r` elements at least.

* `Populated.find`, `Populated.union` — finding a root and a union keep this.
* `Populated.two_pow_rank_le` — no rank is more than the logarithm of the
  number of elements.
-/
import Mathlib.Algebra.Ring.Nat
import Mathlib.Data.Fintype.Card
import Workflow.Proofs.Graph.Compression

namespace Workflow.Graph.UnionFind

variable {n : Nat} {u v : UnionFind n} {a b i j r : Fin n}

/-! ## Members of a class -/

/-- The elements that a root stands for. -/
def members (u : UnionFind n) (r : Fin n) : Finset (Fin n) := Finset.univ.filter (u.root · = r)

@[simp] theorem mem_members : j ∈ u.members r ↔ u.root j = r := by simp [members]

theorem members_congr (hroot : ∀ j, v.root j = u.root j) : v.members r = u.members r := by
  ext j
  rw [mem_members, mem_members, hroot]

section

variable {top low : Fin n}

/-- The root that was hung is none any more. -/
theorem Hung.isRoot_iff (h : Hung u v top low) : v.IsRoot r ↔ u.IsRoot r ∧ r ≠ low := by
  rw [UnionFind.isRoot_iff, h.parent_eq]
  split
  · rename_i hlow
    simp [← hlow, h.ne]
  · rename_i hlow
    simp [UnionFind.isRoot_iff, Ne.symm hlow]

/-- The other one takes over its members. -/
theorem Hung.members_top (h : Hung u v top low) :
    v.members top = u.members top ∪ u.members low := by
  ext j
  rw [Finset.mem_union, mem_members, mem_members, mem_members, h.root_eq]
  split
  · rename_i hlow
    simp [hlow]
  · rename_i hlow
    simp [hlow]

theorem Hung.members_of_ne (h : Hung u v top low) (htop : r ≠ top) (hlow : r ≠ low) :
    v.members r = u.members r := by
  ext j
  rw [mem_members, mem_members, h.root_eq]
  split
  · rename_i hj
    simp [hj, htop.symm, hlow.symm]
  · rfl

/-- No element was a member of both. -/
theorem Hung.card_members_top (h : Hung u v top low) :
    (v.members top).card = (u.members top).card + (u.members low).card := by
  rw [h.members_top]
  refine Finset.card_union_of_disjoint (Finset.disjoint_left.mpr fun j htop hlow => ?_)
  rw [mem_members] at htop hlow
  exact h.ne (htop.symm.trans hlow)

end

/-! ## Classes double with the rank -/

/-- A root of rank `r` stands for `2 ^ r` elements at least. -/
def Populated (u : UnionFind n) : Prop :=
  ∀ r, u.IsRoot r → 2 ^ u.rank.get r ≤ (u.members r).card

theorem Populated.congr (h : u.Populated) (hroot : ∀ j, v.root j = u.root j)
    (hrank : v.rank = u.rank) : v.Populated := by
  intro r hr
  rw [← root_eq_self_iff, hroot, root_eq_self_iff] at hr
  rw [hrank, members_congr hroot]
  exact h r hr

/-- A root of rank 0 has itself as a member. -/
theorem populated_new (n : Nat) : (new n).Populated := by
  intro r _
  have hrank : (new n).rank.get r = 0 := Vector.getElem_replicate r.isLt
  have hself : r ∈ (new n).members r := mem_members.mpr root_new
  rw [hrank, Nat.pow_zero]
  exact Finset.card_pos.mpr ⟨r, hself⟩

/-- The rank grows only where two ranks were equal, and then the members have
doubled. -/
theorem Populated.hung {top low : Fin n} (h : u.Populated) (hung : Hung u v top low) :
    v.Populated := by
  intro r hr
  obtain ⟨hroot, hlow⟩ := hung.isRoot_iff.mp hr
  by_cases htop : r = top
  · subst htop
    have htop := h r hung.isRoot_top
    have hlow := h low hung.isRoot_low
    rw [hung.card_members_top, hung.rank_eq]
    split
    · rename_i heq
      rw [heq.2] at hlow
      rw [Nat.pow_succ]
      omega
    · exact Nat.le_add_right_of_le htop
  · rw [hung.members_of_ne htop hlow, hung.rank_eq, if_neg fun heq => htop heq.1.symm]
    exact h r hroot

theorem Populated.find (h : u.Populated) (i : Fin n) : (u.find i).forest.Populated :=
  h.congr (fun _ => root_find) (u.find i).rank_eq

/-- Every union keeps it. -/
theorem Populated.union (h : u.Populated) (a b : Fin n) : (u.union a b).2.Populated := by
  have hfound : (u.found a b).Populated := h.congr (fun _ => root_found) rank_found
  rcases u.union_cases a b with ⟨_, hunion⟩ | ⟨top, low, _, _, hung⟩
  · rw [hunion]
    exact hfound
  · exact hfound.hung hung

/-- No rank is more than the logarithm of the number of elements. -/
theorem Populated.two_pow_rank_le (h : u.Populated) (i : Fin n) : 2 ^ u.rank.get i ≤ n := by
  calc 2 ^ u.rank.get i ≤ 2 ^ u.rank.get (u.root i) :=
        Nat.pow_le_pow_right Nat.two_pos rank_le_rank_root
    _ ≤ (u.members (u.root i)).card := h _ isRoot_root
    _ ≤ n := (Finset.card_le_univ _).trans_eq (Fintype.card_fin n)

end Workflow.Graph.UnionFind
