/-
Workflow.Proofs.Graph.Stored — a forest in bare memory.

`UnionFind` carries the proof that ranks grow along its pointers, and its ranks
are numbers. `Stored` is what lies in memory: pointers, a byte of rank for each
element, and no promise about them. A call has no answer if one of the walks
of `find` goes on for ever, or if the byte of a rank runs over.

* `find_stored` — on a stored forest `find` has an answer, that of the forest.
* `union_stored` — so has `union`, as long as the ranks of the forest after it
  fit into bytes.
-/
import Workflow.Proofs.Graph.Compression

namespace Workflow.Graph

open UnionFind (climb shorten)

variable {n : Nat}

/-- A forest as it lies in memory: a pointer and a byte of rank for each
element. -/
structure Stored (n : Nat) where
  parent : Vector (Fin n) n
  rank : Vector UInt8 n
deriving DecidableEq

namespace Stored

/-- Every element alone. -/
def new (n : Nat) : Stored n where
  parent := Vector.ofFn id
  rank := Vector.replicate n 0

/-- The root above an element, after which all elements on the way point to
it. -/
def find (s : Stored n) (i : Fin n) : Part (Fin n × Stored n) := do
  let root ← climb s.parent i
  let parent ← shorten root (s.parent, i)
  return (root, { s with parent })

/-- Hangs one of two roots under the other one. No byte can count beyond
255. -/
def link (s : Stored n) (a b : Fin n) : Part (Bool × Stored n) :=
  if a = b then Part.some (false, s)
  else if s.rank.get a < s.rank.get b then
    Part.some (true, { s with parent := s.parent.set a b a.isLt })
  else if s.rank.get b < s.rank.get a then
    Part.some (true, { s with parent := s.parent.set b a b.isLt })
  else if s.rank.get a = 255 then Part.none
  else
    Part.some (true,
      { parent := s.parent.set b a b.isLt, rank := s.rank.set a (s.rank.get a + 1) a.isLt })

/-- Merges the classes of two elements. The answer tells whether they were
apart. -/
def union (s : Stored n) (a b : Fin n) : Part (Bool × Stored n) := do
  let fa ← s.find a
  let fb ← fa.2.find b
  fb.2.link fa.1 fb.1

end Stored

namespace UnionFind

variable {u : UnionFind n} {a b i j : Fin n}

/-- The forest without its proofs, every rank in a byte. -/
def stored (u : UnionFind n) : Stored n where
  parent := u.parent
  rank := u.rank.map UInt8.ofNat

theorem stored_new : (new n).stored = Stored.new n := by
  simp [stored, new, Stored.new]

theorem rank_stored : u.stored.rank.get i = UInt8.ofNat (u.rank.get i) :=
  Vector.getElem_map _ i.isLt

/-- A rank that is raised is raised as a byte. -/
theorem stored_raise (ha : u.IsRoot a) (hb : u.rank.get b = u.rank.get a) :
    (u.raise a b ha hb).stored =
      { parent := u.stored.parent.set b a b.isLt,
        rank := u.stored.rank.set a (u.stored.rank.get a + 1) a.isLt } := by
  rw [rank_stored]
  simp only [stored, raise, Vector.map_set, UInt8.ofNat_add]
  rfl

/-! ## Ranks in bytes -/

/-- Every rank fits into a byte. -/
def Fits (u : UnionFind n) : Prop := ∀ i, u.rank.get i < UInt8.size

theorem Fits.toNat_rank (h : u.Fits) (i : Fin n) :
    (u.stored.rank.get i).toNat = u.rank.get i := by
  rw [rank_stored, UInt8.toNat_ofNat_of_lt' (h i)]

theorem Fits.rank_lt_iff (h : u.Fits) :
    u.stored.rank.get i < u.stored.rank.get j ↔ u.rank.get i < u.rank.get j := by
  rw [rank_stored, rank_stored, UInt8.ofNat_lt_iff_lt (h i) (h j)]

/-- No union lowers a rank. -/
theorem rank_le_rank_union (u : UnionFind n) (a b i : Fin n) :
    u.rank.get i ≤ (u.union a b).2.rank.get i := by
  rcases u.union_cases a b with ⟨_, hunion⟩ | ⟨top, low, _, _, hung⟩
  · exact Nat.le_of_eq (by rw [hunion, rank_found])
  · rw [hung.rank_eq, rank_found]
    split
    · exact Nat.le_succ _
    · exact Nat.le_refl _

theorem Fits.found (h : (u.union a b).2.Fits) : (u.found a b).Fits := by
  intro i
  rw [rank_found]
  exact Nat.lt_of_le_of_lt (u.rank_le_rank_union a b i) (h i)

/-! ## Calls -/

/-- Both loops of the search end, with the root and the shortened ways of the
forest. -/
theorem find_stored (u : UnionFind n) (i : Fin n) :
    u.stored.find i = Part.some ((u.find i).root, (u.find i).forest.stored) := by
  have hclimb : climb u.stored.parent i = Part.some (u.root i) := climb_parent u i
  have hshorten : shorten (u.root i) (u.stored.parent, i) = Part.some (u.find i).forest.parent :=
    shorten_parent u i
  have hrank : (u.find i).forest.stored.rank = u.stored.rank :=
    congrArg (Vector.map UInt8.ofNat) (u.find i).rank_eq
  simp only [Stored.find, hclimb, hshorten, Part.bind_eq_bind, Part.bind_some, find_root,
    ← hrank]
  rfl

/-- Linking roots compares and raises stored ranks as if they were ranks. -/
theorem link_stored (hu : u.Fits) (ha : u.IsRoot a) (h : (u.link a b ha).2.Fits) :
    u.stored.link a b = Part.some ((u.link a b ha).1, (u.link a b ha).2.stored) := by
  revert h
  -- both sides branch on the same comparisons
  simp only [Stored.link, link, hu.rank_lt_iff]
  split
  · exact fun _ => rfl
  · split
    · exact fun _ => rfl
    · split
      · exact fun _ => rfl
      · intro h
        have hbyte : u.stored.rank.get a ≠ 255 := by
          intro heq
          have hmore := h a
          rw [rank_raise, if_pos rfl, ← hu.toNat_rank, heq] at hmore
          exact absurd hmore (by decide)
        rw [if_neg hbyte, stored_raise]

/-- A union of the stored form is the union of the forest, if its ranks fit. -/
theorem union_stored (h : (u.union a b).2.Fits) :
    u.stored.union a b = Part.some ((u.union a b).1, (u.union a b).2.stored) := by
  have hfound : (u.found a b).Fits := h.found
  simp only [Stored.union, find_stored, Part.bind_eq_bind, Part.bind_some, find_root,
    root_find]
  rw [union_eq_link] at h ⊢
  exact link_stored hfound _ h

end UnionFind

end Workflow.Graph
