/-
Workflow.Graph.UnionFind — disjoint classes of `n` elements.

Each element points to a parent; a class is a tree, and its root stands
for it. Ranks grow along the pointers, so that every walk to a root ends.

* `find` gives the root of an element and makes every element on the way
  point to it.
* `union` merges two classes: the root of lesser rank gets the other one
  as its parent, and between equals the first root stays and gains a rank.
-/
namespace Workflow.Graph

/-- A forest on `n` elements. -/
structure UnionFind (n : Nat) where
  parent : Vector (Fin n) n
  rank : Vector Nat n
  /-- An upper bound of the ranks. -/
  height : Nat
  rank_lt : ∀ i : Fin n, parent[i] ≠ i → rank[i] < rank[parent[i]]
  rank_le : ∀ i : Fin n, rank[i] ≤ height

namespace UnionFind

variable {n : Nat}

/-- Every element alone. -/
def new (n : Nat) : UnionFind n where
  parent := Vector.ofFn id
  rank := Vector.replicate n 0
  height := 0
  rank_lt := by simp
  rank_le := by simp

/-- Whether an element is the root of its class. -/
def IsRoot (u : UnionFind n) (i : Fin n) : Prop := u.parent[i] = i

instance (u : UnionFind n) (i : Fin n) : Decidable (u.IsRoot i) :=
  inferInstanceAs (Decidable (u.parent[i] = i))

/-- The root of the class of an element. -/
def root (u : UnionFind n) (i : Fin n) : Fin n :=
  if h : u.parent[i] = i then i else u.root u.parent[i]
termination_by u.height - u.rank[i]
decreasing_by
  have h₁ := u.rank_lt i h
  have h₂ := u.rank_le u.parent[i]
  omega

/-- Points an element to another one of greater rank. -/
def setParent (u : UnionFind n) (i r : Fin n) (h : u.rank[i] < u.rank[r]) : UnionFind n where
  parent := u.parent.set i r
  rank := u.rank
  height := u.height
  rank_lt := by
    intro j hj
    by_cases e : i.val = j.val
    · have : i = j := Fin.ext e
      subst this
      simpa using h
    · simp only [Fin.getElem_fin, Vector.getElem_set, e, if_false] at hj ⊢
      exact u.rank_lt j hj
  rank_le := u.rank_le

/-- What `find` answers for `i`: the new forest has the same ranks and
keeps every root, and `root` is one of its roots, above `i` or `i`
itself. -/
structure Found (u : UnionFind n) (i : Fin n) where
  forest : UnionFind n
  root : Fin n
  rank_eq : forest.rank = u.rank
  keeps : ∀ j, u.IsRoot j → forest.IsRoot j
  isRoot : forest.IsRoot root
  above : i = root ∨ u.rank[i] < u.rank[root]

/-- The root of the class of an element, and the forest in which all
elements on the way point to it. -/
def find (u : UnionFind n) (i : Fin n) : Found u i :=
  if h : u.parent[i] = i then
    { forest := u, root := i, rank_eq := rfl, keeps := fun _ hj => hj, isRoot := h,
      above := .inl rfl }
  else
    let up := u.find u.parent[i]
    have hlt : u.rank[i] < u.rank[up.root] := by
      have h₁ := u.rank_lt i h
      rcases up.above with e | h₂
      · have e' := congrArg (fun j : Fin n => u.rank[j]) e
        exact Nat.lt_of_lt_of_eq h₁ e'
      · exact Nat.lt_trans h₁ h₂
    have hlt' : up.forest.rank[i] < up.forest.rank[up.root] := by simpa [up.rank_eq] using hlt
    have hne : i ≠ up.root := by
      intro e
      exact Nat.ne_of_lt hlt (congrArg (fun j : Fin n => u.rank[j]) e)
    { forest := up.forest.setParent i up.root hlt'
      root := up.root
      rank_eq := up.rank_eq
      keeps := by
        intro j hj
        have hij : i.val ≠ j.val := by
          intro e
          have : i = j := Fin.ext e
          subst this
          exact h hj
        have := up.keeps j hj
        simpa [IsRoot, setParent, Vector.getElem_set, hij] using this
      isRoot := by
        have hij : i.val ≠ up.root.val := fun e => hne (Fin.ext e)
        have := up.isRoot
        simpa [IsRoot, setParent, Vector.getElem_set, hij] using this
      above := .inr hlt }
termination_by u.height - u.rank[i]
decreasing_by
  have h₁ := u.rank_lt i h
  have h₂ := u.rank_le u.parent[i]
  omega

/-- Makes one root the parent of another one of equal rank, and raises the
rank of the first. -/
def raise (u : UnionFind n) (a b : Fin n) (ha : u.IsRoot a) (hb : u.rank[b] = u.rank[a]) :
    UnionFind n where
  parent := u.parent.set b a
  rank := u.rank.set a (u.rank[a] + 1)
  height := max u.height (u.rank[a] + 1)
  rank_lt := by
    intro j hj
    have ha' : u.parent[a.val] = a := ha
    have hb' : u.rank[b.val] = u.rank[a.val] := hb
    by_cases eb : b.val = j.val
    · have : b = j := Fin.ext eb
      subst this
      by_cases eab : a.val = b.val
      · simp [eab, Fin.ext_iff] at hj
      · simp [eab, hb']
    · simp only [Fin.getElem_fin, Vector.getElem_set, eb, if_false] at hj ⊢
      have h := u.rank_lt j hj
      have hja : a.val ≠ j.val := by
        intro e
        have : a = j := Fin.ext e
        subst this
        exact hj ha'
      simp only [hja, if_false]
      by_cases ep : a.val = (u.parent[j.val]).val
      · simp only [ep, if_true]
        have : u.rank[j.val] < u.rank[(u.parent[j.val]).val] := h
        omega
      · simp only [ep, if_false]
        exact h
  rank_le := by
    intro j
    have h := u.rank_le j
    simp only [Fin.getElem_fin, Vector.getElem_set] at h ⊢
    split <;> omega

/-- Merges the classes of two elements. The answer tells whether they were
apart. -/
def union (u : UnionFind n) (a b : Fin n) : Bool × UnionFind n :=
  let fa := u.find a
  let fb := fa.forest.find b
  let v := fb.forest
  have ha : v.IsRoot fa.root := fb.keeps _ fa.isRoot
  if fa.root = fb.root then (false, v)
  else if h : v.rank[fa.root] < v.rank[fb.root] then (true, v.setParent fa.root fb.root h)
  else if h' : v.rank[fb.root] < v.rank[fa.root] then (true, v.setParent fb.root fa.root h')
  else (true, v.raise fa.root fb.root ha (by omega))

end UnionFind

end Workflow.Graph
