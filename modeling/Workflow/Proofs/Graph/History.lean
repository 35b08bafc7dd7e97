/-
Workflow.Proofs.Graph.History — a forest after any calls.

A history starts with every element alone, and finds and unions follow in any
order. The unions among them generate an equivalence, `Joined`, without the
forest that computes it.

* `represents_after`, `populated_after` — after any calls the classes of the
  forest are those of this equivalence, and they are as large as the ranks of
  their roots ask for.
* `after_stored` — calls on bare memory lead to the same forest, as long as its
  elements can be numbered by a machine word.
* `forest_after_calls` — what holds after any calls, and what the next call
  answers.
-/
import Mathlib.Data.List.Induction
import Workflow.Proofs.Graph.Rank
import Workflow.Proofs.Graph.Stored

namespace Workflow.Graph

open UnionFind (climb shorten)

variable {n : Nat}

/-- A call on a forest. -/
inductive Call (n : Nat) where
  | find (i : Fin n)
  | union (a b : Fin n)

/-- Two elements that the unions among the calls have brought together. -/
def Joined (calls : List (Call n)) : Fin n → Fin n → Prop :=
  Relation.EqvGen fun a b => .union a b ∈ calls

namespace Stored

/-- What a call leaves of the memory, if it ends. -/
def call (s : Stored n) : Call n → Part (Stored n)
  | .find i => (s.find i).map (·.2)
  | .union a b => (s.union a b).map (·.2)

/-- The memory after calls on elements that were alone at first. -/
def after (calls : List (Call n)) : Part (Stored n) := calls.foldlM call (new n)

theorem after_concat (calls : List (Call n)) (c : Call n) :
    after (calls ++ [c]) = (after calls).bind (·.call c) := by
  simp [after, List.foldlM_append]

end Stored

namespace UnionFind

variable {u : UnionFind n}

/-- What a call leaves of a forest. -/
def call (u : UnionFind n) : Call n → UnionFind n
  | .find i => (u.find i).forest
  | .union a b => (u.union a b).2

/-- The forest after calls on elements that were alone at first. -/
def after (calls : List (Call n)) : UnionFind n := calls.foldl call (new n)

theorem after_concat (calls : List (Call n)) (c : Call n) :
    after (calls ++ [c]) = (after calls).call c := by
  simp [after]

/-! ## Classes and ranks -/

theorem Represents.find {R : Fin n → Fin n → Prop} (h : u.Represents R) (i : Fin n) :
    (u.find i).forest.Represents R := by
  intro a b
  rw [root_find, root_find]
  exact h a b

/-- The classes of a history are generated by its unions. -/
theorem represents_after (calls : List (Call n)) :
    (after calls).Represents fun a b => .union a b ∈ calls := by
  induction calls using List.reverseRecOn with
  | nil => exact (represents_new n).congr fun a b => by simp
  | append_singleton calls c ih =>
    rw [after_concat]
    cases c with
    | find i => exact (ih.find i).congr fun a b => by simp
    | union a b => exact (ih.union a b).congr fun a' b' => by simp

theorem root_after_eq_iff {calls : List (Call n)} {a b : Fin n} :
    (after calls).root a = (after calls).root b ↔ Joined calls a b :=
  represents_after calls a b

/-- The counting of members is kept by every call. -/
theorem populated_after (calls : List (Call n)) : (after calls).Populated := by
  induction calls using List.reverseRecOn with
  | nil => exact populated_new n
  | append_singleton calls c ih =>
    rw [after_concat]
    cases c with
    | find i => exact ih.find i
    | union a b => exact ih.union a b

/-- After a union its two elements are in one class. -/
theorem root_union_eq (u : UnionFind n) (a b : Fin n) :
    (u.union a b).2.root a = (u.union a b).2.root b := by
  obtain ⟨r, _, hroot⟩ := u.root_union a b
  simp [hroot]

/-! ## Calls on bare memory -/

/-- A rank that counts members with a power of two fits into a byte. -/
theorem Populated.fits (h : u.Populated) (hn : n ≤ 2 ^ 64) : u.Fits := by
  intro i
  have hpow : 2 ^ u.rank.get i ≤ 2 ^ 64 := (h.two_pow_rank_le i).trans hn
  have hrank : u.rank.get i ≤ 64 := (Nat.pow_le_pow_iff_right (by decide)).mp hpow
  exact Nat.lt_of_le_of_lt hrank (by decide)

theorem fits_after (hn : n ≤ 2 ^ 64) (calls : List (Call n)) : (after calls).Fits :=
  (populated_after calls).fits hn

/-- A call on the stored form is the call on the forest, if its ranks fit. -/
theorem call_stored {c : Call n} (h : (u.call c).Fits) :
    u.stored.call c = Part.some (u.call c).stored := by
  cases c with
  | find i => rw [Stored.call, find_stored, Part.map_some, call]
  | union a b => rw [Stored.call, union_stored h, Part.map_some, call]

theorem after_stored (hn : n ≤ 2 ^ 64) (calls : List (Call n)) :
    Stored.after calls = Part.some (after calls).stored := by
  induction calls using List.reverseRecOn with
  | nil => exact congrArg Part.some stored_new.symm
  | append_singleton calls c ih =>
    have hfits : ((after calls).call c).Fits := after_concat calls c ▸ fits_after hn _
    rw [Stored.after_concat, ih, Part.bind_some, call_stored hfits, after_concat]

/-- **A forest after any calls.**

* Its pointers lead into no circle, so that both walks of `find` end, with the
  root that it answers and the pointers that it leaves.
* Finding a root changes no root, and two elements have the same one just if
  the unions so far have brought them together.
* A union answers true just if it merges two classes that were apart.
* A root of rank `r` stands for `2 ^ r` elements at least, so that no byte runs
  over if a machine word can number the elements: in bare memory the same
  calls lead to the same forest, and the next one has the same answer. -/
theorem forest_after_calls (n : Nat) (calls : List (Call n)) :
    let u := after calls
    ((∀ i, ¬ Relation.TransGen u.Under i i) ∧
      ∀ i, climb u.parent i = Part.some (u.find i).root ∧
        shorten (u.find i).root (u.parent, i) = Part.some (u.find i).forest.parent) ∧
    (∀ i, (u.find i).root = u.root i ∧ ∀ j, (u.find i).forest.root j = u.root j) ∧
    (∀ a b, (u.find a).root = ((u.find a).forest.find b).root ↔ Joined calls a b) ∧
    (∀ a b, (u.union a b).1 = true ↔
      ¬ Joined calls a b ∧ (u.union a b).2.root a = (u.union a b).2.root b) ∧
    (∀ r, u.IsRoot r → 2 ^ u.rank.get r ≤ (u.members r).card) ∧
    (n ≤ 2 ^ 64 → Stored.after calls = Part.some u.stored ∧
      (∀ i, (u.stored.rank.get i).toNat = u.rank.get i) ∧
      (∀ i, u.stored.find i = Part.some ((u.find i).root, (u.find i).forest.stored)) ∧
      ∀ a b, u.stored.union a b = Part.some ((u.union a b).1, (u.union a b).2.stored)) := by
  intro u
  refine ⟨⟨fun i => not_transGen_under, fun i => ?_⟩, fun i => ⟨find_root, fun j => root_find⟩,
    fun a b => ?_, fun a b => ?_, populated_after calls, fun hn => ?_⟩
  · rw [find_root]
    exact ⟨climb_parent u i, shorten_parent u i⟩
  · rw [find_root, find_root, root_find]
    exact root_after_eq_iff
  · rw [union_eq_true_iff, ← root_after_eq_iff]
    exact ⟨fun hne => ⟨hne, root_union_eq u a b⟩, And.left⟩
  · -- one more union still fits, since the history with it is one as well
    refine ⟨after_stored hn calls, (fits_after hn calls).toNat_rank, find_stored u,
      fun a b => union_stored ?_⟩
    have hfits : (after (calls ++ [.union a b])).Fits := fits_after hn _
    rw [after_concat] at hfits
    exact hfits

/-- Two pairs, a pair of pairs, and an element that stays alone. -/
def sampleCalls : List (Call 5) := [.union 0 1, .union 2 3, .union 0 2, .find 3, .union 3 1]

theorem sample_forest_after_calls : 5 ≤ 2 ^ 64 ∧
    Stored.after sampleCalls = Part.some ⟨#v[0, 0, 0, 0, 4], #v[2, 0, 1, 0, 0]⟩ ∧
    Joined sampleCalls 1 3 ∧ ¬ Joined sampleCalls 1 4 := by
  obtain ⟨_, _, hfind, _, _, hbytes⟩ := forest_after_calls 5 sampleCalls
  have hsize : 5 ≤ 2 ^ 64 := by decide
  have hstored : (after sampleCalls).stored = ⟨#v[0, 0, 0, 0, 4], #v[2, 0, 1, 0, 0]⟩ := by
    decide +kernel
  refine ⟨hsize, (hbytes hsize).1.trans (congrArg Part.some hstored), (hfind 1 3).mp ?_,
    mt (hfind 1 4).mpr ?_⟩
  · decide +kernel
  · decide +kernel

end UnionFind

end Workflow.Graph
