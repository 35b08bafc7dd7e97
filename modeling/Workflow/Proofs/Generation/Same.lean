/-
Workflow.Proofs.Generation.Same — records that are the same by value.

Documents compared by value form an equivalence, as zeros of either sign
are one value. So do outputs, and `Generation.same_iff` says what is left
open when two records are the same: nothing but the form of their outputs.
-/
import Mathlib.Data.List.Forall2
import Workflow.Proofs.Generation.Registry

namespace Workflow

/-! ## Documents -/

namespace Double

@[simp] theorem sameValue_refl (a : Double) : a.sameValue a := by
  simp [sameValue]

theorem sameValue_trans {a b c : Double} (h : a.sameValue b) (h' : b.sameValue c) :
    a.sameValue c := by
  simp only [sameValue, Bool.or_eq_true, beq_iff_eq, Bool.and_eq_true] at h h' ⊢
  rcases h with rfl | ⟨ha, hb⟩
  · exact h'
  · rcases h' with rfl | ⟨-, hc⟩
    · exact Or.inr ⟨ha, hb⟩
    · exact Or.inr ⟨ha, hc⟩

end Double

namespace Json

mutual

theorem sameValue_refl (a : Json) : a.sameValue a := by
  cases a with
  | null => rfl
  | bool | int | float | str => simp [sameValue]
  | arr items => exact sameItems_refl items
  | obj fields => exact sameFields_refl fields

theorem sameItems_refl (items : List Json) : sameItems items items := by
  cases items with
  | nil => rfl
  | cons x rest => simp [sameItems, sameValue_refl x, sameItems_refl rest]

theorem sameFields_refl (fields : List (String × Json)) : sameFields fields fields := by
  cases fields with
  | nil => rfl
  | cons field rest =>
    obtain ⟨key, x⟩ := field
    simp [sameFields, sameValue_refl x, sameFields_refl rest]

end

mutual

/-- Each document has a match of its own type only, so the two comparisons
go through the same case. -/
theorem sameValue_trans (a b c : Json) (h : a.sameValue b) (h' : b.sameValue c) :
    a.sameValue c := by
  cases a with
  | arr xs =>
    cases b <;> simp only [sameValue, Bool.false_eq_true] at h
    cases c <;> simp only [sameValue, Bool.false_eq_true] at h' ⊢
    exact sameItems_trans _ _ _ h h'
  | obj xs =>
    cases b <;> simp only [sameValue, Bool.false_eq_true] at h
    cases c <;> simp only [sameValue, Bool.false_eq_true] at h' ⊢
    exact sameFields_trans _ _ _ h h'
  | float x =>
    cases b <;> simp only [sameValue, Bool.false_eq_true] at h
    cases c <;> simp only [sameValue, Bool.false_eq_true] at h' ⊢
    exact Double.sameValue_trans h h'
  | null | bool | int | str =>
    cases b <;> simp only [sameValue, Bool.false_eq_true, beq_iff_eq] at h
    all_goals
      cases c <;> simp only [sameValue, Bool.false_eq_true, beq_iff_eq] at h' ⊢
      try exact h.trans h'
termination_by structural a

/-- Lists are compared item by item. -/
theorem sameItems_trans (xs ys zs : List Json) (h : sameItems xs ys) (h' : sameItems ys zs) :
    sameItems xs zs := by
  cases xs with
  | nil =>
    cases ys with
    | nil => exact h'
    | cons => simp [sameItems] at h
  | cons x xs =>
    cases ys with
    | nil => simp [sameItems] at h
    | cons y ys =>
      cases zs with
      | nil => simp [sameItems] at h'
      | cons z zs =>
        simp only [sameItems, Bool.and_eq_true] at h h' ⊢
        exact ⟨sameValue_trans x y z h.1 h'.1, sameItems_trans xs ys zs h.2 h'.2⟩
termination_by structural xs

theorem sameFields_trans (xs ys zs : List (String × Json)) (h : sameFields xs ys)
    (h' : sameFields ys zs) : sameFields xs zs := by
  cases xs with
  | nil =>
    cases ys with
    | nil => exact h'
    | cons => simp [sameFields] at h
  | cons x xs =>
    obtain ⟨k, x⟩ := x
    cases ys with
    | nil => simp [sameFields] at h
    | cons y ys =>
      obtain ⟨l, y⟩ := y
      cases zs with
      | nil => simp [sameFields] at h'
      | cons z zs =>
        obtain ⟨m, z⟩ := z
        simp only [sameFields, Bool.and_eq_true, beq_iff_eq] at h h' ⊢
        obtain ⟨⟨rfl, hx⟩, hxs⟩ := h
        obtain ⟨⟨rfl, hy⟩, hys⟩ := h'
        exact ⟨⟨rfl, sameValue_trans x y z hx hy⟩, sameFields_trans xs ys zs hxs hys⟩
termination_by structural xs

end

end Json

/-! ## Outputs -/

namespace Output

@[simp] theorem same_refl (a : Output) : a.same a := by
  cases a <;> simp [same, Json.sameValue_refl]

/-- Outputs that are the same as a third are the same. -/
theorem same_trans {a b c : Output} (h : a.same b) (h' : b.same c) : a.same c := by
  cases a with
  | json p x =>
    cases b <;> simp only [same, Bool.and_eq_true, beq_iff_eq, reduceCtorEq] at h
    obtain ⟨rfl, hx⟩ := h
    cases c <;> simp only [same, Bool.and_eq_true, beq_iff_eq, reduceCtorEq] at h' ⊢
    obtain ⟨rfl, hy⟩ := h'
    exact ⟨rfl, Json.sameValue_trans _ _ _ hx hy⟩
  | text p content =>
    obtain rfl : Output.text p content = b := by simpa [same] using h
    exact h'
  | image p contentType uri =>
    obtain rfl : Output.image p contentType uri = b := by simpa [same] using h
    exact h'

end Output

/-! ## Records -/

namespace Generation

/-- Outputs that are the same, one by one. -/
abbrev SameOutputs : List Output → List Output → Prop := List.Forall₂ fun a b => a.same b

theorem sameOutputs_trans {xs ys zs : List Output} (h : SameOutputs xs ys)
    (h' : SameOutputs ys zs) : SameOutputs xs zs := by
  induction h generalizing zs with
  | nil => exact h'
  | cons hx _ ih =>
    cases h' with
    | cons hy hrest => exact .cons (Output.same_trans hx hy) (ih hrest)

/-- A record that is the same may only have its outputs in another form. -/
theorem same_iff {g g' : Generation} :
    g.same g' ↔ ∃ outputs, g' = { g with outputs } ∧ SameOutputs g.outputs outputs := by
  have hzip (xs ys : List Output) : xs.length = ys.length ∧
      (xs.zip ys).all (fun p => p.1.same p.2) ↔ SameOutputs xs ys := by
    simp [SameOutputs, List.forall₂_iff_zip, List.all_eq_true]
  simp only [same, Bool.and_eq_true, beq_iff_eq, and_assoc]
  constructor
  · rintro ⟨hfields, houtputs⟩
    refine ⟨g'.outputs, ?_, (hzip ..).mp houtputs⟩
    simp only [mk.injEq] at hfields
    cases g'
    simp_all
  · rintro ⟨outputs, rfl, houtputs⟩
    exact ⟨rfl, (hzip ..).mpr houtputs⟩

end Generation

end Workflow
