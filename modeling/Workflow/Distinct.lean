/-
Workflow.Distinct — lists without repeats.

`distinctBy key` keeps, of the elements with one key, the first one.

What is kept stands in the order of the list. Nodes are looked up by
identifier in the same way, by the first one, so that leaving out the later
ones changes no look-up.
-/
namespace Workflow

variable {α β : Type} [DecidableEq β]

/-- The elements whose key has not occurred before. -/
def distinctBy (key : α → β) : List α → List α
  | [] => []
  | a :: rest => a :: (distinctBy key rest).filter (key · ≠ key a)

/-- The first occurrence of each element. -/
def distinct (as : List β) : List β := distinctBy id as

@[simp] theorem distinctBy_nil (key : α → β) : distinctBy key [] = [] := rfl

theorem distinctBy_cons (key : α → β) (a : α) (rest : List α) :
    distinctBy key (a :: rest) = a :: (distinctBy key rest).filter (key · ≠ key a) := rfl

/-- Nothing is left that was not there. -/
theorem mem_of_mem_distinctBy {key : α → β} {a : α} {as : List α} (h : a ∈ distinctBy key as) :
    a ∈ as := by
  induction as with
  | nil => simp at h
  | cons b rest ih =>
    simp only [distinctBy_cons, List.mem_cons, List.mem_filter] at h
    rcases h with rfl | ⟨h, _⟩
    · exact List.mem_cons_self
    · exact List.mem_cons_of_mem _ (ih h)

@[simp] theorem mem_distinct {a : β} {as : List β} : a ∈ distinct as ↔ a ∈ as := by
  induction as with
  | nil => simp [distinct]
  | cons b rest ih =>
    simp only [distinct] at ih
    by_cases h : a = b <;> simp [distinct, distinctBy_cons, h, ih]

/-- An element at the end is kept if it has not occurred before. -/
theorem distinct_concat (as : List β) (b : β) :
    distinct (as ++ [b]) = if b ∈ as then distinct as else distinct as ++ [b] := by
  induction as with
  | nil => rfl
  | cons a rest ih =>
    simp only [distinct] at ih
    simp only [distinct, List.cons_append, distinctBy_cons, ih, List.mem_cons]
    by_cases hmem : b ∈ rest
    · simp [hmem]
    · rw [if_neg hmem]
      by_cases heq : b = a
      · simp [heq]
      · simp [hmem, heq]

end Workflow
