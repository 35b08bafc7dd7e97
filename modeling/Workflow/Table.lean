/-
Workflow.Table — finite maps with few entries.

A `Table` lists its entries, each key once as long as it is built by
`insert` and `erase`. Look-ups after a change are given by one equation
for each of them.
-/
namespace Workflow

/-- The entries of a finite map, in the order in which their keys came. -/
structure Table (κ α : Type) where
  entries : List (κ × α)
deriving DecidableEq, Repr, Inhabited

namespace Table

variable {κ α : Type} [DecidableEq κ]

def empty : Table κ α := ⟨[]⟩

/-- The first value of a key in a list of entries. -/
def lookup (k : κ) : List (κ × α) → Option α
  | [] => none
  | (l, a) :: rest => if l = k then some a else lookup k rest

/-- Replaces the value of a key where it stands, or adds it at the end. -/
def put (k : κ) (a : α) : List (κ × α) → List (κ × α)
  | [] => [(k, a)]
  | (l, b) :: rest => if l = k then (k, a) :: rest else (l, b) :: put k a rest

def get? (t : Table κ α) (k : κ) : Option α := lookup k t.entries

def contains (t : Table κ α) (k : κ) : Bool := (t.get? k).isSome

def insert (t : Table κ α) (k : κ) (a : α) : Table κ α := ⟨put k a t.entries⟩

def erase (t : Table κ α) (k : κ) : Table κ α := ⟨t.entries.filter (·.1 ≠ k)⟩

def keys (t : Table κ α) : List κ := t.entries.map (·.1)

/-! ## Look-ups after a change -/

@[simp] theorem get?_empty (k : κ) : (empty : Table κ α).get? k = none := rfl

/-- An insertion is seen under its own key only. -/
theorem get?_insert (t : Table κ α) (k l : κ) (a : α) :
    (t.insert k a).get? l = if k = l then some a else t.get? l := by
  obtain ⟨entries⟩ := t
  simp only [get?, insert]
  induction entries with
  | nil => rfl
  | cons e rest ih =>
    obtain ⟨m, b⟩ := e
    unfold put
    by_cases h : m = k
    · subst h
      simp only [if_true, lookup]
      split <;> rfl
    · simp only [h, if_false, lookup, ih]
      by_cases hm : m = l
      · subst hm
        simp [Ne.symm h]
      · simp [hm]

theorem get?_erase (t : Table κ α) (k l : κ) :
    (t.erase k).get? l = if k = l then none else t.get? l := by
  obtain ⟨entries⟩ := t
  simp only [get?, erase]
  induction entries with
  | nil => simp [lookup]
  | cons e rest ih =>
    obtain ⟨m, b⟩ := e
    by_cases h : m = k
    · subst h
      simp only [ne_eq, not_true_eq_false, decide_false, Bool.false_eq_true, not_false_eq_true,
        List.filter_cons_of_neg, ih, lookup]
      split <;> rfl
    · simp only [ne_eq, h, not_false_eq_true, decide_true, List.filter_cons_of_pos, lookup, ih]
      by_cases hm : m = l
      · subst hm
        simp [Ne.symm h]
      · simp [hm]

@[simp] theorem get?_insert_self (t : Table κ α) (k : κ) (a : α) :
    (t.insert k a).get? k = some a := by
  simp [get?_insert]

theorem get?_insert_of_ne {t : Table κ α} {k l : κ} {a : α} (h : k ≠ l) :
    (t.insert k a).get? l = t.get? l := by
  simp [get?_insert, h]

/-! ## Order of the entries -/

/-- A key that is there keeps its place, a new one goes to the end. -/
theorem keys_insert (t : Table κ α) (k : κ) (a : α) :
    (t.insert k a).keys = if k ∈ t.keys then t.keys else t.keys ++ [k] := by
  obtain ⟨entries⟩ := t
  simp only [keys, insert]
  induction entries with
  | nil => rfl
  | cons e rest ih =>
    obtain ⟨l, b⟩ := e
    unfold put
    by_cases h : l = k
    · simp [h]
    · simp only [h, if_false, List.map_cons, ih, List.mem_cons, Ne.symm h, false_or]
      by_cases hk : k ∈ rest.map (·.1) <;> simp [hk]

theorem get?_eq_none {t : Table κ α} {k : κ} (h : k ∉ t.keys) : t.get? k = none := by
  obtain ⟨entries⟩ := t
  simp only [keys, get?] at h ⊢
  induction entries with
  | nil => rfl
  | cons e rest ih =>
    rw [List.map_cons, List.mem_cons, not_or] at h
    rw [lookup, if_neg (Ne.symm h.1), ih h.2]

/-- Where each key is listed once, keys and look-ups make the entries. -/
theorem entries_eq_map {t : Table κ α} (hkeys : t.keys.Nodup) {value : κ → α}
    (h : ∀ k ∈ t.keys, t.get? k = some (value k)) :
    t.entries = t.keys.map fun k => (k, value k) := by
  obtain ⟨entries⟩ := t
  simp only [keys, get?] at hkeys h ⊢
  induction entries with
  | nil => rfl
  | cons e rest ih =>
    obtain ⟨l, b⟩ := e
    obtain ⟨hl, hrest⟩ := List.nodup_cons.mp hkeys
    have hvalue : value l = b := by simpa [lookup, eq_comm] using h l List.mem_cons_self
    rw [List.map_cons, List.map_cons, ← hvalue, ← ih hrest]
    intro k hk
    have hne : l ≠ k := fun heq => hl (heq ▸ hk)
    simpa [lookup, hne] using h k (List.mem_cons_of_mem _ hk)

end Table

end Workflow
