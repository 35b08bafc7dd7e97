/-
Workflow.Proofs.Text.Digits — reading undoes writing, for decimal digits.

* `Timestamp.readNumber_padded` — a padded number in front of other text.
* `Text.readUnsigned_toString` — the position of an item as it stands in a
  path.
-/
import Mathlib.Algebra.Ring.Int.Defs
import Mathlib.Algebra.Ring.Nat
import Workflow.Text.Unsigned
import Workflow.Timestamp

namespace Workflow

namespace Text

/-- The value of digits that follow a number. -/
theorem foldl_digits (ds : List Char) (n : Nat) :
    ds.foldl (fun n c => n * 10 + (c.toNat - '0'.toNat)) n = Nat.ofDigitChars 10 ds n := by
  induction ds generalizing n with
  | nil => simp
  | cons c cs ih => rw [List.foldl_cons, ih, Nat.ofDigitChars_cons, Nat.mul_comm]

/-- Digits have the value that they spell. -/
theorem digitsValue_eq {ds : List Char} (h : ∀ c ∈ ds, c.isDigit) :
    digitsValue ds = some (Nat.ofDigitChars 10 ds 0) := by
  have hfrom (n : Nat) : ds.foldlM (fun n c =>
      if c.isDigit then some (n * 10 + (c.toNat - '0'.toNat)) else none) n =
      some (Nat.ofDigitChars 10 ds n) := by
    induction ds generalizing n with
    | nil => simp
    | cons c cs ih =>
      rw [List.foldlM_cons, if_pos (h c List.mem_cons_self), Nat.ofDigitChars_cons, Nat.mul_comm]
      exact ih (fun d hd => h d (List.mem_cons_of_mem _ hd)) _
  exact hfrom 0

theorem isDigit_of_mem_toDigits {n : Nat} {c : Char} (h : c ∈ Nat.toDigits 10 n) : c.isDigit :=
  Nat.isDigit_of_mem_toDigits (by decide) (by decide) h

/-- A written number is read if 64 bits can hold it. -/
theorem readUnsigned_toString (n : Nat) :
    readUnsigned (toString n).toList = if n < 2 ^ 64 then some n else none := by
  rw [Nat.toString_eq_repr, Nat.toList_repr]
  have hvalue : digitsValue (Nat.toDigits 10 n) = some n := by
    rw [digitsValue_eq fun d hd => isDigit_of_mem_toDigits hd, Nat.ofDigitChars_ten_toDigits]
  cases hd : Nat.toDigits 10 n with
  | nil => exact absurd hd Nat.toDigits_ne_nil
  | cons c cs =>
    have hc : c.isDigit := isDigit_of_mem_toDigits (hd ▸ List.mem_cons_self)
    have hplus : c ≠ '+' := by
      rintro rfl
      exact absurd hc (by decide)
    rw [hd] at hvalue
    simp [readUnsigned, hplus, hvalue]

end Text

namespace Timestamp

/-! ## Padded numbers -/

theorem isDigit_of_mem_padded {width n : Nat} {c : Char} (h : c ∈ padded width n) : c.isDigit := by
  rcases List.mem_append.mp h with hz | hd
  · rw [List.eq_of_mem_replicate hz]
    decide
  · exact Text.isDigit_of_mem_toDigits hd

theorem length_padded {width n : Nat} (hw : 0 < width) (h : n < 10 ^ width) :
    (padded width n).length = width := by
  have hle := (Nat.length_toDigits_le_iff (by decide) hw).mpr h
  rw [padded, List.length_append, List.length_replicate]
  omega

theorem padded_ne_nil (width n : Nat) : padded width n ≠ [] := by
  simp [padded]

theorem ofDigitChars_padded (width n : Nat) : Nat.ofDigitChars 10 (padded width n) 0 = n := by
  rw [padded, Nat.ofDigitChars_append, Nat.ofDigitChars_replicate_zero, Nat.mul_zero,
    Nat.ofDigitChars_ten_toDigits]

/-- The digits end where something else comes. -/
theorem takeWhile_digits {ds rest : List Char} (hds : ∀ c ∈ ds, c.isDigit)
    (hrest : ∀ c ∈ rest.head?, c.isDigit = false) : (ds ++ rest).takeWhile Char.isDigit = ds := by
  rw [List.takeWhile_append_of_pos hds]
  cases rest with
  | nil => simp
  | cons c cs => simp [hrest c rfl]

/-- Digits are read up to the limit or up to the first other character. -/
theorem readNumber_digits {limit : Nat} {ds rest : List Char} (hne : ds ≠ [])
    (hds : ∀ c ∈ ds, c.isDigit) (hlimit : ds.length ≤ limit)
    (hrest : ∀ c ∈ rest.head?, c.isDigit = false) :
    readNumber limit (ds ++ rest) = some (Nat.ofDigitChars 10 ds 0, rest) := by
  have htake : ((ds ++ rest).take limit).takeWhile Char.isDigit = ds := by
    rw [List.take_append, List.take_of_length_le hlimit]
    refine takeWhile_digits hds fun c hc => hrest c ?_
    cases hm : limit - ds.length with
    | zero => simp [hm] at hc
    | succ m => rwa [hm, List.head?_take, if_neg (Nat.succ_ne_zero m)] at hc
  have hempty : ds.isEmpty = false := by simpa using hne
  simp only [readNumber, htake, hempty, Text.foldl_digits]
  simp

theorem readNumber_padded {limit width n : Nat} {rest : List Char} (hw : 0 < width)
    (hn : n < 10 ^ width) (hlimit : width ≤ limit)
    (hrest : ∀ c ∈ rest.head?, c.isDigit = false) :
    readNumber limit (padded width n ++ rest) = some (n, rest) := by
  rw [readNumber_digits (padded_ne_nil width n) (fun _ => isDigit_of_mem_padded)
    (by rwa [length_padded hw hn]) hrest, ofDigitChars_padded]

end Timestamp

end Workflow
