/-
Workflow.Proofs.Timestamp — reading the text of a timestamp gives it back.

Each part of the text is read by a lemma of its own, with anything behind
it that starts with no digit; `read_text` puts them together.

The reader also takes other spellings of a time, among them offsets, blanks
and fractions of any length. They are not looked at here, apart from what
they have in common with the text that is written.
-/
import Workflow.Proofs.Text.Digits

namespace Workflow

/-- Digits are not blank. -/
theorem Text.isBlank_of_isDigit {c : Char} (h : c.isDigit) : isBlank c = false := by
  simp only [Char.isDigit, Bool.and_eq_true, decide_eq_true_eq, UInt32.le_iff_toNat_le] at h
  have hlow : 48 ≤ c.toNat := h.1
  have hhigh : c.toNat ≤ 57 := h.2
  simp only [isBlank, Bool.or_eq_false_iff, Bool.and_eq_false_iff, decide_eq_false_iff_not,
    beq_eq_false_iff_ne]
  omega

theorem Text.trimLeft_of_isDigit {cs : List Char} (h : ∀ c ∈ cs.head?, c.isDigit) :
    trimLeft cs = cs := by
  cases cs with
  | nil => rfl
  | cons c cs => simp [trimLeft, Text.isBlank_of_isDigit (h c rfl)]

namespace Timestamp

/-! ## Parts -/

/-- A padded number begins with a digit. -/
theorem isDigit_of_mem_head?_padded {width n : Nat} {rest : List Char} :
    ∀ c ∈ (padded width n ++ rest).head?, c.isDigit := by
  intro c hc
  cases hp : padded width n with
  | nil => exact absurd hp (padded_ne_nil width n)
  | cons d ds =>
    rw [hp] at hc
    cases hc
    exact @isDigit_of_mem_padded width n c (hp ▸ List.mem_cons_self)

theorem trimLeft_padded (width n : Nat) (rest : List Char) :
    Text.trimLeft (padded width n ++ rest) = padded width n ++ rest :=
  Text.trimLeft_of_isDigit isDigit_of_mem_head?_padded

theorem readField_padded {n : Nat} {rest : List Char} (hn : n < 100)
    (hrest : ∀ c ∈ rest.head?, c.isDigit = false) :
    readField (padded 2 n ++ rest) = some (n, rest) := by
  rw [readField, trimLeft_padded]
  exact readNumber_padded (by decide) hn (Nat.le_refl 2) hrest

/-- A number of any length after a sign. -/
theorem readNumber_signed (n : Nat) {rest : List Char}
    (hrest : ∀ c ∈ rest.head?, c.isDigit = false) :
    readNumber (padded 4 n ++ rest).length (padded 4 n ++ rest) = some (n, rest) := by
  rw [readNumber_digits (padded_ne_nil 4 n) (fun _ => isDigit_of_mem_padded)
    (by rw [List.length_append]; omega) hrest, ofDigitChars_padded]

/-- A year is read back, with its sign if it has one. -/
theorem readYear_yearText (year : Int) {rest : List Char}
    (hrest : ∀ c ∈ rest.head?, c.isDigit = false) :
    readYear (yearText year ++ rest) = some (year, rest) := by
  unfold yearText
  split
  · rename_i hyear
    have hread : readNumber 4 (padded 4 year.toNat ++ rest) = some (year.toNat, rest) :=
      readNumber_padded (by decide) (by omega) (Nat.le_refl 4) hrest
    have hvalue : ((year.toNat : Nat) : Int) = year := Int.toNat_of_nonneg hyear.1
    unfold readYear
    rw [trimLeft_padded]
    -- the first character is a digit and hence no sign
    split
    · rename_i cs hcs
      exact absurd (isDigit_of_mem_head?_padded '-' (by rw [hcs]; rfl)) (by decide)
    · rename_i cs hcs
      exact absurd (isDigit_of_mem_head?_padded '+' (by rw [hcs]; rfl)) (by decide)
    · simp [hread, hvalue]
  · have hsigned := readNumber_signed year.natAbs hrest
    split
    · have hvalue : -((year.natAbs : Nat) : Int) = year := by omega
      have htrim : Text.trimLeft ('-' :: (padded 4 year.natAbs ++ rest)) =
        '-' :: (padded 4 year.natAbs ++ rest) := rfl
      simp only [readYear, List.cons_append, htrim, hsigned, hvalue,
        Option.bind_eq_bind, Option.bind_some, Option.pure_def]
    · have hvalue : ((year.natAbs : Nat) : Int) = year := by omega
      have htrim : Text.trimLeft ('+' :: (padded 4 year.natAbs ++ rest)) =
        '+' :: (padded 4 year.natAbs ++ rest) := rfl
      simp only [readYear, List.cons_append, htrim, hsigned, hvalue,
        Option.bind_eq_bind, Option.bind_some, Option.pure_def]

/-- A fraction with some digits is read in billionths. -/
theorem readFraction_padded {width n : Nat} {rest : List Char} (hw : 0 < width) (hlimit : width ≤ 9)
    (hn : n < 10 ^ width) (hrest : ∀ c ∈ rest.head?, c.isDigit = false) :
    readFraction ('.' :: padded width n ++ rest) = some (n * 10 ^ (9 - width), rest) := by
  have hlength := length_padded hw hn
  have hdigits : (padded width n ++ rest).takeWhile Char.isDigit = padded width n :=
    takeWhile_digits (fun _ => isDigit_of_mem_padded) hrest
  simp [readFraction, readNumber_padded hw hn hlimit hrest, hdigits, hlength, hlimit]

/-- The fraction of a second is read back, however many digits it has. -/
theorem readFraction_fractionText {nano : Nat} (hn : nano < 1000000000) {rest : List Char}
    (hrest : ∀ c ∈ rest.head?, c.isDigit = false ∧ c ≠ '.') :
    readFraction (fractionText nano ++ rest) = some (nano, rest) := by
  have hnondigit : ∀ c ∈ rest.head?, c.isDigit = false := fun c hc => (hrest c hc).1
  unfold fractionText
  split
  · rename_i hzero
    subst hzero
    cases rest with
    | nil => rfl
    | cons c cs => simp [readFraction, (hrest c rfl).2]
  · split
    · rename_i hmillis
      rw [readFraction_padded (by decide) (by decide) (by omega) hnondigit]
      have hvalue : nano / 1000000 * 10 ^ (9 - 3) = nano := by omega
      rw [hvalue]
    · split
      · rename_i hmicros
        rw [readFraction_padded (by decide) (by decide) (by omega) hnondigit]
        have hvalue : nano / 1000 * 10 ^ (9 - 6) = nano := by omega
        rw [hvalue]
      · rw [readFraction_padded (by decide) (by decide) (by omega) hnondigit]
        simp

/-- The last character of a text says that the time is universal. -/
theorem readOffset_utc : readOffset (Text.trimLeft ['Z']) = some (0, []) := by decide

/-! ## Whole texts -/

theorem ofFields?_self (t : Timestamp) :
    ofFields? t.year t.month t.day t.hour t.minute t.second t.nano = some t := by
  obtain ⟨year, month, day, hour, minute, second, nano, h1, h2, h3, h4, h5, h6, h7⟩ := t
  rw [ofFields?, dif_pos ⟨h1, h2, h3, h4, h5, h6, h7⟩]

theorem readMark_self {mark : Char} (h : Text.isBlank mark = false) (cs : List Char) :
    readMark mark (mark :: cs) = some cs := by
  simp [readMark, Text.trimLeft, h]

/-- No digit comes right after the seconds. -/
theorem not_isDigit_of_mem_fractionText {nano : Nat} :
    ∀ c ∈ (fractionText nano ++ ['Z']).head?, c.isDigit = false := by
  intro c hc
  unfold fractionText at hc
  split at hc
  · cases hc
    decide
  · split at hc
    · cases hc
      decide
    · split at hc <;> cases hc <;> decide

/-- A leap second is written as the second 60, and read as one. -/
theorem second_eq (t : Timestamp) :
    (if t.second + t.nano / 1000000000 = 60 then (59, t.nano % 1000000000 + 1000000000)
      else (t.second + t.nano / 1000000000, t.nano % 1000000000)) = (t.second, t.nano) := by
  have hsecond := t.second_lt
  have hnano := t.nano_lt
  split at hnano
  · split <;> simp only [Prod.mk.injEq] <;> omega
  · rw [if_neg (by omega)]
    simp only [Prod.mk.injEq]
    omega

/-- What is written is read back, field by field. -/
theorem readChars_chars (t : Timestamp) : readChars t.chars = some t := by
  have hmark {c : Char} (hc : c.isDigit = false) (cs : List Char) :
      ∀ d ∈ (c :: cs).head?, d.isDigit = false := by
    rintro d ⟨⟩
    exact hc
  have hyear (cs : List Char) :
      readYear (yearText t.year ++ '-' :: cs) = some (t.year, '-' :: cs) :=
    readYear_yearText t.year (hmark rfl cs)
  have hmonth (cs : List Char) : readField (padded 2 t.month ++ '-' :: cs) =
      some (t.month, '-' :: cs) :=
    readField_padded (by have := t.month_mem; omega) (hmark rfl cs)
  have hday (cs : List Char) :
      readField (padded 2 t.day ++ 'T' :: cs) = some (t.day, 'T' :: cs) := by
    refine readField_padded ?_ (hmark rfl cs)
    have hbound : daysInMonth t.year t.month ≤ 31 := by
      unfold daysInMonth
      split
      · split <;> omega
      · split <;> omega
    have := t.day_mem
    omega
  have hhour (cs : List Char) : readField (padded 2 t.hour ++ ':' :: cs) =
      some (t.hour, ':' :: cs) :=
    readField_padded (by have := t.hour_lt; omega) (hmark rfl cs)
  have hminute (cs : List Char) : readField (padded 2 t.minute ++ ':' :: cs) =
      some (t.minute, ':' :: cs) :=
    readField_padded (by have := t.minute_lt; omega) (hmark rfl cs)
  have hsecond : readField (padded 2 (t.second + t.nano / 1000000000) ++
      (fractionText (t.nano % 1000000000) ++ ['Z'])) =
      some (t.second + t.nano / 1000000000, fractionText (t.nano % 1000000000) ++ ['Z']) := by
    refine readField_padded ?_ not_isDigit_of_mem_fractionText
    have hlt := t.second_lt
    have hnano := t.nano_lt
    split at hnano <;> omega
  have hfraction : readFraction (fractionText (t.nano % 1000000000) ++ ['Z']) =
      some (t.nano % 1000000000, ['Z']) :=
    readFraction_fractionText (Nat.mod_lt _ (by decide)) (by rintro c ⟨⟩; decide)
  have hdash : ∀ cs, readMark '-' ('-' :: cs) = some cs := readMark_self rfl
  have hcolon : ∀ cs, readMark ':' (':' :: cs) = some cs := readMark_self rfl
  unfold readChars
  simp only [chars, List.append_assoc, List.cons_append]
  -- one field after the other
  refine Option.bind_eq_some_iff.mpr ⟨_, hyear _, ?_⟩
  refine Option.bind_eq_some_iff.mpr ⟨_, hdash _, ?_⟩
  refine Option.bind_eq_some_iff.mpr ⟨_, hmonth _, ?_⟩
  refine Option.bind_eq_some_iff.mpr ⟨_, hdash _, ?_⟩
  refine Option.bind_eq_some_iff.mpr ⟨_, hday _, ?_⟩
  refine Option.bind_eq_some_iff.mpr ⟨_, hhour _, ?_⟩
  refine Option.bind_eq_some_iff.mpr ⟨_, hcolon _, ?_⟩
  refine Option.bind_eq_some_iff.mpr ⟨_, hminute _, ?_⟩
  refine Option.bind_eq_some_iff.mpr ⟨_, hcolon _, ?_⟩
  refine Option.bind_eq_some_iff.mpr ⟨_, hsecond, ?_⟩
  refine Option.bind_eq_some_iff.mpr ⟨_, hfraction, ?_⟩
  refine Option.bind_eq_some_iff.mpr ⟨_, readOffset_utc, ?_⟩
  show (let shown := if t.second + t.nano / 1000000000 = 60
    then (59, t.nano % 1000000000 + 1000000000)
    else (t.second + t.nano / 1000000000, t.nano % 1000000000)
    (ofFields? t.year t.month t.day t.hour t.minute shown.1 shown.2).bind (ofLocal · 0)) = some t
  rw [second_eq]
  exact Option.bind_eq_some_iff.mpr ⟨t, ofFields?_self t, rfl⟩

theorem read_text (t : Timestamp) : read t.text = some t := by
  rw [read, text, String.toList_ofList]
  exact readChars_chars t

end Timestamp

end Workflow
