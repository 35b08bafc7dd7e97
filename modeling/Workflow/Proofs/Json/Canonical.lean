/-
Workflow.Proofs.Json.Canonical — documents whose objects are sorted.

An object is a list of fields, and a list could hold one key twice, or the
keys in any order. `Json.Canonical` says that no object of a document does:
its keys ascend, at every depth.

* `Fields.insert_of_get?` — in sorted fields, setting a field to the value
  that it has changes nothing.
* `canonical_of_read` — every document that is read is canonical. The stack
  of open brackets holds canonical values only, and a member goes to its
  place among sorted ones.
-/
import Workflow.Json.Read
import Workflow.Proofs.Json.Codec

namespace Workflow

/-! ## Sorted fields -/

namespace Fields

variable {α : Type} {key : String} {v : α} {fields : List (String × α)}

/-- The keys ascend, so that none is repeated. -/
def Sorted (fields : List (String × α)) : Prop := fields.Pairwise (·.1 < ·.1)

/-- What is found under a key is a field. -/
theorem mem_of_get? (h : get? key fields = some v) : (key, v) ∈ fields := by
  induction fields with
  | nil => simp [get?] at h
  | cons entry rest ih =>
    obtain ⟨k, x⟩ := entry
    by_cases hk : k = key
    · simp only [get?, hk, if_true, Option.some.injEq] at h
      simp [hk, h]
    · simp only [get?, hk, if_false] at h
      exact List.mem_cons_of_mem _ (ih h)

/-- Writing a field adds no other. -/
theorem mem_insert {entry : String × α} (h : entry ∈ insert key v fields) :
    entry = (key, v) ∨ entry ∈ fields := by
  induction fields with
  | nil => simpa [insert] using h
  | cons first rest ih =>
    obtain ⟨k, x⟩ := first
    by_cases hlt : key < k
    · simpa [insert, hlt] using h
    · by_cases heq : key = k
      · subst heq
        simp only [insert, hlt, if_false, if_true, List.mem_cons] at h
        exact h.imp_right (List.mem_cons_of_mem _)
      · simp only [insert, hlt, heq, if_false, List.mem_cons] at h
        rcases h with rfl | h
        · simp
        · exact (ih h).imp_right (List.mem_cons_of_mem _)

/-- A field is written in its place. -/
theorem Sorted.insert (h : Sorted fields) : Sorted (Fields.insert key v fields) := by
  induction fields with
  | nil => exact List.pairwise_singleton _ _
  | cons first rest ih =>
    obtain ⟨k, x⟩ := first
    obtain ⟨hfirst, hrest⟩ := List.pairwise_cons.mp h
    by_cases hlt : key < k
    · simp only [Fields.insert, hlt, if_true]
      refine List.pairwise_cons.mpr ⟨fun later hlater => ?_, h⟩
      rcases List.mem_cons.mp hlater with rfl | hlater
      · exact hlt
      · exact String.lt_trans hlt (hfirst later hlater)
    · by_cases heq : key = k
      · subst heq
        simp only [Fields.insert, hlt, if_false, if_true]
        exact List.pairwise_cons.mpr ⟨hfirst, hrest⟩
      · have hgt : k < key := String.not_le.mp fun hle => heq (String.le_antisymm hle hlt)
        simp only [Fields.insert, hlt, heq, if_false]
        refine List.pairwise_cons.mpr ⟨fun later hlater => ?_, ih hrest⟩
        rcases mem_insert hlater with rfl | hlater
        · exact hgt
        · exact hfirst later hlater

/-- Setting a field to what it holds. -/
theorem insert_of_get? (h : Sorted fields) (hget : get? key fields = some v) :
    Fields.insert key v fields = fields := by
  induction fields with
  | nil => simp [get?] at hget
  | cons first rest ih =>
    obtain ⟨k, x⟩ := first
    obtain ⟨hfirst, hrest⟩ := List.pairwise_cons.mp h
    by_cases hk : k = key
    · simp only [get?, hk, if_true, Option.some.injEq] at hget
      simp [Fields.insert, hk, hget]
    · simp only [get?, hk, if_false] at hget
      have hlt : k < key := hfirst _ (mem_of_get? hget)
      simp [Fields.insert, String.lt_asymm hlt, Ne.symm hk, ih hrest hget]

end Fields

namespace Json

/-! ## Canonical documents -/

/-- A document with sorted objects only. -/
inductive Canonical : Json → Prop
  | null : Canonical .null
  | bool (value : Bool) : Canonical (.bool value)
  | int (value : Int) : Canonical (.int value)
  | float (value : Double) : Canonical (.float value)
  | str (text : String) : Canonical (.str text)
  | arr {items : List Json} (h : ∀ item ∈ items, Canonical item) : Canonical (.arr items)
  | obj {fields : List (String × Json)} (hsorted : Fields.Sorted fields)
    (h : ∀ field ∈ fields, Canonical field.2) : Canonical (.obj fields)

/-- The fields of a canonical object. -/
structure CanonicalFields (fields : List (String × Json)) : Prop where
  sorted : Fields.Sorted fields
  values : ∀ field ∈ fields, Canonical field.2

variable {doc value : Json} {items : List Json} {fields : List (String × Json)}

theorem Canonical.of_mem (h : Canonical (.arr items)) : ∀ item ∈ items, Canonical item := by
  cases h with
  | arr h => exact h

theorem Canonical.canonicalFields (h : Canonical (.obj fields)) : CanonicalFields fields := by
  cases h with
  | obj hsorted h => exact ⟨hsorted, h⟩

theorem CanonicalFields.obj (h : CanonicalFields fields) : Canonical (.obj fields) :=
  .obj h.sorted h.values

theorem canonicalFields_nil : CanonicalFields [] :=
  ⟨List.Pairwise.nil, fun _ h => absurd h List.not_mem_nil⟩

/-- A canonical value may be written into a canonical object. -/
theorem CanonicalFields.insert (h : CanonicalFields fields) (hvalue : Canonical value)
    (key : String) : CanonicalFields (Fields.insert key value fields) where
  sorted := h.sorted.insert
  values := by
    intro field hfield
    rcases Fields.mem_insert hfield with rfl | hfield
    · exact hvalue
    · exact h.values field hfield

/-! ## Reading

Each token adds a canonical value to the innermost bracket that is open, so
what is read at the end is canonical. -/

/-- What every step of a fold keeps, the fold keeps. -/
theorem of_foldlM {σ τ : Type} {P : σ → Prop} {step : σ → τ → Option σ} {tokens : List τ}
    {state final : σ} (h : tokens.foldlM step state = some final) (hstate : P state)
    (hstep : ∀ t ∈ tokens, ∀ before after, P before → step before t = some after → P after) :
    P final := by
  induction tokens generalizing state with
  | nil =>
    cases h
    exact hstate
  | cons t rest ih =>
    rw [List.foldlM_cons] at h
    obtain ⟨next, hnext, hrest⟩ := Option.bind_eq_some_iff.mp h
    have hkept : P next := hstep t List.mem_cons_self state next hstate hnext
    exact ih hrest hkept fun u hu => hstep u (List.mem_cons_of_mem _ hu)

/-- A token that is no word, or a word for a canonical value. -/
def Token.IsCanonical : Token → Prop
  | .word value => Canonical value
  | _ => True

theorem canonical_floatOfParts {negative : Bool} {whole fraction : List Char} {exponent : Int}
    (h : floatOfParts negative whole fraction exponent = some value) : Canonical value := by
  simp only [floatOfParts, Option.map_eq_some_iff] at h
  obtain ⟨x, -, rfl⟩ := h
  exact .float x

theorem canonical_unsignedNumber {negative : Bool} {cs : List Char}
    (h : unsignedNumber negative cs = some value) : Canonical value := by
  simp only [unsignedNumber] at h
  split at h
  · cases h
  · split at h
    · -- digits only: the float -0, an integer or a float
      generalize (if negative then -(natOfDigits (cs.takeWhile Char.isDigit) : Int)
        else natOfDigits (cs.takeWhile Char.isDigit)) = n at h
      split at h
      · cases h
        exact .float _
      · split at h
        · cases h
          exact .int n
        · exact canonical_floatOfParts h
    · split at h
      · cases h
      · split at h
        · exact canonical_floatOfParts h
        · split at h
          · obtain ⟨_, -, h⟩ := Option.bind_eq_some_iff.mp h
            exact canonical_floatOfParts h
          · cases h
    · split at h
      · obtain ⟨_, -, h⟩ := Option.bind_eq_some_iff.mp h
        exact canonical_floatOfParts h
      · cases h

theorem canonical_wordValue {cs : List Char} (h : wordValue cs = some value) :
    Canonical value := by
  unfold wordValue at h
  split at h
  · cases h
    exact .null
  · cases h
    exact .bool true
  · cases h
    exact .bool false
  · split at h <;> exact canonical_unsignedNumber h

theorem isCanonical_of_lexBlank {c : Char} {state : Lexing} {found : List Token}
    (h : lexBlank c = some (state, found)) : ∀ t ∈ found, t.IsCanonical := by
  unfold lexBlank at h
  split at h
  · cases h
    simp
  · split at h
    · cases h
      simp
    · split at h <;> cases h <;> simp [Token.IsCanonical]

/-- Each character completes canonical tokens only. -/
theorem isCanonical_of_lexChar {before after : Lexing} {c : Char} {found : List Token}
    (h : lexChar before c = some (after, found)) : ∀ t ∈ found, t.IsCanonical := by
  -- only words and texts can be completed by a character; all else goes on
  cases before with
  | blank => exact isCanonical_of_lexBlank h
  | word taken =>
    simp only [lexChar] at h
    split at h
    · cases h
      simp
    · obtain ⟨value, hvalue, h⟩ := Option.bind_eq_some_iff.mp h
      obtain ⟨⟨next, tokens⟩, hnext, h⟩ := Option.bind_eq_some_iff.mp h
      cases h
      exact List.forall_mem_cons.mpr
        ⟨canonical_wordValue hvalue, isCanonical_of_lexBlank hnext⟩
  | text taken =>
    simp only [lexChar] at h
    split at h
    · cases h
      simp [Token.IsCanonical]
    · split at h
      · cases h
        simp
      · split at h <;> cases h
        simp
  | escape taken =>
    simp only [lexChar] at h
    split at h
    · cases h
      simp
    · obtain ⟨_, -, h⟩ := Option.map_eq_some_iff.mp h
      cases h
      simp
  | unit taken high value left =>
    simp only [lexChar] at h
    obtain ⟨digit, -, h⟩ := Option.bind_eq_some_iff.mp h
    split at h
    · obtain ⟨_, -, h⟩ := Option.map_eq_some_iff.mp h
      cases h
      simp
    · cases h
      simp
  | low taken high | lowUnit taken high =>
    simp only [lexChar] at h
    split at h <;> cases h
    simp

theorem isCanonical_of_tokens {cs : List Char} {found : List Token}
    (h : tokens cs = some found) : ∀ t ∈ found, t.IsCanonical := by
  obtain ⟨⟨state, reversed⟩, hfold, h⟩ := Option.bind_eq_some_iff.mp h
  have hreversed : ∀ t ∈ reversed, t.IsCanonical := by
    refine of_foldlM (P := fun state : Lexing × List Token => ∀ t ∈ state.2, t.IsCanonical)
      hfold (by simp) ?_
    rintro c - ⟨before, found⟩ after hfound hstep
    obtain ⟨⟨next, more⟩, hnext, hafter⟩ := Option.bind_eq_some_iff.mp hstep
    cases hafter
    intro t ht
    rcases List.mem_append.mp ht with ht | ht
    · exact isCanonical_of_lexChar hnext t (List.mem_reverse.mp ht)
    · exact hfound t ht
  cases state with
  | blank =>
    cases h
    simpa using hreversed
  | word taken =>
    obtain ⟨value, hvalue, h⟩ := Option.bind_eq_some_iff.mp h
    cases h
    intro t ht
    rcases List.mem_cons.mp (List.mem_reverse.mp ht) with rfl | ht
    · exact canonical_wordValue hvalue
    · exact hreversed t ht
  | _ => cases h

/-- An open bracket around canonical values. -/
def Frame.IsCanonical : Frame → Prop
  | .items before => ∀ item ∈ before, Canonical item
  | .fields before | .member before _ => CanonicalFields before

/-- A finished document is canonical. -/
def Expect.IsCanonical : Expect → Prop
  | .done doc => Canonical doc
  | _ => True

/-- Nothing that has been read so far is out of order. -/
structure CanonicalState (state : List Frame × Expect) : Prop where
  frames : ∀ frame ∈ state.1, frame.IsCanonical
  expect : state.2.IsCanonical

/-- A canonical value goes into the innermost open bracket. -/
theorem canonical_place {stack : List Frame} {state : List Frame × Expect}
    (h : place value stack = some state) (hvalue : Canonical value)
    (hstack : ∀ frame ∈ stack, frame.IsCanonical) : CanonicalState state := by
  cases stack with
  | nil =>
    cases h
    exact ⟨hstack, hvalue⟩
  | cons frame outer =>
    obtain ⟨hframe, houter⟩ := List.forall_mem_cons.mp hstack
    cases frame with
    | items before =>
      cases h
      exact ⟨List.forall_mem_cons.mpr ⟨List.forall_mem_cons.mpr ⟨hvalue, hframe⟩, houter⟩, trivial⟩
    | fields before => cases h
    | member before key =>
      cases h
      exact ⟨List.forall_mem_cons.mpr ⟨CanonicalFields.insert hframe hvalue key, houter⟩, trivial⟩

/-- Where a value is due, a bracket opens or a value is placed. -/
theorem canonical_takeValue {stack : List Frame} {state : List Frame × Expect} {t : Token}
    (hstack : ∀ frame ∈ stack, frame.IsCanonical) (ht : t.IsCanonical)
    (h : takeToken (stack, .value) t = some state) : CanonicalState state := by
  simp only [takeToken] at h
  split at h
  · exact canonical_place h ht hstack
  · exact canonical_place h (.str _) hstack
  · cases h
    exact ⟨List.forall_mem_cons.mpr ⟨by simp [Frame.IsCanonical], hstack⟩, trivial⟩
  · cases h
    exact ⟨List.forall_mem_cons.mpr ⟨canonicalFields_nil, hstack⟩, trivial⟩
  · exact canonical_place h (.arr (by simp)) (List.forall_mem_cons.mp hstack).2
  · cases h

/-- Each token keeps what was read canonical. -/
theorem canonical_takeToken {before after : List Frame × Expect} {t : Token}
    (hbefore : CanonicalState before) (ht : t.IsCanonical)
    (h : takeToken before t = some after) : CanonicalState after := by
  have hframes := hbefore.frames
  unfold takeToken at h
  -- the rows of `takeToken`; only two of them finish a bracket that holds something
  split at h
  case h_1 | h_2 => exact canonical_takeValue hframes ht h
  case h_3 | h_4 | h_7 | h_9 =>
    cases h
    exact ⟨hframes, trivial⟩
  case h_5 => exact canonical_place h canonicalFields_nil.obj (List.forall_mem_cons.mp hframes).2
  case h_6 =>
    cases h
    obtain ⟨hfields, houter⟩ := List.forall_mem_cons.mp hframes
    exact ⟨List.forall_mem_cons.mpr ⟨hfields, houter⟩, trivial⟩
  case h_8 before outer =>
    obtain ⟨hitems, houter⟩ := List.forall_mem_cons.mp hframes
    have harr : Canonical (.arr before.reverse) :=
      .arr fun item hitem => hitems item (List.mem_reverse.mp hitem)
    exact canonical_place h harr houter
  case h_10 before outer =>
    obtain ⟨hfields, houter⟩ := List.forall_mem_cons.mp hframes
    exact canonical_place h (CanonicalFields.obj hfields) houter
  case h_11 => cases h

/-- Every document that is read is canonical. -/
theorem canonical_of_read {text : String} (h : read text = some doc) : Canonical doc := by
  obtain ⟨found, hfound, h⟩ := Option.bind_eq_some_iff.mp h
  obtain ⟨⟨stack, expect⟩, hfold, h⟩ := Option.bind_eq_some_iff.mp h
  have hstart : CanonicalState ([], Expect.value) := ⟨by simp, trivial⟩
  have hfinal : CanonicalState (stack, expect) :=
    of_foldlM hfold hstart fun t ht before after hbefore hstep =>
      canonical_takeToken hbefore (isCanonical_of_tokens hfound t ht) hstep
  match stack, expect, h with
  | [], .done _, rfl => exact hfinal.expect

end Json

end Workflow
