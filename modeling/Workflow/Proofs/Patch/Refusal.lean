/-
Workflow.Proofs.Patch.Refusal — what a refused patch leaves of a document.

The walk along a path makes what is missing on the way, and only then the
operation looks at the place. `Patch.refusal_of_run` says what this comes to:

* once something has been made, the rest of the way is made too and ends in
  `null`, so that the path itself is never refused, nor the type of the place;
* `null` refuses only a counter that would go below zero. Then the document
  stays with `null` set at the path, and every other refusal leaves it as it
  was.
-/
import Workflow.Proofs.Json.Canonical
import Workflow.Proofs.Patch.Commutation

namespace Workflow

namespace Patch

variable {edit : Json → Except Fault Json} {way p q : List String} {doc new : Json} {fault : Fault}

/-! ## Existing places -/

/-- What stands at a place, if the document has every key and every item on
the way to it. -/
def existing? : List String → Json → Option Json
  | [], doc => some doc
  | segment :: rest, .obj fields => (Fields.get? segment fields).bind (existing? rest)
  | segment :: rest, .arr items => (item? segment items).bind fun found => existing? rest found.2
  | _ :: _, .null | _ :: _, .bool _ | _ :: _, .int _ | _ :: _, .float _ | _ :: _, .str _ => none

theorem existing?_null (h : way ≠ []) : existing? way .null = none := by
  cases way with
  | nil => exact absurd rfl h
  | cons s rest => rfl

/-- The place of an edit exists afterwards. -/
theorem existing?_edited (h : edited edit way doc = some new) :
    ∃ old v, edit old = .ok v ∧ existing? way new = some v := by
  induction way generalizing doc new with
  | nil =>
    rw [edited_nil] at h
    cases hedit : edit doc with
    | error fault => simp [hedit, Except.toOption] at h
    | ok v =>
      simp only [hedit, Except.toOption, Option.some.injEq] at h
      exact ⟨doc, v, hedit, congrArg some h.symm⟩
  | cons s rest ih =>
    -- an edit inside `null` is one inside an empty object
    have hobj {fields : List (String × Json)}
        (h : edited edit (s :: rest) (.obj fields) = some new) :
        ∃ old v, edit old = .ok v ∧ existing? (s :: rest) new = some v := by
      rw [edited_obj] at h
      obtain ⟨inner, hinner, rfl⟩ := Option.map_eq_some_iff.mp h
      obtain ⟨old, v, hv, hat⟩ := ih hinner
      exact ⟨old, v, hv, by simp [existing?, Fields.get?_insert, hat]⟩
    cases doc with
    | null =>
      rw [edited_null] at h
      exact hobj h
    | obj fields => exact hobj h
    | arr items =>
      rw [edited_arr] at h
      obtain ⟨⟨i, item⟩, hitem, h⟩ := Option.bind_eq_some_iff.mp h
      obtain ⟨inner, hinner, rfl⟩ := Option.map_eq_some_iff.mp h
      obtain ⟨old, v, hv, hat⟩ := ih hinner
      exact ⟨old, v, hv, by simp [existing?, item?_set_same hitem, hat]⟩
    | bool | int | float | str => cases h

/-- An edit changes nothing at a place apart from its own. -/
theorem existing?_edited_of_separated (h : Separated p q) (hnew : edited edit p doc = some new) :
    existing? q new = existing? q doc := by
  induction p generalizing q doc new with
  | nil => exact absurd List.nil_prefix h.not_prefix
  | cons s p ih =>
    cases q with
    | nil => exact absurd List.nil_prefix h.not_prefix'
    | cons t q =>
      -- what `null` holds is what the object made from it held before: nothing
      have hobj {fields : List (String × Json)}
          (hnew : edited edit (s :: p) (.obj fields) = some new) :
          existing? (t :: q) new = existing? (t :: q) (.obj fields) := by
        rw [edited_obj] at hnew
        obtain ⟨inner, hinner, rfl⟩ := Option.map_eq_some_iff.mp hnew
        rcases h.head with rfl | hst
        · have hq : q ≠ [] := fun hnil => h.tail.not_prefix' (hnil ▸ List.nil_prefix)
          have hrest : existing? q inner = existing? q ((Fields.get? s fields).getD .null) :=
            ih h.tail hinner
          rw [existing?, Fields.get?_insert, if_pos rfl, Option.bind_some, hrest, existing?]
          cases Fields.get? s fields with
          | none => exact existing?_null hq
          | some v => rfl
        · simp [existing?, Fields.get?_insert, hst.ne]
      cases doc with
      | null =>
        rw [edited_null] at hnew
        exact hobj hnew
      | obj fields => exact hobj hnew
      | arr items =>
        rw [edited_arr] at hnew
        obtain ⟨⟨i, item⟩, hitem, hnew⟩ := Option.bind_eq_some_iff.mp hnew
        obtain ⟨inner, hinner, rfl⟩ := Option.map_eq_some_iff.mp hnew
        rcases h.head with rfl | hst
        · simp [existing?, item?_set_same hitem, hitem, ih h.tail hinner]
        · have hne := hst.position_ne i (item?_eq_some hitem).1
          simp [existing?, item?_set_of_ne items hne]
      | bool | int | float | str => cases hnew

/-! ## Refused edits

Places on the way are made only where nothing stands yet. What was made are
objects of one key each, with `null` at the place itself. -/

/-- From nothing, the whole way is made and ends in `null`, and only the edit
of `null` can be refused. -/
theorem editAt_null_refused (h : editAt edit way .null = (new, some fault)) :
    edit .null = .error fault ∧ editAt (Patch.edit (.set .null)) way .null = (new, none) := by
  induction way generalizing new with
  | nil =>
    unfold editAt at h
    cases hedit : edit .null with
    | ok v => simp [hedit] at h
    | error found =>
      simp only [hedit, Prod.mk.injEq, Option.some.injEq] at h
      obtain ⟨rfl, rfl⟩ := h
      exact ⟨rfl, rfl⟩
  | cons s rest ih =>
    unfold editAt at h
    cases hinner : editAt edit rest .null with
    | mk inner found =>
      simp only [hinner, Prod.mk.injEq] at h
      obtain ⟨rfl, rfl⟩ := h
      obtain ⟨hedit, hset⟩ := ih hinner
      refine ⟨hedit, ?_⟩
      unfold editAt
      rw [hset]

theorem editAt_obj (s : String) (rest : List String) (fields : List (String × Json)) :
    editAt edit (s :: rest) (.obj fields) =
      (.obj (Fields.insert s (editAt edit rest ((Fields.get? s fields).getD .null)).1 fields),
        (editAt edit rest ((Fields.get? s fields).getD .null)).2) := by
  rw [editAt]

/-- An edit at no item of an array is refused and changes nothing. -/
theorem editAt_arr_of_none {s : String} {items : List Json} (h : item? s items = none)
    (rest : List String) : editAt edit (s :: rest) (.arr items) = (.arr items, some .noPlace) := by
  rw [editAt]
  cases hread : Text.readUnsigned s.toList with
  | none => rfl
  | some i => cases hget : items[i]? <;> simp_all [item?]

theorem editAt_arr_of_some {s : String} {items : List Json} {i : Nat} {item : Json}
    (h : item? s items = some (i, item)) (rest : List String) :
    editAt edit (s :: rest) (.arr items) =
      (.arr (items.set i (editAt edit rest item).1), (editAt edit rest item).2) := by
  obtain ⟨hread, hget⟩ := item?_eq_some h
  rw [editAt]
  simp only [hread, hget]

/-- Either the way leads to an existing place or stops before anything has
been made, and the document is as it was; or the place did not exist, and now
`null` stands there. -/
theorem editAt_refused (hdoc : doc.Canonical)
    (h : editAt edit way doc = (new, some fault)) :
    new = doc ∧ (fault = .noPlace ∨ (existing? way doc).isSome) ∨
      edit .null = .error fault ∧ existing? way doc = none ∧
        editAt (Patch.edit (.set .null)) way doc = (new, none) := by
  -- by induction on the way: below a place that exists the claim is that of the next
  -- segment, and writing back what is there changes nothing
  induction way generalizing doc new with
  | nil =>
    unfold editAt at h
    cases hedit : edit doc with
    | ok v => simp [hedit] at h
    | error found =>
      simp only [hedit, Prod.mk.injEq] at h
      exact Or.inl ⟨h.1.symm, Or.inr rfl⟩
  | cons s rest ih =>
    cases doc with
    | null =>
      -- nothing exists here: the rest of the way is made on the spot
      obtain ⟨hedit, hset⟩ := editAt_null_refused h
      exact Or.inr ⟨hedit, rfl, hset⟩
    | obj fields =>
      have hfields := hdoc.canonicalFields
      cases hinner : editAt edit rest ((Fields.get? s fields).getD .null) with
      | mk inner found =>
        rw [editAt_obj, hinner] at h
        obtain ⟨rfl, rfl⟩ := Prod.mk.inj h
        cases hget : Fields.get? s fields with
        | none =>
          rw [hget] at hinner
          obtain ⟨hedit, hset⟩ := editAt_null_refused hinner
          exact Or.inr ⟨hedit, by simp [existing?, hget], by simp [editAt_obj, hget, hset]⟩
        | some v =>
          rw [hget] at hinner
          have hv : v.Canonical := hfields.values _ (Fields.mem_of_get? hget)
          rcases ih hv hinner with ⟨rfl, hwhy⟩ | ⟨hedit, hnone, hset⟩
          · -- a field that is written back as it was leaves sorted fields as they were
            exact Or.inl ⟨by simp [Fields.insert_of_get? hfields.sorted hget],
              by simpa [existing?, hget] using hwhy⟩
          · exact Or.inr ⟨hedit, by simp [existing?, hget, hnone], by simp [editAt_obj, hget, hset]⟩
    | arr items =>
      cases hitem : item? s items with
      | none =>
        rw [editAt_arr_of_none hitem] at h
        obtain ⟨rfl, hfault⟩ := Prod.mk.inj h
        exact Or.inl ⟨rfl, Or.inl (Option.some.inj hfault).symm⟩
      | some there =>
        obtain ⟨i, item⟩ := there
        have hat : items[i]? = some item := (item?_eq_some hitem).2
        have hcanonical : item.Canonical := hdoc.of_mem item (List.mem_of_getElem? hat)
        cases hinner : editAt edit rest item with
        | mk inner found =>
          rw [editAt_arr_of_some hitem, hinner] at h
          obtain ⟨rfl, rfl⟩ := Prod.mk.inj h
          rcases ih hcanonical hinner with ⟨rfl, hwhy⟩ | ⟨hedit, hnone, hset⟩
          · refine Or.inl ⟨?_, by simpa [existing?, hitem] using hwhy⟩
            obtain ⟨hi, rfl⟩ := List.getElem?_eq_some_iff.mp hat
            simp
          · exact Or.inr ⟨hedit, by simp [existing?, hitem, hnone],
              by simp [editAt_arr_of_some hitem, hset]⟩
    | bool | int | float | str =>
      obtain ⟨rfl, hfault⟩ := Prod.mk.inj h
      exact Or.inl ⟨rfl, Or.inl (Option.some.inj hfault).symm⟩

/-! ## Canonical documents -/

/-- An edit that makes canonical documents keeps those around it canonical. -/
theorem canonical_editAt (hdoc : doc.Canonical)
    (hedit : ∀ old v, old.Canonical → edit old = .ok v → v.Canonical) :
    (editAt edit way doc).1.Canonical := by
  induction way generalizing doc with
  | nil =>
    unfold editAt
    cases h : edit doc with
    | ok v => exact hedit doc v hdoc h
    | error fault => exact hdoc
  | cons s rest ih =>
    cases doc with
    | null => exact (Json.canonicalFields_nil.insert (ih .null) s).obj
    | obj fields =>
      have hfields := hdoc.canonicalFields
      -- a missing field is edited as `null`
      have hold : ((Fields.get? s fields).getD .null).Canonical := by
        cases hget : Fields.get? s fields with
        | none => exact .null
        | some v => exact hfields.values _ (Fields.mem_of_get? hget)
      rw [editAt_obj]
      exact (hfields.insert (ih hold) s).obj
    | arr items =>
      cases hitem : item? s items with
      | none => rwa [editAt_arr_of_none hitem]
      | some there =>
        obtain ⟨i, item⟩ := there
        have hold : item.Canonical :=
          hdoc.of_mem item (List.mem_of_getElem? (item?_eq_some hitem).2)
        rw [editAt_arr_of_some hitem]
        refine .arr fun value hvalue => ?_
        rcases List.mem_or_eq_of_mem_set hvalue with hvalue | rfl
        · exact hdoc.of_mem value hvalue
        · exact ih hold
    | bool | int | float | str => exact hdoc

/-- The values that an operation brings along are canonical. -/
def IsCanonical : PatchOp → Prop
  | .set value => value.Canonical
  | .push values => ∀ value ∈ values, value.Canonical
  | .increment _ | .decrement _ => True

/-- A patch leaves a canonical document, refused or not. -/
theorem canonical_run {p : Patch} (hop : IsCanonical p.op) (hdoc : doc.Canonical) :
    (p.run doc).1.Canonical := by
  refine canonical_editAt hdoc fun old v hold hedit => ?_
  -- counting makes an integer or fails
  have hadd {n : Int} (h : add n old = .ok v) : v.Canonical := by
    cases hk : counter old with
    | error fault => simp [add, hk, bind, Except.bind] at h
    | ok k =>
      simp only [add, hk, bind, Except.bind] at h
      split at h
      · cases h
      · cases h
        exact .int _
  cases hp : p.op with
  | set value =>
    rw [hp] at hop hedit
    cases hedit
    exact hop
  | increment n | decrement n =>
    rw [hp] at hedit
    exact hadd hedit
  | push values =>
    rw [hp] at hop hedit
    cases old with
    | null =>
      cases hedit
      exact .arr hop
    | arr items =>
      cases hedit
      refine .arr fun value hvalue => ?_
      exact (List.mem_append.mp hvalue).elim (hold.of_mem value) (hop value)
    | _ => cases hedit

/-! ## Refused patches -/

/-- Of what does not exist only a count below zero is refused. -/
theorem edit_null_refused {op : PatchOp} (h : Patch.edit op .null = .error fault) :
    fault = .negative := by
  have hadd {n : Int} (h : add n .null = .error fault) : fault = .negative := by
    simp only [add, counter, bind, Except.bind] at h
    split at h
    · exact (Except.error.inj h).symm
    · cases h
  cases op with
  | set value => cases h
  | increment n | decrement n => exact hadd h
  | push values => cases h

/-- What a refused patch leaves of a document. -/
structure Refusal (p : Patch) (doc new : Json) (error : PatchError) : Prop where
  error_eq : error = .invalidPath p.path ∨
    (∃ expected found, error = .typeMismatch p.path expected found) ∨
    error = .negativeCounter p.path
  /-- Only a counter below zero changes the document, and only at a place that
  did not exist. -/
  unchanged_iff : new = doc ↔
    (error = .negativeCounter p.path → (existing? (segments p.path) doc).isSome)
  /-- Then the document is as if `null` had been set there. -/
  changed : new ≠ doc → apply ⟨p.path, .set .null⟩ doc = .ok new
  /-- Whatever stands elsewhere stays. -/
  elsewhere : ∀ q, Separated (segments p.path) q → existing? q new = existing? q doc

/-- A refused patch met a fault. -/
theorem run_eq_error {p : Patch} {error : PatchError} (h : p.run doc = (new, some error)) :
    ∃ fault, editAt (Patch.edit p.op) (segments p.path) doc = (new, some fault) ∧
      error = faultAt p.path fault := by
  cases hedit : editAt (Patch.edit p.op) (segments p.path) doc with
  | mk inner found =>
    simp only [run, hedit, Prod.mk.injEq, Option.map_eq_some_iff] at h
    obtain ⟨rfl, fault, rfl, rfl⟩ := h
    exact ⟨fault, rfl, rfl⟩

/-- A refused patch leaves the document as it was, save that a counter below
zero leaves `null` at a place that did not exist. All other faults are found
on the way to the place or at a value that is there, where nothing has been
written; the fields of a canonical document are sorted, so that one written
back as it was leaves them as they were. -/
theorem refusal_of_run {p : Patch} {error : PatchError} (hdoc : doc.Canonical)
    (h : p.run doc = (new, some error)) : Refusal p doc new error := by
  obtain ⟨fault, hedit, rfl⟩ := run_eq_error h
  have herror : faultAt p.path fault = .invalidPath p.path ∨
      (∃ expected found, faultAt p.path fault = .typeMismatch p.path expected found) ∨
      faultAt p.path fault = .negativeCounter p.path := by
    cases fault <;> simp [faultAt]
  rcases editAt_refused hdoc hedit with ⟨rfl, hwhy⟩ | ⟨hnull, hnone, hset⟩
  · refine ⟨herror, ?_, fun hne => absurd rfl hne, fun q _ => rfl⟩
    rcases hwhy with rfl | hsome
    · simp [faultAt]
    · simp [hsome]
  · obtain rfl := edit_null_refused hnull
    have hedited : edited (Patch.edit (.set .null)) (segments p.path) doc = some new := by
      simp [edited, hset]
    have hne : new ≠ doc := by
      rintro rfl
      obtain ⟨_, v, _, hv⟩ := existing?_edited hedited
      simp [hnone] at hv
    refine ⟨herror, ?_, fun _ => apply_eq_ok_iff.mpr hedited, fun q hq => ?_⟩
    · simp [hne, faultAt, hnone]
    · exact existing?_edited_of_separated hq hedited

/-- Two counters are to be lowered where there is nothing to count: the keys
on the way are made, and the list beside them is left alone. -/
theorem sample_refusal :
    (Json.obj [("list", .arr [.int 1]), ("total", .null)]).Canonical ∧
      run ⟨"total.a.b", .decrement 2⟩ (.obj [("list", .arr [.int 1]), ("total", .null)]) =
        (.obj [("list", .arr [.int 1]), ("total", .obj [("a", .obj [("b", .null)])])],
          some (.negativeCounter "total.a.b")) ∧
      Refusal ⟨"total.a.b", .decrement 2⟩ (.obj [("list", .arr [.int 1]), ("total", .null)])
        (.obj [("list", .arr [.int 1]), ("total", .obj [("a", .obj [("b", .null)])])])
        (.negativeCounter "total.a.b") := by
  have hdoc : (Json.obj [("list", .arr [.int 1]), ("total", .null)]).Canonical := by
    have hlt : "list" < "total" := by decide
    refine .obj (List.pairwise_pair.mpr hlt) fun field hfield => ?_
    simp only [List.mem_cons, List.not_mem_nil, or_false] at hfield
    rcases hfield with rfl | rfl
    · exact .arr (by simp [Json.Canonical.int])
    · exact .null
  have hrun : run ⟨"total.a.b", .decrement 2⟩ (.obj [("list", .arr [.int 1]), ("total", .null)]) =
      (.obj [("list", .arr [.int 1]), ("total", .obj [("a", .obj [("b", .null)])])],
        some (.negativeCounter "total.a.b")) := by
    decide +kernel
  exact ⟨hdoc, hrun, refusal_of_run hdoc hrun⟩

/-- A refused patch can change the document. -/
theorem refused_counter_leaves_key : (Json.obj []).Canonical ∧
    run ⟨"n", .decrement 1⟩ (.obj []) = (.obj [("n", .null)], some (.negativeCounter "n")) ∧
    Json.obj [("n", .null)] ≠ .obj [] := by
  have hrun : run ⟨"n", .decrement 1⟩ (.obj []) =
      (.obj [("n", .null)], some (.negativeCounter "n")) := by
    decide +kernel
  exact ⟨Json.canonicalFields_nil.obj, hrun, by decide⟩

end Patch

end Workflow
