/-
Workflow.Proofs.Act.Lens — a place of an act is read and written on its own.

`Field.content?` reads what a place holds, and `Field.assign` is the act
with other content there. `Field.isLens` says that a single patch of a place
does just that:

* a `set` writes any content, also the missing duration, for which the
  patched form keeps a `null` that no encoding of an act has;
* an `increment` and a `decrement` write the number that was counted and
  the amount, as long as the results fit;
* a `push` of annotations writes those that were there and the new ones.

`content?_assign` and `content?_assign_of_ne` are the laws of reading after
writing.
-/
import Workflow.Proofs.Store.Likeness

namespace Workflow

/-! ## Contents -/

namespace Field

/-- What a place holds. -/
abbrev Content : Field → Type
  | status | sequenceStatus _ | stepStatus _ _ => Status
  | annotations => List Annotation
  | stepsQueued | stepsInProgress | stepsCompleted | stepsFailed | wallClock | totalTask => UInt64
  | sequenceDuration _ | stepDuration _ _ => Option UInt64

/-- The content of a place that the act has. -/
def content? (a : Act) : (f : Field) → Option f.Content
  | status => some a.status
  | stepsQueued => some a.steps.queued
  | stepsInProgress => some a.steps.inProgress
  | stepsCompleted => some a.steps.completed
  | stepsFailed => some a.steps.failed
  | wallClock => some a.duration.wallClock
  | totalTask => some a.duration.totalTask
  | annotations => some a.annotations
  | sequenceStatus i => (a.sequences[i]?).map (·.status)
  | sequenceDuration i => (a.sequences[i]?).map (·.durationMs)
  | stepStatus i j => (a.step? i j).map (·.status)
  | stepDuration i j => (a.step? i j).map (·.durationMs)

/-- The act with other content at a place, and nothing else changed. -/
def assign (a : Act) : (f : Field) → f.Content → Act
  | status, v => { a with status := v }
  | stepsQueued, v => { a with steps := { a.steps with queued := v } }
  | stepsInProgress, v => { a with steps := { a.steps with inProgress := v } }
  | stepsCompleted, v => { a with steps := { a.steps with completed := v } }
  | stepsFailed, v => { a with steps := { a.steps with failed := v } }
  | wallClock, v => { a with duration := { a.duration with wallClock := v } }
  | totalTask, v => { a with duration := { a.duration with totalTask := v } }
  | annotations, v => { a with annotations := v }
  | sequenceStatus i, v => a.modifySequence i ({ · with status := v })
  | sequenceDuration i, v => a.modifySequence i ({ · with durationMs := v })
  | stepStatus i j, v => a.modifySequence i (·.modifyStep j ({ · with status := v }))
  | stepDuration i j, v => a.modifySequence i (·.modifyStep j ({ · with durationMs := v }))

/-- The form of a content; a missing duration is `null`. -/
def contentForm : (f : Field) → f.Content → Json
  | status, v | sequenceStatus _, v | stepStatus _ _, v => encode v
  | annotations, v => encode v
  | stepsQueued, v | stepsInProgress, v | stepsCompleted, v | stepsFailed, v | wallClock, v
  | totalTask, v => encode v
  | sequenceDuration _, v | stepDuration _ _, v => v.elim .null encode

/-- Sets a place to a content. -/
def write (f : Field) (v : f.Content) : Patch := ⟨f.path, .set (f.contentForm v)⟩

/-- The number that an increment of a place starts from: what a counter
counts, or a duration, which is 0 if it is missing. -/
def base? (a : Act) : Field → Option Nat
  | sequenceDuration i => (a.sequences[i]?).map fun s => (s.durationMs.getD 0).toNat
  | stepDuration i j => (a.step? i j).map fun step => (step.durationMs.getD 0).toNat
  | f => (a.count? f).map UInt64.toNat

/-- A number as the content of a place that counts. -/
def ofCount (n : UInt64) : (f : Field) → Option f.Content
  | status | sequenceStatus _ | stepStatus _ _ | annotations => none
  | stepsQueued | stepsInProgress | stepsCompleted | stepsFailed | wallClock | totalTask => some n
  | sequenceDuration _ | stepDuration _ _ => some (some n)

/-! ## Reading after writing -/

section

variable {a : Act} {f g : Field}

/-- A change of one sequence, seen at any position. The lemmas after it say the
same of steps. -/
theorem sequences_modifySequence (i l : Nat) (change : Sequence → Sequence) :
    (a.modifySequence i change).sequences[l]? =
      if i = l then (a.sequences[l]?).map change else a.sequences[l]? := by
  rw [Act.modifySequence, List.getElem?_modify]
  split <;> simp

theorem step?_modifySequence (i l m : Nat) {change : Sequence → Sequence}
    (h : ∀ s, (change s).steps = s.steps) :
    (a.modifySequence i change).step? l m = a.step? l m := by
  rw [Act.step?, sequences_modifySequence, Act.step?]
  split
  · cases a.sequences[l]? with
    | none => rfl
    | some s => exact congrArg (·[m]?) (h s)
  · rfl

/-- A change of one step, seen at any position. -/
theorem step?_modifyStep (i j l m : Nat) (change : Step → Step) :
    (a.modifySequence i (·.modifyStep j change)).step? l m =
      if i = l ∧ j = m then (a.step? l m).map change else a.step? l m := by
  rw [Act.step?, sequences_modifySequence, Act.step?]
  by_cases hi : i = l
  · cases a.sequences[l]? with
    | none => simp
    | some s =>
      simp only [hi, true_and, if_true, Option.map_some, Option.bind_some, Sequence.modifyStep,
        List.getElem?_modify]
      split <;> simp
  · simp only [hi, false_and, if_false]

/-- What was written is read. -/
theorem content?_assign (hin : f.IsIn a) (v : f.Content) :
    f.content? (f.assign a v) = some v := by
  cases f with
  | sequenceStatus i | sequenceDuration i =>
    obtain ⟨s, hs⟩ := Option.isSome_iff_exists.mp hin.2
    simp [content?, assign, sequences_modifySequence, hs]
  | stepStatus i j | stepDuration i j =>
    obtain ⟨step, hstep⟩ := Option.isSome_iff_exists.mp hin.2.2
    simp [content?, assign, step?_modifyStep, hstep]
  | _ => rfl

/-- Other places are read as before. -/
theorem content?_assign_of_ne (hne : g ≠ f) (v : f.Content) :
    g.content? (f.assign a v) = g.content? a := by
  -- two places meet only inside one sequence or one step; there the written part
  -- decides
  cases f with
  | sequenceStatus i | sequenceDuration i =>
    cases g with
    | sequenceStatus l | sequenceDuration l =>
      simp only [content?, assign, sequences_modifySequence]
      split
      · cases a.sequences[l]? <;> simp_all
      · rfl
    | stepStatus l m | stepDuration l m =>
      exact congrArg (Option.map _) (step?_modifySequence i l m fun _ => rfl)
    | _ => rfl
  | stepStatus i j | stepDuration i j =>
    cases g with
    | sequenceStatus l | sequenceDuration l =>
      simp only [content?, assign, sequences_modifySequence]
      split
      · cases a.sequences[l]? <;> rfl
      · rfl
    | stepStatus l m | stepDuration l m =>
      simp only [content?, assign, step?_modifyStep]
      split
      · cases a.step? l m <;> simp_all
      · rfl
    | _ => rfl
  | _ => cases g <;> first | rfl | exact absurd rfl hne

end

end Field

/-! ## What no place holds

The outline of an act is what is left of it when all places are emptied.
Writing to a place leaves it as it is. -/

/-- A view that a change does not touch is the same after the change of one
element. -/
theorem map_modify_of_eq {α β : Type} {view : α → β} {change : α → α}
    (h : ∀ x, view (change x) = view x) (values : List α) (i : Nat) :
    (values.modify i change).map view = values.map view := by
  refine List.ext_getElem? fun l => ?_
  rw [List.getElem?_map, List.getElem?_modify, List.getElem?_map]
  cases values[l]? with
  | none => rfl
  | some x =>
    by_cases hi : i = l
    · simp [hi, h]
    · simp [hi]

namespace Step

/-- The step, with nothing in its places. -/
def outline (s : Step) : Step := { s with status := .queued, durationMs := none }

end Step

namespace Sequence

/-- The sequence, with nothing in its places. -/
def outline (s : Sequence) : Sequence :=
  { s with status := .queued, durationMs := none, steps := s.steps.map (·.outline) }

theorem outline_modifyStep {change : Step → Step} (h : ∀ s, (change s).outline = s.outline)
    (s : Sequence) (j : Nat) : (s.modifyStep j change).outline = s.outline := by
  simp only [outline, modifyStep, map_modify_of_eq h]

end Sequence

namespace Act

/-- The act, with nothing in its places: all that no patch of a place
writes. -/
def outline (a : Act) : Act :=
  { a with
    status := .queued
    steps := .zero
    duration := .zero
    annotations := []
    sequences := a.sequences.map (·.outline) }

theorem outline_modifySequence {change : Sequence → Sequence}
    (h : ∀ s, (change s).outline = s.outline) (a : Act) (i : Nat) :
    (a.modifySequence i change).outline = a.outline := by
  simp only [outline, modifySequence, map_modify_of_eq h]

end Act

/-- No place is part of the outline. -/
theorem Field.outline_assign (a : Act) (f : Field) (v : f.Content) :
    (f.assign a v).outline = a.outline := by
  cases f with
  | sequenceStatus i | sequenceDuration i =>
    refine a.outline_modifySequence ?_ i
    intro s
    rfl
  | stepStatus i j | stepDuration i j =>
    refine a.outline_modifySequence (fun s => s.outline_modifyStep ?_ j) i
    intro step
    rfl
  | _ => rfl

/-! ## Counting

Counting is the one operation that can be refused at a place that exists, so
it is described by the number that stands there. -/

section

variable {a : Act} {f : Field} {n m : Nat} {k : Int}

namespace Patch

/-- Counting is exact as long as the result fits. -/
theorem add_of_counter {doc : Json} (hdoc : counter doc = .ok n) (hsum : (m : Int) = n + k)
    (hm : m < 2 ^ 63) : add k doc = .ok (.int m) := by
  have hnext : saturate ((n : Int) + k) = m := by
    rw [saturate]
    omega
  have hadd : add k doc = if saturate ((n : Int) + k) < 0 then .error .negative
      else .ok (.int (saturate ((n : Int) + k))) := by
    rw [add, hdoc]
    rfl
  rw [hadd, hnext, if_neg (by omega)]

end Patch

namespace Field

/-- What a place counts is what a patch of the form finds. -/
theorem counter_formIn (hbase : f.base? a = some n) (hn : n < 2 ^ 63) :
    Patch.counter (f.formIn a) = .ok (n : Int) := by
  have hduration (ms : Option UInt64) (h : (ms.getD 0).toNat = n) :
      Patch.counter (ms.elim .null encode) = .ok (n : Int) := by
    subst h
    cases ms with
    | none => rfl
    | some ms => exact Patch.counter_eq hn
  cases f with
  | status | sequenceStatus | stepStatus | annotations => cases hbase
  | stepsQueued | stepsInProgress | stepsCompleted | stepsFailed | wallClock | totalTask =>
    obtain rfl := Option.some.inj hbase
    exact Patch.counter_eq hn
  | sequenceDuration i =>
    obtain ⟨s, hs, hms⟩ := Option.map_eq_some_iff.mp hbase
    rw [formIn, hs]
    exact hduration s.durationMs hms
  | stepDuration i j =>
    obtain ⟨step, hstep, hms⟩ := Option.map_eq_some_iff.mp hbase
    rw [formIn, hstep]
    exact hduration step.durationMs hms

/-- An operation that makes a number of what a place counts. -/
theorem update_count {op : PatchOp} (hin : f.IsIn a) (hbase : f.base? a = some n)
    (hm : m < 2 ^ 64) (h : Patch.edit op (f.formIn a) = .ok (.int m)) :
    ∃ v, f.ofCount (UInt64.ofNat m) = some v ∧ a.update [⟨f.path, op⟩] = .ok (f.assign a v) := by
  have hform : encode (UInt64.ofNat m) = .int m :=
    congrArg (fun l : Nat => Json.int l) (UInt64.toNat_ofNat_of_lt' hm)
  rw [← hform] at h
  cases f with
  | status | sequenceStatus | stepStatus | annotations => cases hbase
  | _ => exact ⟨_, rfl, (Act.takes_patch (v := UInt64.ofNat m) hin h).update_eq⟩

theorem update_increment (hin : f.IsIn a) (hbase : f.base? a = some n) {amount : Int64}
    (hsum : (m : Int) = n + amount.toInt) (hn : n < 2 ^ 63) (hm : m < 2 ^ 63) :
    ∃ v, f.ofCount (UInt64.ofNat m) = some v ∧
      a.update [⟨f.path, .increment amount⟩] = .ok (f.assign a v) :=
  update_count hin hbase (by omega) (Patch.add_of_counter (counter_formIn hbase hn) hsum hm)

/-- A decrement writes the difference. -/
theorem update_decrement (hin : f.IsIn a) (hbase : f.base? a = some n) {amount : Int64}
    (hdifference : (m : Int) = n - amount.toInt) (hn : n < 2 ^ 63) (hm : m < 2 ^ 63) :
    ∃ v, f.ofCount (UInt64.ofNat m) = some v ∧
      a.update [⟨f.path, .decrement amount⟩] = .ok (f.assign a v) := by
  -- the least amount has no negation, and would lead out of the range
  have hnegated : Patch.saturate (-amount.toInt) = -amount.toInt := by
    have hlow := amount.le_toInt
    have hhigh := amount.toInt_lt
    exact Patch.saturate_eq (by omega) (by omega)
  refine update_count hin hbase (by omega)
    (Patch.add_of_counter (counter_formIn hbase hn) ?_ hm)
  rw [hnegated, hdifference, Int.sub_eq_add_neg]

end Field

end

/-! ## A missing duration

A duration that is missing may be written as `null`. No value of the field has
this form, so that the update is followed through the JSON form. -/

section

variable {edit : Json → Except Patch.Fault Json} {rest : List String} {a : Act} {s : Sequence}
  {i j : Nat}

/-- An edit makes a form of the value, if not the encoded one. -/
def Makes {α : Type} [Codec α] (R : Json → Json → Prop) (edit : Json → Except Patch.Fault Json)
    (segments : List String) (doc : Json) (value : α) : Prop :=
  ∃ new, Patch.editAt edit segments doc = (new, none) ∧ R new (encode value)

/-- A `null` in the place of a duration is as good as no duration. -/
theorem makes_unset {α : Type} [Codec α] {L : String → Option Json → Option Json → Prop}
    [Likeness α (RecordsAlike L)] {value : α} {fields : List (String × Json)}
    (hform : encode value = .obj fields) (hnone : Fields.get? "durationMs" fields = none)
    (hL : L "durationMs" = SameOrUnset) (ms : Option UInt64) :
    Makes (RecordsAlike L) (Patch.edit (.set .null)) ["durationMs"]
      (.obj (durationField ms ++ fields)) value := by
  obtain ⟨fs, gs, hfs, hgs, hall⟩ : RecordsAlike L (encode value) (encode value) :=
    Likeness.refl value
  obtain rfl := Json.obj.inj (hform.symm.trans hfs)
  obtain rfl := Json.obj.inj (hform.symm.trans hgs)
  refine ⟨_, Patch.editAt_key rfl (Patch.editAt_nil rfl), _, _, rfl, hform, fun key => ?_⟩
  rw [Fields.get?_insert]
  split
  · rename_i hkey
    subst hkey
    rw [hL, hnone]
    rfl
  · rename_i hkey
    have hskip : Fields.get? key (durationField ms ++ fields) = Fields.get? key fields := by
      cases ms with
      | none => rfl
      | some ms => exact if_neg hkey
    rw [hskip]
    exact hall key

/-- A change of one value of a list, made in its form. -/
theorem Makes.item {α : Type} [Codec α] {R : Json → Json → Prop} [Likeness α R]
    {values : List α} {value value' : α} (hi : i < 2 ^ 64) (hget : values[i]? = some value)
    (h : Makes R edit rest (encode value) value') :
    Makes (ItemsAlike R) edit (toString i :: rest) (encode values) (values.set i value') := by
  obtain ⟨new, hnew, hlike⟩ := h
  have hitem : (values.map encode)[i]? = some (encode value) := by
    rw [List.getElem?_map, hget]
    rfl
  have hsame : List.Forall₂ R (values.map encode) (values.map encode) := by
    refine List.forall₂_same.mpr fun x hx => ?_
    obtain ⟨v, -, rfl⟩ := List.mem_map.mp hx
    exact Likeness.refl v
  obtain ⟨_, -, -, hset⟩ := forall₂_at hsame hitem
  refine ⟨_, Patch.editAt_item hi hitem hnew, _, _, rfl, rfl, ?_⟩
  rw [List.map_set]
  exact hset hlike

/-- What is made of a field, is made of the record. -/
theorem Makes.key {α β : Type} [Codec α] [Codec β] {R : Json → Json → Prop}
    {L : String → Option Json → Option Json → Prop} [Likeness α (RecordsAlike L)] {key : String}
    {value value' : α} {part : β} {fields : List (String × Json)}
    (hform : encode value = .obj fields)
    (hform' : encode value' = .obj (Fields.insert key (encode part) fields))
    (hL : L key = Present R) (h : Makes R edit rest ((Fields.get? key fields).getD .null) part) :
    Makes (RecordsAlike L) edit (key :: rest) (encode value) value' := by
  obtain ⟨new, hnew, hlike⟩ := h
  obtain ⟨fs, gs, hfs, hgs, hall⟩ : RecordsAlike L (encode value) (encode value) :=
    Likeness.refl value
  obtain rfl := Json.obj.inj (hform.symm.trans hfs)
  obtain rfl := Json.obj.inj (hform.symm.trans hgs)
  rw [hform]
  refine ⟨_, Patch.editAt_key rfl hnew, ?_⟩
  rw [hform']
  exact .insert hall (hL ▸ ⟨new, encode part, rfl, rfl, hlike⟩)

/-- A change of one step, made in the form of its sequence. -/
theorem Makes.step {change : Step → Step} {step : Step} (hj : j < 2 ^ 64)
    (hstep : s.steps[j]? = some step)
    (h : Makes (RecordsAlike Step.FieldAlike) edit rest (encode step) (change step)) :
    Makes (RecordsAlike Sequence.FieldAlike) edit ("steps" :: toString j :: rest) (encode s)
      (s.modifyStep j change) := by
  have hset : s.steps.modify j change = s.steps.set j (change step) := by
    rw [List.modify_eq_set, hstep]
    rfl
  have hsteps := h.item hj hstep
  rw [Sequence.modifyStep, hset]
  obtain ⟨id, status, steps, ms⟩ := s
  cases ms <;> exact hsteps.key (Sequence.encode_eq _) (Sequence.encode_eq _) rfl

/-- A change of one sequence, made in the form of its act. -/
theorem Makes.sequence {change : Sequence → Sequence} (hi : i < 2 ^ 64)
    (hs : a.sequences[i]? = some s)
    (h : Makes (RecordsAlike Sequence.FieldAlike) edit rest (encode s) (change s)) :
    Makes Act.Alike edit ("sequences" :: toString i :: rest) (encode a)
      (a.modifySequence i change) := by
  have hset : a.sequences.modify i change = a.sequences.set i (change s) := by
    rw [List.modify_eq_set, hs]
    rfl
  rw [Act.modifySequence, hset]
  exact (h.item hi hs).key (Act.encode_eq a) (Act.encode_eq _) rfl

/-- Writing `null` unsets a duration, of a sequence or of a step. -/
theorem Sequence.makes_unset (s : Sequence) :
    Makes (RecordsAlike Sequence.FieldAlike) (Patch.edit (.set .null)) ["durationMs"] (encode s)
      { s with durationMs := none } := by
  rw [Sequence.encode_eq]
  exact Workflow.makes_unset (Sequence.encode_eq { s with durationMs := none }) rfl rfl s.durationMs

theorem Step.makes_unset (s : Step) :
    Makes (RecordsAlike Step.FieldAlike) (Patch.edit (.set .null)) ["durationMs"] (encode s)
      { s with durationMs := none } := by
  rw [Step.encode_eq]
  exact Workflow.makes_unset (Step.encode_eq { s with durationMs := none }) rfl rfl s.durationMs

/-- A patch that makes a form of an act. -/
theorem Makes.update_eq {f : Field} {op : PatchOp} {b : Act}
    (h : Makes Act.Alike (Patch.edit op) f.segments (encode a) b) :
    a.update [⟨f.path, op⟩] = .ok b := by
  obtain ⟨new, hnew, hlike⟩ := h
  have hrun : Patch.applyAll [⟨f.path, op⟩] (encode a) = .ok new := by
    rw [Patch.applyAll, List.foldlM_cons, Patch.apply, Patch.run, f.segments_path, hnew]
    rfl
  have hread : (decode new : Option Act) = some b :=
    (Likeness.read hlike).trans (decode_encode b)
  simp [Act.update, hrun, hread, bind, Except.bind]

end

/-! ## Lenses -/

namespace Field

variable {a : Act} {f : Field}

/-- A value that can stand at a place, as the content of the place. -/
def ofValue : (f : Field) → f.Value → f.Content
  | status, v | sequenceStatus _, v | stepStatus _ _, v => v
  | annotations, v => v
  | stepsQueued, v | stepsInProgress, v | stepsCompleted, v | stepsFailed, v | wallClock, v
  | totalTask, v => v
  | sequenceDuration _, v | stepDuration _ _, v => some v

/-- A content that has a form of its own is written as it is. -/
theorem update_write_ofValue (hin : f.IsIn a) (v : f.Value) :
    a.update [f.write (f.ofValue v)] = .ok (f.assign a (f.ofValue v)) := by
  have hform : f.contentForm (f.ofValue v) = f.form v := by cases f <;> rfl
  have hput : f.put a v = f.assign a (f.ofValue v) := by cases f <;> rfl
  rw [write, hform, ← hput]
  exact (Act.takes_patch hin rfl).update_eq

/-- Any content is written, a missing duration included. -/
theorem update_write (hin : f.IsIn a) (v : f.Content) :
    a.update [f.write v] = .ok (f.assign a v) := by
  cases f with
  | sequenceDuration i =>
    cases v with
    | some ms => exact update_write_ofValue hin ms
    | none =>
      obtain ⟨s, hs⟩ := Option.isSome_iff_exists.mp hin.2
      exact (Makes.sequence hin.1 hs s.makes_unset).update_eq
  | stepDuration i j =>
    cases v with
    | some ms => exact update_write_ofValue hin ms
    | none =>
      obtain ⟨step, hstep⟩ := Option.isSome_iff_exists.mp hin.2.2
      obtain ⟨s, hs, hj⟩ := Option.bind_eq_some_iff.mp hstep
      exact (Makes.sequence hin.1 hs (Makes.step hin.2.1 hj step.makes_unset)).update_eq
  | _ => exact update_write_ofValue hin v

/-- What the single patches of a place do to an act, and what the places of
an act hold then. -/
structure IsLens (f : Field) (a : Act) : Prop where
  /-- Setting the field gives the act with the new content there. -/
  set : ∀ v, a.update [f.write v] = .ok (f.assign a v)
  /-- A counter is raised, and a missing duration counts as zero. Patches
  count in signed 64-bit numbers, so the sum has to be below 2⁶³. -/
  increment : ∀ {n m : Nat} {amount : Int64}, f.base? a = some n → (m : Int) = n + amount.toInt →
    n < 2 ^ 63 → m < 2 ^ 63 → ∃ v, f.ofCount (UInt64.ofNat m) = some v ∧
      a.update [⟨f.path, .increment amount⟩] = .ok (f.assign a v)
  /-- The same for a counter that is lowered and does not go below zero. -/
  decrement : ∀ {n m : Nat} {amount : Int64}, f.base? a = some n → (m : Int) = n - amount.toInt →
    n < 2 ^ 63 → m < 2 ^ 63 → ∃ v, f.ofCount (UInt64.ofNat m) = some v ∧
      a.update [⟨f.path, .decrement amount⟩] = .ok (f.assign a v)
  push : f = .annotations → ∀ notes : List Annotation,
    a.update [f.push notes] = .ok { a with annotations := a.annotations ++ notes }
  /-- What was assigned is what is read. -/
  content : ∀ v, f.content? (f.assign a v) = some v
  /-- All other fields keep their contents. -/
  content_of_ne : ∀ v g, g ≠ f → g.content? (f.assign a v) = g.content? a
  /-- And so does all that is not a field, identifiers and the order of
  steps among it. -/
  outline : ∀ v, (f.assign a v).outline = a.outline

/-- Every place that an act has is read and written on its own. A patch
writes through the encoded document, where the place is a path of keys and
positions (`Takes.update_eq`); the positions have to be in range because a
patch does not make an array longer. -/
theorem isLens_of_isIn (hin : f.IsIn a) : f.IsLens a where
  set := update_write hin
  increment hbase hsum hn hm := update_increment hin hbase hsum hn hm
  decrement hbase hdifference hn hm := update_decrement hin hbase hdifference hn hm
  push hf notes := by
    subst hf
    exact (Act.takes_push a notes).update_eq
  content := content?_assign hin
  content_of_ne v _ hne := content?_assign_of_ne hne v
  outline := outline_assign a f

/-- An act with one step, in its second sequence. -/
def sampleSecond : Act :=
  { (default : Act) with sequences := [default, { (default : Sequence) with steps := [default] }] }

theorem sample_isLens :
    (stepDuration 1 0).IsIn sampleSecond ∧ (stepDuration 1 0).IsLens sampleSecond := by
  have hin : (stepDuration 1 0).IsIn sampleSecond := ⟨by decide, by decide, rfl⟩
  exact ⟨hin, isLens_of_isIn hin⟩

end Field

end Workflow
