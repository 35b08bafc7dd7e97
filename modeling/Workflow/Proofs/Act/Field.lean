/-
Workflow.Proofs.Act.Field — patches are changes of fields.

A patch works on the JSON form of an act. `Field.put` is the same change
made on the act itself, and `takes_patch` says so for every place: if the
place is in the act and the operation makes the form of a value of it, then
the patched form is the form of the changed act. `Act.Takes` chains such
changes, and `update_eq` turns them into an update.
-/
import Workflow.Act.Update
import Workflow.Proofs.Act.Codec

namespace Workflow

/-! ## Edits of documents -/

namespace Patch

variable {edit : Json → Except Fault Json} {rest : List String} {old new : Json}

theorem editAt_nil (h : edit old = .ok new) : editAt edit [] old = (new, none) := by
  simp [editAt, h]

theorem editAt_key {key : String} {fields : List (String × Json)}
    (hget : (Fields.get? key fields).getD .null = old) (h : editAt edit rest old = (new, none)) :
    editAt edit (key :: rest) (.obj fields) = (.obj (Fields.insert key new fields), none) := by
  simp [editAt, hget, h]

/-- A position leads into an array if 64 bits can hold it. -/
theorem editAt_item {i : Nat} {items : List Json} (hi : i < 2 ^ 64) (hget : items[i]? = some old)
    (h : editAt edit rest old = (new, none)) :
    editAt edit (toString i :: rest) (.arr items) = (.arr (items.set i new), none) := by
  have hread : Text.readUnsigned (toString i).toList = some i := by
    rw [Text.readUnsigned_toString, if_pos hi]
  simp only [editAt, hread, hget, h]

/-- A list that is written down, edited at one of its values. -/
theorem editAt_map_encode {α : Type} [Codec α] {values : List α} {i : Nat} {value value' : α}
    (hi : i < 2 ^ 64) (hget : values[i]? = some value)
    (h : editAt edit rest (encode value) = (encode value', none)) :
    editAt edit (toString i :: rest) (encode values) = (encode (values.set i value'), none) := by
  have hitem : (values.map encode)[i]? = some (encode value) := by
    rw [List.getElem?_map, hget]
    rfl
  rw [show encode values = Json.arr (values.map encode) from rfl, editAt_item hi hitem h,
    ← List.map_set]
  rfl

end Patch

/-! ## Paths -/

/-- Words without dots are found again in their path. -/
theorem Text.splitDots_joinDots {words : List String} (hne : words ≠ [])
    (h : ∀ word ∈ words, '.' ∉ word.toList) : splitDots (joinDots words) = words := by
  rw [splitDots, joinDots, String.toList_ofList, splitChars_joinChars]
  · simp
  · simpa using hne
  · intro word hword
    obtain ⟨w, hw, rfl⟩ := List.mem_map.mp hword
    exact h w hw

theorem Text.dot_not_mem_toString (n : Nat) : '.' ∉ (toString n).toList := by
  rw [Nat.toString_eq_repr, Nat.toList_repr]
  intro h
  exact absurd (Text.isDigit_of_mem_toDigits h) (by decide)

namespace Field

/-- A path leads where its segments lead. -/
theorem segments_path (f : Field) : Patch.segments f.path = f.segments := by
  have hsplit : Text.splitDots f.path = f.segments := by
    refine Text.splitDots_joinDots ?_ ?_
    · cases f <;> simp [segments]
    · have hdot := Text.dot_not_mem_toString
      cases f <;> simp [segments, hdot, -Nat.toString_eq_repr]
  have hne : f.path ≠ "" := by
    intro hempty
    rw [hempty] at hsplit
    have hblank : f.segments = [""] := hsplit.symm
    cases f <;> simp [segments] at hblank
  rw [Patch.segments, if_neg hne, hsplit]

end Field

/-! ## Places

A place is known in three ways: as the path of a patch, as a part of the act
that can be put, and as a part of the JSON form of the act. The section ends
with the equation between the last two. -/

/-- The sequence at a position is changed. -/
def Act.modifySequence (a : Act) (i : Nat) (f : Sequence → Sequence) : Act :=
  { a with sequences := a.sequences.modify i f }

def Sequence.modifyStep (s : Sequence) (j : Nat) (f : Step → Step) : Sequence :=
  { s with steps := s.steps.modify j f }

/-- What the act counts at a place, if this is a counter. -/
def Act.count? (a : Act) : Field → Option UInt64
  | .stepsQueued => some a.steps.queued
  | .stepsInProgress => some a.steps.inProgress
  | .stepsCompleted => some a.steps.completed
  | .stepsFailed => some a.steps.failed
  | .wallClock => some a.duration.wallClock
  | .totalTask => some a.duration.totalTask
  | _ => none

namespace Field

/-- What can stand at a place. -/
abbrev Value : Field → Type
  | status | sequenceStatus _ | stepStatus _ _ => Status
  | annotations => List Annotation
  | stepsQueued | stepsInProgress | stepsCompleted | stepsFailed | wallClock | totalTask
  | sequenceDuration _ | stepDuration _ _ => UInt64

/-- The form of a value of a place. -/
def form : (f : Field) → f.Value → Json
  | status, v | sequenceStatus _, v | stepStatus _ _, v => encode v
  | annotations, v => encode v
  | stepsQueued, v | stepsInProgress, v | stepsCompleted, v | stepsFailed, v | wallClock, v
  | totalTask, v | sequenceDuration _, v | stepDuration _ _, v => encode v

/-- The form of what stands at a place of an act. -/
def formIn (a : Act) : Field → Json
  | status => encode a.status
  | stepsQueued => encode a.steps.queued
  | stepsInProgress => encode a.steps.inProgress
  | stepsCompleted => encode a.steps.completed
  | stepsFailed => encode a.steps.failed
  | wallClock => encode a.duration.wallClock
  | totalTask => encode a.duration.totalTask
  | annotations => encode a.annotations
  | sequenceStatus i => (a.sequences[i]?).elim .null (encode ·.status)
  | sequenceDuration i => ((a.sequences[i]?).bind (·.durationMs)).elim .null encode
  | stepStatus i j => (a.step? i j).elim .null (encode ·.status)
  | stepDuration i j => ((a.step? i j).bind (·.durationMs)).elim .null encode

/-- Whether an act has the place. -/
def IsIn (a : Act) : Field → Prop
  | sequenceStatus i | sequenceDuration i => i < 2 ^ 64 ∧ (a.sequences[i]?).isSome
  | stepStatus i j | stepDuration i j => i < 2 ^ 64 ∧ j < 2 ^ 64 ∧ (a.step? i j).isSome
  | _ => True

/-- An act with another value at a place. -/
def put (a : Act) : (f : Field) → f.Value → Act
  | status, v => { a with status := v }
  | stepsQueued, v => { a with steps := { a.steps with queued := v } }
  | stepsInProgress, v => { a with steps := { a.steps with inProgress := v } }
  | stepsCompleted, v => { a with steps := { a.steps with completed := v } }
  | stepsFailed, v => { a with steps := { a.steps with failed := v } }
  | wallClock, v => { a with duration := { a.duration with wallClock := v } }
  | totalTask, v => { a with duration := { a.duration with totalTask := v } }
  | annotations, v => { a with annotations := v }
  | sequenceStatus i, v => a.modifySequence i ({ · with status := v })
  | sequenceDuration i, v => a.modifySequence i ({ · with durationMs := some v })
  | stepStatus i j, v => a.modifySequence i (·.modifyStep j ({ · with status := v }))
  | stepDuration i j, v => a.modifySequence i (·.modifyStep j ({ · with durationMs := some v }))

end Field

section

variable {edit : Json → Except Patch.Fault Json} {rest : List String} {a : Act} {s : Sequence}

/-- An edit inside a sequence is a change of the sequence at its position. The
same is said of the other parts of an act below. -/
theorem Act.editAt_sequence {i : Nat} {f : Sequence → Sequence} (hi : i < 2 ^ 64)
    (hs : a.sequences[i]? = some s)
    (h : Patch.editAt edit rest (encode s) = (encode (f s), none)) :
    Patch.editAt edit ("sequences" :: toString i :: rest) (encode a) =
      (encode (a.modifySequence i f), none) := by
  have hset : a.sequences.modify i f = a.sequences.set i (f s) := by
    rw [List.modify_eq_set, hs]
    rfl
  rw [Act.modifySequence, hset, Act.encode_eq, Act.encode_eq]
  exact Patch.editAt_key rfl (Patch.editAt_map_encode hi hs h)

theorem Act.editAt_steps {c : StepCounts}
    (h : Patch.editAt edit rest (encode a.steps) = (encode c, none)) :
    Patch.editAt edit ("steps" :: rest) (encode a) = (encode { a with steps := c }, none) := by
  rw [Act.encode_eq, Act.encode_eq]
  exact Patch.editAt_key rfl h

theorem Act.editAt_duration {d : ActDuration}
    (h : Patch.editAt edit rest (encode a.duration) = (encode d, none)) :
    Patch.editAt edit ("duration" :: rest) (encode a) =
      (encode { a with duration := d }, none) := by
  rw [Act.encode_eq, Act.encode_eq]
  exact Patch.editAt_key rfl h

/-- An edit inside a step is a change of the step at its position. -/
theorem Sequence.editAt_step {j : Nat} {step : Step} {f : Step → Step} (hj : j < 2 ^ 64)
    (hstep : s.steps[j]? = some step)
    (h : Patch.editAt edit rest (encode step) = (encode (f step), none)) :
    Patch.editAt edit ("steps" :: toString j :: rest) (encode s) =
      (encode (s.modifyStep j f), none) := by
  have hset : s.steps.modify j f = s.steps.set j (f step) := by
    rw [List.modify_eq_set, hstep]
    rfl
  rw [Sequence.modifyStep, hset]
  have hsteps := Patch.editAt_map_encode hj hstep h
  rw [Sequence.encode_eq, Sequence.encode_eq]
  obtain ⟨id, status, steps, ms⟩ := s
  cases ms <;> exact Patch.editAt_key rfl hsteps

namespace Field

/-- An edit of a place in an act is a change of that place. -/
theorem editAt_segments {f : Field} {v : f.Value} (hin : f.IsIn a)
    (h : edit (f.formIn a) = .ok (f.form v)) :
    Patch.editAt edit f.segments (encode a) = (encode (f.put a v), none) := by
  -- one case for each depth of the place: a sequence, a step, the act, one of its two
  -- records
  cases f with
  | sequenceStatus i | sequenceDuration i =>
    obtain ⟨hi, hs⟩ := hin
    obtain ⟨s, hs⟩ := Option.isSome_iff_exists.mp hs
    refine Act.editAt_sequence hi hs ?_
    rw [formIn, hs] at h
    rw [Sequence.encode_eq, Sequence.encode_eq]
    obtain ⟨id, status, steps, ms⟩ := s
    -- a duration that is missing has no key, and one is made
    cases ms <;> exact Patch.editAt_key rfl (Patch.editAt_nil h)
  | stepStatus i j | stepDuration i j =>
    obtain ⟨hi, hj, hstep⟩ := hin
    obtain ⟨step, hstep⟩ := Option.isSome_iff_exists.mp hstep
    obtain ⟨s, hs, hj'⟩ := Option.bind_eq_some_iff.mp hstep
    refine Act.editAt_sequence hi hs (Sequence.editAt_step hj hj' ?_)
    rw [formIn, hstep] at h
    rw [Step.encode_eq, Step.encode_eq]
    obtain ⟨id, node, name, operation, generation, status, ms⟩ := step
    cases ms <;> exact Patch.editAt_key rfl (Patch.editAt_nil h)
  | status | annotations =>
    rw [Act.encode_eq, Act.encode_eq]
    exact Patch.editAt_key rfl (Patch.editAt_nil h)
  | stepsQueued | stepsInProgress | stepsCompleted | stepsFailed =>
    refine Act.editAt_steps ?_
    rw [StepCounts.encode_eq, StepCounts.encode_eq]
    exact Patch.editAt_key rfl (Patch.editAt_nil h)
  | wallClock | totalTask =>
    refine Act.editAt_duration ?_
    rw [ActDuration.encode_eq, ActDuration.encode_eq]
    exact Patch.editAt_key rfl (Patch.editAt_nil h)

end Field

end

/-! ## Operations -/

namespace Patch

theorem saturate_eq {n : Int} (hlow : -2 ^ 63 ≤ n) (hhigh : n < 2 ^ 63) : saturate n = n := by
  rw [saturate]
  omega

theorem counter_eq {n : Nat} (h : n < 2 ^ 63) : counter (.int n) = .ok (n : Int) := by
  rw [counter, if_pos (by omega)]

theorem amount_toInt {k : Nat} (h : k < 2 ^ 63) : (Field.amount k).toInt = k := by
  rw [Field.amount, saturate_eq (by omega) (by omega)]
  exact Int64.toInt_ofInt_of_le (by omega) (by omega)

/-- Counting up stops at the bound. -/
theorem edit_increment {n : Nat} (k : Nat) (h : n < 2 ^ 63) :
    edit (.increment (Field.amount k)) (.int n) = .ok (.int (min (n + k) (2 ^ 63 - 1) : Nat)) := by
  have hamount : (Field.amount k).toInt = (min k (2 ^ 63 - 1) : Nat) := by
    rw [Field.amount, saturate, Int64.toInt_ofInt_of_le (by omega) (by omega)]
    omega
  have hsum : saturate ((n : Int) + (min k (2 ^ 63 - 1) : Nat)) =
      (min (n + k) (2 ^ 63 - 1) : Nat) := by
    rw [saturate]
    omega
  rw [edit, hamount, add, counter_eq h]
  show (if saturate ((n : Int) + (min k (2 ^ 63 - 1) : Nat)) < 0 then Except.error Fault.negative
    else .ok (Json.int (saturate ((n : Int) + (min k (2 ^ 63 - 1) : Nat))))) = _
  rw [hsum, if_neg (by omega)]

/-- Counting down is exact as long as it does not lead below zero. -/
theorem edit_decrement {n k : Nat} (hk : k ≤ n) (h : n < 2 ^ 63) :
    edit (.decrement (Field.amount k)) (.int n) = .ok (.int (n - k : Nat)) := by
  have hamount : saturate (-(k : Int)) = -k := saturate_eq (by omega) (by omega)
  have hdifference : saturate ((n : Int) + saturate (-k)) = (n - k : Nat) := by
    rw [hamount, saturate_eq (by omega) (by omega)]
    omega
  rw [edit, amount_toInt (by omega), add, counter_eq h]
  show (if saturate ((n : Int) + saturate (-k)) < 0 then Except.error Fault.negative
    else .ok (Json.int (saturate ((n : Int) + saturate (-k))))) = _
  rw [hdifference, if_neg (by omega)]

/-- Larger numbers do not count. -/
theorem lt_of_edit_decrement {n : Nat} {amount : Int64} {new : Json}
    (h : edit (.decrement amount) (.int n) = .ok new) : n < 2 ^ 63 := by
  rcases Nat.lt_or_ge n (2 ^ 63) with hlt | hge
  · exact hlt
  · rw [edit, add, counter, if_neg (by omega)] at h
    cases h

/-- Pushing written values onto a written list writes the longer list. -/
theorem edit_push {α : Type} [Codec α] (old values : List α) :
    edit (.push (values.map encode)) (encode old) = .ok (encode (old ++ values)) := by
  show Except.ok (Json.arr (old.map encode ++ values.map encode)) = _
  rw [← List.map_append]
  rfl

end Patch

/-! ## Batches

`Takes` is a relation between acts, so that batches are put together by what
they do and not by what they look like. -/

namespace Act

/-- A batch makes the form of one act from that of another. -/
structure Takes (a : Act) (patches : List Patch) (b : Act) : Prop where
  applyAll_eq : Patch.applyAll patches (encode a) = .ok (encode b)

variable {a b c : Act}

theorem Takes.nil (a : Act) : a.Takes [] a := ⟨rfl⟩

/-- Batches one after the other are one batch. -/
theorem Takes.append {p q : List Patch} (h : a.Takes p b) (h' : b.Takes q c) :
    a.Takes (p ++ q) c := by
  have hp := h.applyAll_eq
  rw [Patch.applyAll] at hp
  constructor
  rw [Patch.applyAll, List.foldlM_append, hp]
  exact h'.applyAll_eq

theorem Takes.cons {p : Patch} {q : List Patch} (h : a.Takes [p] b) (h' : b.Takes q c) :
    a.Takes (p :: q) c := h.append h'

/-- What is left of a batch, once its first part is done. -/
theorem Takes.rest {p q : List Patch} {new : Json} (h : a.Takes p b)
    (hall : Patch.applyAll (p ++ q) (encode a) = .ok new) :
    Patch.applyAll q (encode b) = .ok new := by
  have hp := h.applyAll_eq
  rw [Patch.applyAll] at hp
  rw [Patch.applyAll, List.foldlM_append, hp] at hall
  exact hall

theorem Takes.update_eq {patches : List Patch} (h : a.Takes patches b) :
    a.update patches = .ok b := by
  simp [update, h.applyAll_eq, bind, Except.bind, decode_encode]

/-- One patch at a place that the act has: if the operation makes a value's
form of what stands there, the act comes to hold this value and is the same
otherwise. -/
theorem takes_patch {f : Field} {op : PatchOp} {v : f.Value} (hin : f.IsIn a)
    (h : Patch.edit op (f.formIn a) = .ok (f.form v)) : a.Takes [⟨f.path, op⟩] (f.put a v) := by
  have hrun : Patch.run ⟨f.path, op⟩ (encode a) = (encode (f.put a v), none) := by
    rw [Patch.run, f.segments_path, Field.editAt_segments hin h]
    rfl
  constructor
  rw [Patch.applyAll, List.foldlM_cons, Patch.apply, hrun]
  rfl

theorem takes_set {α : Type} [Codec α] {f : Field} {value : α} {v : f.Value} (hin : f.IsIn a)
    (h : encode value = f.form v) : a.Takes [f.set value] (f.put a v) :=
  takes_patch hin (congrArg Except.ok h)

theorem takes_increment {f : Field} {n k : Nat} {v : f.Value} (hin : f.IsIn a)
    (hform : f.formIn a = .int n) (hbound : n < 2 ^ 63)
    (hv : f.form v = .int (min (n + k) (2 ^ 63 - 1) : Nat)) :
    a.Takes [f.increment k] (f.put a v) :=
  takes_patch hin (by rw [hform, hv, Patch.edit_increment k hbound])

theorem takes_decrement {f : Field} {n k : Nat} {v : f.Value} (hin : f.IsIn a)
    (hform : f.formIn a = .int n) (hk : k ≤ n) (hbound : n < 2 ^ 63)
    (hv : f.form v = .int (n - k : Nat)) : a.Takes [f.decrement k] (f.put a v) :=
  takes_patch hin (by rw [hform, hv, Patch.edit_decrement hk hbound])

theorem takes_push (a : Act) (notes : List Annotation) :
    a.Takes [Field.annotations.push notes] { a with annotations := a.annotations ++ notes } :=
  takes_patch trivial (Patch.edit_push a.annotations notes)

end Act

/-! ## Refusals

A batch that was accepted tells something of the act: which positions it has,
and which counters leave room. -/

namespace Patch

theorem fault_eq_none {p : Patch} {doc new : Json} (h : p.apply doc = .ok new) :
    (editAt (edit p.op) (segments p.path) doc).2 = none := by
  cases hfault : (editAt (edit p.op) (segments p.path) doc).2 with
  | none => rfl
  | some fault => simp [apply, run, hfault] at h

/-- An accepted batch is an accepted patch and an accepted rest. -/
theorem applyAll_cons_eq_ok {p : Patch} {rest : List Patch} {doc new : Json}
    (h : applyAll (p :: rest) doc = .ok new) :
    ∃ next, p.apply doc = .ok next ∧ applyAll rest next = .ok new := by
  rw [applyAll, List.foldlM_cons] at h
  cases hp : p.apply doc with
  | ok next =>
    rw [hp] at h
    exact ⟨next, rfl, h⟩
  | error e =>
    rw [hp] at h
    cases h

variable {edit : Json → Except Fault Json} {rest : List String}

/-- An edit is refused for what lies behind its first key. -/
theorem fault_key {key : String} {fields : List (String × Json)} {old : Json}
    (hget : (Fields.get? key fields).getD .null = old) :
    (editAt edit (key :: rest) (.obj fields)).2 = (editAt edit rest old).2 := by
  rw [← hget]
  rfl

/-- At the end of a path only the operation can be refused. -/
theorem exists_of_fault_nil {old : Json} (h : (editAt edit [] old).2 = none) :
    ∃ new, edit old = .ok new := by
  cases hedit : edit old with
  | ok new => exact ⟨new, rfl⟩
  | error fault => simp [editAt, hedit] at h

/-- No item stands at a position that 64 bits cannot hold. -/
theorem lt_of_fault_item {i : Nat} {items : List Json}
    (h : (editAt edit (toString i :: rest) (.arr items)).2 = none) : i < 2 ^ 64 := by
  rcases Nat.lt_or_ge i (2 ^ 64) with hlt | hge
  · exact hlt
  · rw [editAt, Text.readUnsigned_toString, if_neg (Nat.not_lt.mpr hge)] at h
    cases h

end Patch

namespace Act

variable {a : Act} {new : Json}

theorem exists_of_update {patches : List Patch} {b : Act} (h : a.update patches = .ok b) :
    ∃ doc, Patch.applyAll patches (encode a) = .ok doc := by
  cases hdoc : Patch.applyAll patches (encode a) with
  | ok doc => exact ⟨doc, rfl⟩
  | error e => simp [update, hdoc, bind, Except.bind] at h

/-- Where an edit of the counter of queued steps can be refused. -/
theorem fault_queued (edit : Json → Except Patch.Fault Json) :
    (Patch.editAt edit Field.stepsQueued.segments (encode a)).2 =
      (Patch.editAt edit [] (encode a.steps.queued)).2 := by
  have hsteps : (Patch.editAt edit ["queued"] (encode a.steps)).2 =
      (Patch.editAt edit [] (encode a.steps.queued)).2 := by
    rw [StepCounts.encode_eq]
    exact Patch.fault_key rfl
  rw [Act.encode_eq, ← hsteps]
  exact Patch.fault_key rfl

/-- Steps can only be counted down from a number below the bound, whatever the
act. -/
theorem queued_lt_of_apply {n : Nat}
    (h : (Field.stepsQueued.decrement n).apply (encode a) = .ok new) :
    a.steps.queued.toNat < 2 ^ 63 := by
  have hfault := Patch.fault_eq_none h
  rw [Field.decrement, Field.segments_path, fault_queued] at hfault
  obtain ⟨counted, hcounted⟩ := Patch.exists_of_fault_nil hfault
  exact Patch.lt_of_edit_decrement hcounted

/-- Where an edit inside the sequences can be refused. -/
theorem fault_sequences (edit : Json → Except Patch.Fault Json) (rest : List String) :
    (Patch.editAt edit ("sequences" :: rest) (encode a)).2 =
      (Patch.editAt edit rest (encode a.sequences)).2 := by
  rw [Act.encode_eq]
  exact Patch.fault_key rfl

/-- The position of a sequence that is written to can be told. -/
theorem index_lt_of_apply {i : Nat} {status : Status}
    (h : ((Field.sequenceStatus i).set status).apply (encode a) = .ok new) : i < 2 ^ 64 := by
  have hfault := Patch.fault_eq_none h
  rw [Field.set, Field.segments_path, Field.segments, fault_sequences] at hfault
  exact Patch.lt_of_fault_item hfault

end Act

end Workflow
