/-
Workflow.Proofs.Engine.Batch — what the batches of a run do to an act.

For each batch there is a function on acts, and one equation that says when
the batch is accepted and that its update is this function. Nothing else
needs to know that batches go through JSON.
-/
import Workflow.Engine.Batch
import Workflow.Proofs.Act.Field

namespace Workflow

/-! ## Counters -/

namespace Counter

/-- A counter after an increment: it stops at the bound of a signed 64-bit
number. -/
def raise (n : UInt64) (k : Nat) : UInt64 := UInt64.ofNat (min (n.toNat + k) (2 ^ 63 - 1))

/-- A counter after a decrement. -/
def lower (n : UInt64) (k : Nat) : UInt64 := UInt64.ofNat (n.toNat - k)

theorem toNat_ofNat {n : Nat} (h : n < 2 ^ 63) : (UInt64.ofNat n).toNat = n :=
  UInt64.toNat_ofNat_of_lt' (Nat.lt_trans h (by decide))

theorem encode_ofNat {n : Nat} (h : n < 2 ^ 63) : encode (UInt64.ofNat n) = Json.int n := by
  show Json.int (UInt64.ofNat n).toNat = Json.int n
  rw [toNat_ofNat h]

/-- The form of a counter that was counted up, and of one that was counted
down. -/
theorem encode_raise (n : UInt64) (k : Nat) :
    encode (raise n k) = Json.int (min (n.toNat + k) (2 ^ 63 - 1) : Nat) :=
  encode_ofNat (by omega)

theorem encode_lower {n : UInt64} (h : n.toNat < 2 ^ 63) (k : Nat) :
    encode (lower n k) = Json.int (n.toNat - k : Nat) :=
  encode_ofNat (by omega)

theorem toNat_raise (n : UInt64) (k : Nat) :
    (raise n k).toNat = min (n.toNat + k) (2 ^ 63 - 1) :=
  toNat_ofNat (by omega)

theorem raise_zero {n : UInt64} (h : n.toNat < 2 ^ 63) : raise n 0 = n := by
  rw [raise, Nat.add_zero, Nat.min_eq_left (by omega), UInt64.ofNat_toNat]

theorem raise_raise (n : UInt64) (k l : Nat) : raise (raise n k) l = raise n (k + l) := by
  rw [raise, toNat_raise, raise]
  exact congrArg UInt64.ofNat (by omega)

theorem raise_ofNat {n k : Nat} (h : n + k < 2 ^ 63) :
    raise (UInt64.ofNat n) k = UInt64.ofNat (n + k) := by
  rw [raise, toNat_ofNat (by omega), Nat.min_eq_left (by omega)]

theorem lower_ofNat {n : Nat} (h : n < 2 ^ 63) (k : Nat) :
    lower (UInt64.ofNat n) k = UInt64.ofNat (n - k) := by
  rw [lower, toNat_ofNat h]

end Counter

/-! ## The batches as functions -/

/-- The step starts to run. -/
def Step.opened (s : Step) : Step := { s with status := .running }

/-- The step has ended. -/
def Step.closed (s : Step) (r : StepReport) : Step :=
  { s with status := r.outcome.status, durationMs := some (Batch.millis r.durationMs) }

namespace Sequence

/-- A sequence once it has been opened: it and its steps are running. -/
def opened (s : Sequence) : Sequence :=
  { s with status := .running, steps := s.steps.map (·.opened) }

/-- A sequence once it has been closed with the reports of its steps. -/
def closed (s : Sequence) (reports : List StepReport) (ms : Nat) : Sequence :=
  { s with
    status := (Tally.ofReports reports).status
    steps := s.steps.zipWith Step.closed reports
    durationMs := some (Batch.millis ms) }

end Sequence

namespace Act

open Counter

/-- `n` steps that waited run. -/
def counted (a : Act) (n : Nat) : Act :=
  { a with
    steps := { a.steps with
      queued := lower a.steps.queued n
      inProgress := raise a.steps.inProgress n } }

/-- Sequence `k`, of `n` steps, runs. -/
def opened (a : Act) (k n : Nat) : Act := (a.counted n).modifySequence k (·.opened)

/-- Sequence `k` has ended, as it was planned in `s`. -/
def closed (a : Act) (k : Nat) (s : Sequence) (reports : List StepReport) (ms : Nat) : Act :=
  let tally := Tally.ofReports reports
  { a.modifySequence k (·.closed reports ms) with
    steps := { a.steps with
      inProgress := lower a.steps.inProgress s.steps.length
      completed := raise a.steps.completed tally.completed
      failed := raise a.steps.failed tally.failed }
    duration := { a.duration with totalTask := raise a.duration.totalTask tally.totalTaskMs }
    annotations := a.annotations ++ Batch.failures s (s.steps.zip reports) }

/-- The run is over, with some notes. -/
def finished (a : Act) (status : Status) (ms : Nat) (notes : List Annotation) : Act :=
  { a with
    status
    duration := { a.duration with wallClock := Batch.millis ms }
    annotations := a.annotations ++ notes }

variable {a : Act} {k : Nat} {s : Sequence}

/-! ## Changes of one sequence -/

theorem modifySequence_modifySequence (a : Act) (k : Nat) (f g : Sequence → Sequence) :
    (a.modifySequence k f).modifySequence k g = a.modifySequence k (g ∘ f) := by
  rw [modifySequence, modifySequence, modifySequence, List.modify_modify_eq]

theorem getElem?_modifySequence {f : Sequence → Sequence} (hs : a.sequences[k]? = some s) :
    (a.modifySequence k f).sequences[k]? = some (f s) := by
  rw [modifySequence, List.getElem?_modify_eq, hs]
  rfl

/-- Changes that agree on the sequence are the same. -/
theorem modifySequence_congr {f g : Sequence → Sequence} (hs : a.sequences[k]? = some s)
    (h : f s = g s) : a.modifySequence k f = a.modifySequence k g := by
  have hmodify : a.sequences.modify k f = a.sequences.modify k g := by
    rw [List.modify_eq_set, List.modify_eq_set, hs]
    exact congrArg (fun s => a.sequences.set k s) h
  rw [modifySequence, modifySequence, hmodify]

theorem modifySequence_self {f : Sequence → Sequence} (hs : a.sequences[k]? = some s)
    (h : f s = s) : a.modifySequence k f = a := by
  rw [modifySequence_congr (g := fun s => s) hs h, modifySequence]
  exact congrArg (fun sequences => { a with sequences }) (List.modify_id k a.sequences)

end Act

namespace Sequence

/-- The steps from position `i` on are changed, each by a value of its
own. -/
def changeFrom {β : Type} (s : Sequence) (change : Step → β → Step) (i : Nat) (bs : List β) :
    Sequence :=
  { s with steps := s.steps.take i ++ (s.steps.drop i).zipWith change bs }

variable {β : Type} {change : Step → β → Step} {s : Sequence}

theorem changeFrom_length (s : Sequence) : s.changeFrom change s.steps.length [] = s := by
  simp [changeFrom]

/-- The first of the elements that are left is changed, and the rest after
it. -/
theorem take_append_zipWith_modify {α : Type} {f : α → β → α} {xs : List α} {i : Nat}
    (hi : i < xs.length) (b : β) (bs : List β) :
    (xs.modify i (f · b)).take (i + 1) ++ ((xs.modify i (f · b)).drop (i + 1)).zipWith f bs =
      xs.take i ++ (xs.drop i).zipWith f (b :: bs) := by
  induction xs generalizing i with
  | nil => exact absurd hi (Nat.not_lt_zero i)
  | cons x xs ih =>
    cases i with
    | zero => simp
    | succ i =>
      have hrest := ih (Nat.lt_of_succ_lt_succ hi)
      simpa using hrest

theorem changeFrom_cons {i : Nat} (hi : i < s.steps.length) (b : β) (bs : List β) :
    (s.modifyStep i (change · b)).changeFrom change (i + 1) bs =
      s.changeFrom change i (b :: bs) :=
  congrArg (fun steps => { s with steps }) (take_append_zipWith_modify hi b bs)

end Sequence

namespace Act

open Counter

variable {a : Act} {k : Nat} {s : Sequence}

/-- Patches for one step after the other, from position `i` on, change the
steps one after the other. -/
theorem takes_steps {β : Type} (patches : Nat → β → List Patch) (change : Step → β → Step)
    (hpatches : ∀ (a : Act) (j : Nat) (b : β), j < 2 ^ 64 → (a.step? k j).isSome →
      a.Takes (patches j b) (a.modifySequence k (·.modifyStep j (change · b))))
    (bs : List β) {i : Nat} (hs : a.sequences[k]? = some s)
    (hlength : i + bs.length = s.steps.length) (hbound : s.steps.length ≤ 2 ^ 64) :
    a.Takes ((bs.zipIdx i).flatMap fun (b, j) => patches j b)
      (a.modifySequence k (·.changeFrom change i bs)) := by
  induction bs generalizing a i s with
  | nil =>
    obtain rfl : i = s.steps.length := by simpa using hlength
    rw [modifySequence_self hs s.changeFrom_length]
    exact .nil a
  | cons b rest ih =>
    rw [List.length_cons] at hlength
    have hstep : (a.step? k i).isSome := by
      rw [step?, hs, Option.bind_some, List.getElem?_eq_getElem (by omega)]
      rfl
    -- the patches for this step, and then those for the steps behind it
    refine (hpatches a i b (by omega) hstep).append ?_
    have hsame : a.modifySequence k
        ((·.changeFrom change (i + 1) rest) ∘ (·.modifyStep i (change · b))) =
        a.modifySequence k (·.changeFrom change i (b :: rest)) :=
      modifySequence_congr hs (Sequence.changeFrom_cons (by omega) b rest)
    have hmodified := getElem?_modifySequence (f := (·.modifyStep i (change · b))) hs
    have hsteps : (s.modifyStep i (change · b)).steps.length = s.steps.length :=
      List.length_modify ..
    rw [← hsame, ← modifySequence_modifySequence]
    exact ih hmodified (by omega) (by omega)

/-! ## The batches of a run -/

theorem takes_begin (a : Act) : a.Takes Batch.begin { a with status := .running } :=
  takes_set (f := .status) trivial rfl

/-- The batch that opens a sequence, step by step. -/
theorem opening_eq (k : Nat) (s : Sequence) : Batch.opening k s =
    [Field.stepsQueued.decrement s.steps.length, Field.stepsInProgress.increment s.steps.length] ++
    ((Field.sequenceStatus k).set Status.running ::
      s.steps.zipIdx.flatMap fun (_, j) => [(Field.stepStatus k j).set Status.running]) := by
  have hpositions : s.steps.zipIdx.map (·.2) = List.range s.steps.length := by
    rw [List.zipIdx_map_snd, List.range_eq_range']
  rw [Batch.opening, ← hpositions, List.map_map, List.map_eq_flatMap]
  rfl

/-- Steps that waited are counted as running. -/
theorem takes_counted {n : Nat} (hn : n ≤ a.steps.queued.toNat)
    (hqueued : a.steps.queued.toNat < 2 ^ 63) (hrunning : a.steps.inProgress.toNat < 2 ^ 63) :
    a.Takes [Field.stepsQueued.decrement n, Field.stepsInProgress.increment n] (a.counted n) := by
  let a₁ := Field.stepsQueued.put a (lower a.steps.queued n)
  have h₁ : a.Takes [Field.stepsQueued.decrement n] a₁ :=
    takes_decrement trivial rfl hn hqueued (encode_lower hqueued n)
  exact h₁.cons (takes_increment trivial rfl hrunning (encode_raise _ n))

/-- The batch that opens a sequence counts its steps and sets all statuses to
running. -/
theorem takes_opening (hk : k < 2 ^ 64) (hs : a.sequences[k]? = some s)
    (hn : s.steps.length ≤ a.steps.queued.toNat) (hqueued : a.steps.queued.toNat < 2 ^ 63)
    (hrunning : a.steps.inProgress.toNat < 2 ^ 63) :
    a.Takes (Batch.opening k s) (a.opened k s.steps.length) := by
  have h₂ := takes_counted hn hqueued hrunning
  let a₂ := a.counted s.steps.length
  have hs₂ : a₂.sequences[k]? = some s := hs
  let a₃ := (Field.sequenceStatus k).put a₂ .running
  have h₃ : a₂.Takes [(Field.sequenceStatus k).set Status.running] a₃ :=
    takes_set ⟨hk, by rw [hs₂]; rfl⟩ rfl
  have hs₃ : a₃.sequences[k]? = some { s with status := .running } :=
    getElem?_modifySequence hs₂
  have h₄ := takes_steps (fun j (_ : Step) => [(Field.stepStatus k j).set Status.running])
    (fun step _ => step.opened) (fun a j _ hj hstep => takes_set ⟨hk, hj, hstep⟩ rfl) s.steps
    hs₃ (Nat.zero_add _) (by show s.steps.length ≤ _; omega)
  have hopened : a₃.modifySequence k (·.changeFrom (fun step _ => step.opened) 0 s.steps) =
      a.opened k s.steps.length := by
    refine (modifySequence_modifySequence a₂ k _ _).trans (modifySequence_congr hs₂ ?_)
    simp [Sequence.changeFrom, Sequence.opened, List.zipWith_self]
  rw [opening_eq, ← hopened]
  exact h₂.append (h₃.cons h₄)

/-- A sequence is only opened if its position and the number of waiting
steps can be told. -/
theorem of_update_opening {b : Act} (h : a.update (Batch.opening k s) = .ok b)
    (hn : s.steps.length ≤ a.steps.queued.toNat)
    (hrunning : a.steps.inProgress.toNat < 2 ^ 63) :
    a.steps.queued.toNat < 2 ^ 63 ∧ k < 2 ^ 64 := by
  obtain ⟨doc, hdoc⟩ := exists_of_update h
  rw [opening_eq] at hdoc
  have hqueued : a.steps.queued.toNat < 2 ^ 63 := by
    obtain ⟨first, hfirst, -⟩ := Patch.applyAll_cons_eq_ok hdoc
    exact queued_lt_of_apply hfirst
  have hcounted := takes_counted hn hqueued hrunning
  obtain ⟨third, hthird, -⟩ := Patch.applyAll_cons_eq_ok (hcounted.rest hdoc)
  exact ⟨hqueued, index_lt_of_apply hthird⟩

/-- The part of a batch that closes steps, step by step. -/
theorem stepEnds_eq (k i : Nat) (reports : List StepReport) : Batch.stepEnds k i reports =
    (reports.zipIdx i).flatMap fun (r, j) => Batch.stepEnd k j r := by
  induction reports generalizing i with
  | nil => rfl
  | cons r rest ih =>
    rw [Batch.stepEnds, ih, List.zipIdx_cons, List.flatMap_cons]

/-- The step at a position after it was changed there. -/
theorem step?_modifyStep (a : Act) (k j : Nat) (f : Step → Step) :
    (a.modifySequence k (·.modifyStep j f)).step? k j = (a.step? k j).map f := by
  simp only [step?, modifySequence, List.getElem?_modify_eq]
  cases a.sequences[k]? with
  | none => rfl
  | some s => exact List.getElem?_modify_eq f j s.steps

/-- The patches for the end of a step write its status and its time. -/
theorem takes_stepEnd (hk : k < 2 ^ 64) {j : Nat} (r : StepReport) (hj : j < 2 ^ 64)
    (hstep : (a.step? k j).isSome) :
    a.Takes (Batch.stepEnd k j r) (a.modifySequence k (·.modifyStep j (·.closed r))) := by
  let a₁ := (Field.stepStatus k j).put a r.outcome.status
  have h₁ : a.Takes [(Field.stepStatus k j).set r.outcome.status] a₁ :=
    takes_set ⟨hk, hj, hstep⟩ rfl
  have hstep₁ : (a₁.step? k j).isSome := by
    show ((a.modifySequence k (·.modifyStep j _)).step? k j).isSome
    rwa [step?_modifyStep, Option.isSome_map]
  have h₂ := takes_set (a := a₁) (f := .stepDuration k j) (v := Batch.millis r.durationMs)
    ⟨hk, hj, hstep₁⟩ rfl
  have hclosed : (Field.stepDuration k j).put a₁ (Batch.millis r.durationMs) =
      a.modifySequence k (·.modifyStep j (·.closed r)) := by
    refine (modifySequence_modifySequence a k _ _).trans (congrArg (a.modifySequence k) ?_)
    funext s
    show { s with steps := _ } = { s with steps := _ }
    exact congrArg (fun steps => { s with steps }) (List.modify_modify_eq _ _ j s.steps)
  exact hclosed ▸ h₁.cons h₂

/-- Counters that do not change are not sent. -/
theorem takes_unlessZero {f : Field} {n k : Nat} {v : f.Value} (hin : f.IsIn a)
    (hform : f.formIn a = .int n) (hbound : n < 2 ^ 63)
    (hv : f.form v = .int (min (n + k) (2 ^ 63 - 1) : Nat))
    (hsame : k = 0 → f.put a v = a) : a.Takes (Batch.unlessZero k f.increment) (f.put a v) := by
  unfold Batch.unlessZero
  split
  · rename_i hzero
    rw [hsame hzero]
    exact .nil a
  · exact takes_increment hin hform hbound hv

/-- Annotations are pushed only if there are any. -/
theorem takes_annotate (a : Act) (notes : List Annotation) :
    a.Takes (Batch.annotate notes) { a with annotations := a.annotations ++ notes } := by
  unfold Batch.annotate
  split
  · rename_i hempty
    rw [List.isEmpty_iff.mp hempty, List.append_nil]
    exact .nil a
  · exact takes_push a notes

/-- The batch that closes a sequence counts its steps as what they came to,
adds up their time, notes failures and writes statuses and times. -/
theorem takes_closing {t : Sequence} {reports : List StepReport} (hk : k < 2 ^ 64)
    (ht : a.sequences[k]? = some t) (hlength : t.steps.length = s.steps.length)
    (hreports : reports.length = s.steps.length)
    (hn : s.steps.length ≤ a.steps.inProgress.toNat)
    (hrunning : a.steps.inProgress.toNat < 2 ^ 63) (hcompleted : a.steps.completed.toNat < 2 ^ 63)
    (hfailed : a.steps.failed.toNat < 2 ^ 63) (htotal : a.duration.totalTask.toNat < 2 ^ 63)
    (ms : Nat) : a.Takes (Batch.closing k s reports ms) (a.closed k s reports ms) := by
  -- the act after each part of the batch, in the order of the patches
  let tally := Tally.ofReports reports
  let a₁ := a.modifySequence k (·.changeFrom Step.closed 0 reports)
  have h₁ : a.Takes (Batch.stepEnds k 0 reports) a₁ := by
    rw [stepEnds_eq]
    exact takes_steps (Batch.stepEnd k) Step.closed
      (fun a j r hj hstep => takes_stepEnd hk r hj hstep) reports ht (by omega) (by omega)
  let a₂ := Field.stepsInProgress.put a₁ (lower a.steps.inProgress s.steps.length)
  have h₂ : a₁.Takes [Field.stepsInProgress.decrement s.steps.length] a₂ :=
    takes_decrement trivial rfl hn hrunning (encode_lower hrunning _)
  let a₃ := Field.stepsCompleted.put a₂ (raise a.steps.completed tally.completed)
  have h₃ : a₂.Takes (Batch.unlessZero tally.completed Field.stepsCompleted.increment) a₃ := by
    refine takes_unlessZero trivial rfl hcompleted (encode_raise _ _) fun hzero => ?_
    simp [Field.put, hzero, raise_zero hcompleted, a₂, a₁, modifySequence]
  let a₄ := Field.stepsFailed.put a₃ (raise a.steps.failed tally.failed)
  have h₄ : a₃.Takes (Batch.unlessZero tally.failed Field.stepsFailed.increment) a₄ := by
    refine takes_unlessZero trivial rfl hfailed (encode_raise _ _) fun hzero => ?_
    simp [Field.put, hzero, raise_zero hfailed, a₃, a₂, a₁, modifySequence]
  let a₅ := Field.totalTask.put a₄ (raise a.duration.totalTask tally.totalTaskMs)
  have h₅ : a₄.Takes [Field.totalTask.increment tally.totalTaskMs] a₅ :=
    takes_increment trivial rfl htotal (encode_raise _ _)
  have ht₅ : a₅.sequences[k]? = some (t.changeFrom Step.closed 0 reports) :=
    getElem?_modifySequence ht
  let a₆ := (Field.sequenceStatus k).put a₅ tally.status
  have h₆ : a₅.Takes [(Field.sequenceStatus k).set tally.status] a₆ :=
    takes_set ⟨hk, by rw [ht₅]; rfl⟩ rfl
  have ht₆ := getElem?_modifySequence (f := ({ · with status := tally.status })) ht₅
  let a₇ := (Field.sequenceDuration k).put a₆ (Batch.millis ms)
  have h₇ : a₆.Takes [(Field.sequenceDuration k).set (Batch.millis ms)] a₇ :=
    takes_set ⟨hk, Option.isSome_of_eq_some ht₆⟩ rfl
  have h₈ := takes_annotate a₇ (Batch.failures s (s.steps.zip reports))
  -- the changes of the one sequence, put together
  have hsequence : (a₁.modifySequence k ({ · with status := tally.status })).modifySequence k
      ({ · with durationMs := some (Batch.millis ms) }) =
      a.modifySequence k (·.closed reports ms) := by
    rw [modifySequence_modifySequence, modifySequence_modifySequence]
    refine modifySequence_congr ht ?_
    simp [Sequence.changeFrom, Sequence.closed, tally]
  have hnotes : ({ a₇ with
      annotations := a₇.annotations ++ Batch.failures s (s.steps.zip reports) } : Act) =
      a.closed k s reports ms := by
    have hsequences := congrArg Act.sequences hsequence
    simp only [a₇, a₆, a₅, a₄, a₃, a₂, a₁, tally, Field.put, modifySequence,
      closed] at hsequences ⊢
    rw [hsequences]
  rw [← hnotes]
  exact ((((h₁.append h₂).append h₃).append h₄).append (h₅.cons (h₆.cons h₇))).append h₈

/-- The last batch of a run writes status and time, and notes a cancellation. -/
theorem takes_final (a : Act) (status : Status) (ms : Nat) :
    a.Takes (Batch.final status ms)
      (a.finished status ms (if status = .cancelled then [Batch.cancelNote] else [])) := by
  have h₁ : a.Takes [Field.status.set status] (Field.status.put a status) := takes_set trivial rfl
  have h₂ := takes_set (a := Field.status.put a status) (f := .wallClock)
    (v := Batch.millis ms) trivial rfl
  exact (h₁.cons h₂).append (takes_annotate _ _)

/-- The batch of an abort writes status and time, and notes the error. -/
theorem takes_abort (a : Act) (e : EngineError) (ms : Nat) :
    a.Takes (Batch.abort e ms) (a.finished .failed ms [Batch.abortNote e]) := by
  have h₁ : a.Takes [Field.status.set Status.failed] (Field.status.put a .failed) :=
    takes_set trivial rfl
  have h₂ := takes_set (a := Field.status.put a .failed) (f := .wallClock)
    (v := Batch.millis ms) trivial rfl
  exact h₁.cons (h₂.cons (takes_push _ _))

end Act

end Workflow
