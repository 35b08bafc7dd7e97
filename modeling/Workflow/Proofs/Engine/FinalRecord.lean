/-
Workflow.Proofs.Engine.FinalRecord — what is stored of a run that is over.

The first sequence that does not end well is the last one to run.
`FinalRecord` says what the stored act then looks like as a whole: what has
run and what has not, the counters and durations, which agree with the
outcome that the run gives back, and the notes, one for each step that
failed, in the order of the plan.
-/
import Mathlib.Data.List.Forall2
import Workflow.Proofs.Engine.Consistency

namespace Workflow

/-! ## Sequences before and after they run -/

/-- An act on which no time is recorded. -/
structure Act.IsUntimed (a : Act) : Prop where
  duration_eq : a.duration = .zero
  sequence_duration : ∀ s ∈ a.sequences, s.durationMs = none
  step_duration : ∀ s ∈ a.sequences, ∀ step ∈ s.steps, step.durationMs = none

/-- The step as a plan knows it. -/
def Step.plan (s : Step) : Step := { s with status := .queued, durationMs := none }

namespace Sequence

/-- The sequence as a plan knows it. -/
def plan (s : Sequence) : Sequence :=
  { s with status := .queued, steps := s.steps.map (·.plan), durationMs := none }

/-- Neither the sequence nor any of its steps has run. -/
structure IsUntouched (s : Sequence) : Prop where
  status_eq : s.status = .queued
  duration_eq : s.durationMs = none
  /-- None of its steps has begun. -/
  steps : ∀ step ∈ s.steps, step.status = .queued ∧ step.durationMs = none

/-- The sequence and all its steps have ended, and it is recorded how long
they took. -/
structure HasRun (s : Sequence) : Prop where
  status_terminal : s.status.isTerminal
  duration_isSome : s.durationMs.isSome
  /-- Each of its steps has a final status and a duration. -/
  steps : ∀ step ∈ s.steps, step.status.isTerminal ∧ step.durationMs.isSome

/-- A step of the sequence has failed, and none is cancelled. -/
structure IsFailed (s : Sequence) : Prop where
  status_eq : s.status = .failed
  exists_failed : ∃ step ∈ s.steps, step.status = .failed
  not_cancelled : ∀ step ∈ s.steps, step.status ≠ .cancelled

/-- The sequence and all its steps are completed. -/
structure IsCompleted (s : Sequence) : Prop where
  status_eq : s.status = .completed
  steps : ∀ step ∈ s.steps, step.status = .completed

end Sequence

theorem Act.untouched {a : Act} (hfresh : a.IsFresh) (huntimed : a.IsUntimed) :
    ∀ s ∈ a.sequences, s.IsUntouched := by
  intro s hs
  refine ⟨hfresh.sequence_status s hs, huntimed.sequence_duration s hs, fun step hstep => ?_⟩
  exact ⟨hfresh.step_status s hs step hstep, huntimed.step_duration s hs step hstep⟩

namespace Finished

variable {f : Finished}

/-- Every step of a finished sequence was closed with a report. -/
theorem exists_of_mem_record {step : Step} (h : step ∈ f.record.steps) :
    ∃ planned : Step, ∃ r ∈ f.reports, step = planned.closed r := by
  obtain ⟨i, hi⟩ := List.mem_iff_getElem?.mp h
  obtain ⟨planned, r, -, hr, rfl⟩ := List.getElem?_zipWith_eq_some.mp hi
  exact ⟨planned, r, List.mem_of_getElem? hr, rfl⟩

/-- Closing steps does not change what was planned. -/
theorem map_plan_closed {steps : List Step} {reports : List StepReport}
    (h : reports.length = steps.length) :
    (steps.zipWith Step.closed reports).map (·.plan) = steps.map (·.plan) := by
  induction steps generalizing reports with
  | nil => rfl
  | cons step rest ih =>
    cases reports with
    | nil => cases h
    | cons r rs =>
      rw [List.zipWith_cons_cons, List.map_cons, List.map_cons, ih (Nat.succ.inj h)]
      rfl

theorem record_plan (h : f.IsWhole) : f.record.plan = f.planned.plan := by
  have hsteps := map_plan_closed h.length_eq
  exact congrArg (fun steps => { f.planned with status := .queued, steps, durationMs := none })
    hsteps

/-- A finished sequence is one that has run. -/
theorem record_hasRun (f : Finished) : f.record.HasRun where
  status_terminal := Tally.status_isTerminal _
  duration_isSome := rfl
  steps := by
    intro step hstep
    obtain ⟨planned, ⟨outcome, ms⟩, -, rfl⟩ := exists_of_mem_record hstep
    cases outcome <;> exact ⟨rfl, rfl⟩

/-- A sequence whose steps were all completed is recorded as completed. -/
theorem record_isCompleted (h : f.IsCompleted) : f.record.IsCompleted where
  status_eq := Tally.status_of_completed h
  steps := by
    intro step hstep
    obtain ⟨planned, r, hr, rfl⟩ := exists_of_mem_record hstep
    show r.outcome.status = .completed
    rw [h r hr]
    rfl

theorem record_isFailed (h : f.IsWhole) (hfailed : 0 < f.tally.failed)
    (hcancelled : f.tally.cancelled = 0) : f.record.IsFailed := by
  have hstatus : f.record.steps.map (·.status) = f.reports.map (·.outcome.status) :=
    Progress.map_status_closed h.length_eq
  obtain ⟨-, hf, hz, -⟩ := Tally.count_status f.reports
  rw [← hstatus] at hf hz
  refine ⟨if_pos hfailed, ?_, ?_⟩
  · have hpos : 0 < (f.record.steps.map (·.status)).count .failed := hf ▸ hfailed
    exact List.mem_map.mp (List.count_pos_iff.mp hpos)
  · intro step hstep hcancel
    have hnone := List.count_eq_zero.mp (hz.trans hcancelled)
    exact hnone (List.mem_map.mpr ⟨step, hstep, hcancel⟩)

end Finished

/-! ## Notes -/

/-- A note says of step `j` of sequence `k` that it failed, with the message
that observers were told. -/
def IsFailureNote (a : Act) (journal : List Entry) (k j : Nat) (note : Annotation) : Prop :=
  ∃ s step message, a.sequences[k]? = some s ∧ s.steps[j]? = some step ∧
    Entry.notice (.stepError step k j message) ∈ journal ∧
    note = .forStep (.error (step.failureText message)) s.id step.id

/-- Lists that are related piece by piece. -/
theorem forall₂_flatMap {α β γ : Type} {R : α → β → Prop} {f : γ → List α} {g : γ → List β}
    {xs : List γ} (h : ∀ x ∈ xs, List.Forall₂ R (f x) (g x)) :
    List.Forall₂ R (xs.flatMap f) (xs.flatMap g) := by
  induction xs with
  | nil => exact .nil
  | cons x rest ih =>
    rw [List.flatMap_cons, List.flatMap_cons]
    exact List.rel_append (h x List.mem_cons_self) (ih fun y hy => h y (List.mem_cons_of_mem _ hy))

/-- The steps of sequence `k` that failed, with their positions. -/
def Sequence.failedSteps (s : Sequence) (k : Nat) : List (Nat × Nat × Step) :=
  (s.steps.zipIdx.map fun (step, j) => (k, j, step)).filter (·.2.2.status = .failed)

/-- All steps that failed, in the order of the plan. -/
def Act.failedSteps (a : Act) : List (Nat × Nat × Step) :=
  a.positions.filter (·.2.2.status = .failed)

theorem Act.failedSteps_eq (a : Act) :
    a.failedSteps = a.sequences.zipIdx.flatMap fun (s, k) => s.failedSteps k :=
  List.filter_flatMap

/-- A sequence that waits has none. -/
theorem Sequence.failedSteps_eq_nil {s : Sequence} (h : ∀ step ∈ s.steps, step.status = .queued)
    (k : Nat) : s.failedSteps k = [] := by
  refine List.filter_eq_nil_iff.mpr fun x hx => ?_
  obtain ⟨⟨step, j⟩, hstep, rfl⟩ := List.mem_map.mp hx
  have hmem : step ∈ s.steps := List.fst_mem_of_mem_zipIdx hstep
  simp [h step hmem]

/-- The notes of a sequence, from step `j` on. -/
theorem forall₂_failures {R : Nat × Nat × Step → Annotation → Prop} {k : Nat} {s : Sequence}
    {steps : List Step} {reports : List StepReport} (j : Nat)
    (h : ∀ i step r message, steps[i]? = some step → reports[i]? = some r →
      r.outcome = .failed message → R (k, j + i, step.closed r)
        (.forStep (.error (step.failureText message)) s.id step.id)) :
    List.Forall₂ R
      ((((steps.zipWith Step.closed reports).zipIdx j).map fun (step, i) => (k, i, step)).filter
        (·.2.2.status = .failed))
      (Batch.failures s (steps.zip reports)) := by
  induction steps generalizing reports j with
  | nil => exact .nil
  | cons step rest ih =>
    cases reports with
    | nil => exact .nil
    | cons r rs =>
      have hrest := @ih rs (j + 1) fun i step' r' message hstep hr hm => by
        rw [Nat.add_assoc, Nat.add_comm 1 i]
        exact h (i + 1) step' r' message hstep hr hm
      rw [List.zipWith_cons_cons, List.zipIdx_cons, List.map_cons, List.zip_cons_cons]
      obtain ⟨outcome, ms⟩ := r
      cases outcome with
      | completed => exact hrest
      | cancelled => exact hrest
      | failed message => exact .cons (h 0 step _ message rfl rfl rfl) hrest

namespace Progress

variable {a : Act} {p : Progress} {journal : List Entry}

/-- Between sequences the failed steps are those of the finished sequences. -/
theorem failedSteps_record (hfresh : a.IsFresh) (hof : p.Of a) (hnow : p.now = [])
    (status : Status) :
    (p.record a status).failedSteps =
      p.past.zipIdx.flatMap fun (f, k) => f.record.failedSteps k := by
  have hlater : (p.later.zipIdx (0 + (p.past.map (·.record)).length)).flatMap
      (fun (s, k) => s.failedSteps k) = [] := by
    refine List.flatMap_eq_nil_iff.mpr fun (s, k) hs => ?_
    exact Sequence.failedSteps_eq_nil
      (hof.step_status_later hfresh s (List.fst_mem_of_mem_zipIdx hs)) k
  rw [Act.failedSteps_eq]
  show (p.sequences.zipIdx.flatMap fun (s, k) => s.failedSteps k) = _
  rw [Progress.sequences, hnow, List.map_nil, List.append_nil, List.zipIdx_append,
    List.flatMap_append, hlater, List.append_nil, List.zipIdx_map, List.flatMap_map]
  rfl

/-- All steps that failed have one note each. -/
theorem forall₂_notes (hfresh : a.IsFresh) (hof : p.Of a) (hnow : p.now = [])
    (htold : p.Told journal) (status : Status) :
    List.Forall₂ (fun x note => IsFailureNote a journal x.1 x.2.1 note)
      (p.record a status).failedSteps p.notes := by
  have hnotes : p.notes = p.past.zipIdx.flatMap fun x => x.1.notes := by
    have hpast := List.zipIdx_map_fst 0 p.past
    rw [notes, ← hpast, List.flatMap_map, hpast]
  rw [failedSteps_record hfresh hof hnow status, hnotes]
  refine forall₂_flatMap fun x hf => ?_
  obtain ⟨f, k⟩ := x
  have hf : p.past[k]? = some f := List.mk_mem_zipIdx_iff_getElem?.mp hf
  have hplanned : a.sequences[k]? = some f.planned := by
    obtain ⟨hlt, -⟩ := List.getElem?_eq_some_iff.mp hf
    rw [← hof.planned_eq, planned, hnow, List.append_nil,
      List.getElem?_append_left (by rwa [List.length_map]), List.getElem?_map, hf]
    rfl
  refine forall₂_failures 0 fun j step r message hstep hr hm => ?_
  refine ⟨f.planned, step, message, hplanned, ?_, ?_, rfl⟩
  · simpa using hstep
  · simpa using htold k f hf j step r hstep hr message hm

end Progress

/-! ## While no sequence runs -/

namespace Progress

variable {a : Act} {p : Progress}

/-- While no sequence runs, those that have run come first and those that wait
after them. -/
theorem sequences_of_idle (hnow : p.now = []) :
    p.sequences = p.past.map (·.record) ++ p.later := by
  rw [sequences, hnow, List.map_nil, List.append_nil]

theorem take_sequences (hnow : p.now = []) :
    p.sequences.take p.past.length = p.past.map (·.record) := by
  rw [sequences_of_idle hnow, List.take_left' (List.length_map _)]

theorem drop_sequences (hnow : p.now = []) : p.sequences.drop p.past.length = p.later := by
  rw [sequences_of_idle hnow, List.drop_left' (List.length_map _)]

theorem drop_planned (hof : p.Of a) (hnow : p.now = []) :
    a.sequences.drop p.past.length = p.later := by
  rw [← hof.planned_eq, planned, hnow, List.append_nil, List.drop_left' (List.length_map _)]

/-- The plan stays the same. -/
theorem map_plan (hof : p.Of a) (hnow : p.now = []) :
    p.sequences.map (·.plan) = a.sequences.map (·.plan) := by
  have hpast : (p.past.map (·.record)).map (·.plan) = (p.past.map (·.planned)).map (·.plan) := by
    rw [List.map_map, List.map_map]
    exact List.map_congr_left fun f hf => Finished.record_plan (hof.whole f hf)
  rw [sequences_of_idle hnow, ← hof.planned_eq, planned, hnow, List.append_nil, List.map_append,
    List.map_append, hpast]

/-- If all that has run is completed, that is how it is stored. -/
theorem isCompleted_of_mem_take (hnow : p.now = []) (h : ∀ f ∈ p.past, f.IsCompleted) :
    ∀ s ∈ p.sequences.take p.past.length, s.IsCompleted := by
  rw [take_sequences hnow]
  intro s hs
  obtain ⟨f, hf, rfl⟩ := List.mem_map.mp hs
  exact Finished.record_isCompleted (h f hf)

end Progress

/-! ## The stored act at the end -/

/-- What is stored of an act `a` at the end of a run with an outcome: the
first `n` sequences have run. -/
structure FinalRecord (a stored : Act) (o : Outcome) (journal : List Entry) (n : Nat) : Prop where
  /-- It is still the same plan. -/
  plan_eq : stored.sequences.map (·.plan) = a.sequences.map (·.plan)
  le_length : n ≤ stored.sequences.length
  /-- The first `n` sequences have run. -/
  ran : ∀ s ∈ stored.sequences.take n, s.HasRun
  /-- Only the last one to run may have ended otherwise. -/
  completed : ∀ k s, k + 1 < n → stored.sequences[k]? = some s → s.IsCompleted
  /-- The others are as they were loaded. -/
  rest_eq : stored.sequences.drop n = a.sequences.drop n
  rest_untouched : ∀ s ∈ stored.sequences.drop n, s.IsUntouched
  /-- Only their steps are still queued. -/
  queued_eq : stored.steps.queued.toNat = stepsIn (stored.sequences.drop n)
  inProgress_eq : stored.steps.inProgress = 0
  /-- The status tells why no more sequences have run. -/
  ends : (o.status = .completed ∧ n = stored.sequences.length ∧
      ∀ s ∈ stored.sequences, s.IsCompleted) ∨
    (o.status = .failed ∧ ∃ s, (stored.sequences.take n).getLast? = some s ∧ s.IsFailed) ∨
    o.status = .cancelled
  status_eq : stored.status = o.status
  wallClock_eq : stored.duration.wallClock.toNat = o.wallClockMs
  totalTask_eq : stored.duration.totalTask.toNat = o.totalTaskMs
  completed_eq : stored.steps.completed.toNat = o.completed
  failed_eq : stored.steps.failed.toNat = o.failed
  /-- Cancelled steps have no counter of their own in the act. -/
  cancelled_eq : o.cancelled = stored.countOf .cancelled
  /-- What was skipped is what has not run. -/
  skipped_eq : o.skippedSequences = (stored.sequences.drop n).length
  /-- One note for each step that failed, and one if the run was cancelled. -/
  annotations_eq : ∃ notes, stored.annotations = a.annotations ++ notes ++
      (if o.status = .cancelled then [Batch.cancelNote] else []) ∧
    List.Forall₂ (fun x note => IsFailureNote a journal x.1 x.2.1 note) stored.failedSteps notes

namespace Over

variable {a stored : Act} {journal : List Entry} {o : Outcome} {p : Progress}

/-- The final status and the notes do not touch the sequences. -/
theorem sequences_eq (h : Over a stored journal o p) : stored.sequences = p.sequences := by
  rw [h.stored_eq]
  rfl

/-- Statuses of steps that have ended are as often stored as reported. -/
theorem countOf_eq (h : Over a stored journal o p) (hfresh : a.IsFresh) {status : Status}
    (hstatus : status.isTerminal) :
    stored.countOf status = (p.reports.map (·.outcome.status)).count status := by
  rw [h.stored_eq]
  show (p.record a .running).countOf status = _
  rw [Progress.countOf_record hfresh h.of]
  cases status <;> first | rfl | cases hstatus

/-- Only the last sequence that has run may not be completed. -/
theorem isCompleted_of_lt (h : Over a stored journal o p) (k : Nat) (s : Sequence)
    (hk : k + 1 < p.past.length) (hs : stored.sequences[k]? = some s) : s.IsCompleted := by
  rw [h.sequences_eq, Progress.sequences_of_idle h.now_eq,
    List.getElem?_append_left (by rw [List.length_map]; omega), List.getElem?_map,
    Option.map_eq_some_iff] at hs
  obtain ⟨f, hf, rfl⟩ := hs
  have hbefore : p.past.dropLast[k]? = some f := by
    rw [List.getElem?_dropLast, if_pos (by omega)]
    exact hf
  exact Finished.record_isCompleted (h.completed f (List.mem_of_getElem? hbefore))

/-- How a run can end: all of its sequences are completed, the last that ran
has failed, or it was cancelled. -/
theorem ends_cases (h : Over a stored journal o p) :
    (o.status = .completed ∧ p.past.length = stored.sequences.length ∧
      ∀ s ∈ stored.sequences, s.IsCompleted) ∨
    (o.status = .failed ∧
      ∃ s, (stored.sequences.take p.past.length).getLast? = some s ∧ s.IsFailed) ∨
    o.status = .cancelled := by
  rw [h.sequences_eq, Progress.take_sequences h.now_eq, List.getLast?_map,
    Progress.sequences_of_idle h.now_eq]
  have hends := h.ends
  generalize o.status = status at hends ⊢
  cases hends with
  | completed hlater hall =>
    refine Or.inl ⟨rfl, by simp [hlater], ?_⟩
    intro s hs
    rw [hlater, List.append_nil] at hs
    obtain ⟨f, hf, rfl⟩ := List.mem_map.mp hs
    exact Finished.record_isCompleted (hall f hf)
  | @failed f hlast hfailed hcancelled =>
    have hwhole := h.of.whole f (List.mem_of_getLast? hlast)
    refine Or.inr (Or.inl ⟨rfl, f.record, ?_,
      Finished.record_isFailed hwhole hfailed hcancelled⟩)
    rw [hlast]
    rfl
  | cancelled => exact Or.inr (Or.inr rfl)

/-- There is a note on each step that failed. -/
theorem exists_note (h : Over a stored journal o p) (hfresh : a.IsFresh) {k j : Nat} {step : Step}
    (hstep : stored.step? k j = some step) (hfailed : step.status = .failed) :
    ∃ note ∈ stored.annotations, IsFailureNote a journal k j note := by
  rw [h.stored_eq] at hstep ⊢
  have hmem : (k, j, step) ∈ (p.record a .running).failedSteps :=
    List.mem_filter.mpr ⟨Act.mem_positions.mpr hstep, decide_eq_true hfailed⟩
  obtain ⟨i, hi⟩ := List.mem_iff_getElem?.mp hmem
  obtain ⟨note, hnote, hfailure⟩ :=
    forall₂_getElem? (Progress.forall₂_notes hfresh h.of h.now_eq h.told .running) hi
  have hmem' : note ∈ p.notes := List.mem_of_getElem? hnote
  exact ⟨note, List.mem_append_left _ (List.mem_append_right _ hmem'), hfailure⟩

/-- What is stored at the end is the final record, clause by clause. -/
theorem finalRecord (h : Over a stored journal o p) (hfresh : a.IsFresh)
    (huntimed : a.IsUntimed) (htotal : o.totalTaskMs < 2 ^ 63) :
    FinalRecord a stored o journal p.past.length where
  plan_eq := by
    rw [h.sequences_eq]
    exact Progress.map_plan h.of h.now_eq
  le_length := by
    rw [h.sequences_eq, Progress.sequences_of_idle h.now_eq, List.length_append, List.length_map]
    exact Nat.le_add_right _ _
  ran := by
    rw [h.sequences_eq, Progress.take_sequences h.now_eq]
    intro s hs
    obtain ⟨f, -, rfl⟩ := List.mem_map.mp hs
    exact f.record_hasRun
  completed := h.isCompleted_of_lt
  rest_eq := by
    rw [h.sequences_eq, Progress.drop_sequences h.now_eq, Progress.drop_planned h.of h.now_eq]
  rest_untouched := by
    rw [h.sequences_eq, Progress.drop_sequences h.now_eq, ← Progress.drop_planned h.of h.now_eq]
    exact fun s hs => Act.untouched hfresh huntimed s (List.mem_of_mem_drop hs)
  queued_eq := by
    rw [h.sequences_eq, Progress.drop_sequences h.now_eq, h.stored_eq]
    exact Progress.toNat_queued hfresh h.of .running
  inProgress_eq := by
    rw [h.stored_eq]
    show UInt64.ofNat (stepsIn p.now) = 0
    rw [h.now_eq]
    rfl
  ends := h.ends_cases
  status_eq := by
    rw [h.stored_eq]
    rfl
  wallClock_eq := by
    rw [h.stored_eq]
    exact UInt64.toNat_ofNat_of_lt' h.wallClock_lt
  totalTask_eq := by
    rw [h.stored_eq]
    show (Counter.raise a.duration.totalTask p.tally.totalTaskMs).toNat = _
    rw [Counter.toNat_raise, huntimed.duration_eq, ← h.totalTask_eq]
    show min (0 + o.totalTaskMs) (2 ^ 63 - 1) = o.totalTaskMs
    omega
  completed_eq := by
    obtain ⟨hc, -⟩ := Tally.count_status p.reports
    rw [(h.shown.consistent hfresh).completed_eq, h.countOf_eq hfresh rfl, hc, h.completed_eq]
    rfl
  failed_eq := by
    obtain ⟨-, hf, -⟩ := Tally.count_status p.reports
    rw [(h.shown.consistent hfresh).failed_eq, h.countOf_eq hfresh rfl, hf, h.failed_eq]
    rfl
  cancelled_eq := by
    obtain ⟨-, -, hz, -⟩ := Tally.count_status p.reports
    rw [h.countOf_eq hfresh rfl, hz, h.cancelled_eq]
    rfl
  skipped_eq := by
    rw [h.sequences_eq, Progress.drop_sequences h.now_eq]
    exact h.skipped_eq
  annotations_eq := by
    refine ⟨p.notes, ?_, ?_⟩
    · rw [h.stored_eq]
      rfl
    · rw [h.stored_eq]
      exact Progress.forall₂_notes hfresh h.of h.now_eq h.told .running

end Over

/-- The outcome that a run has given back, if it has. -/
def Run.outcome? (r : Run) : Option Outcome :=
  match r.control with
  | .done (.ok o) => some o
  | _ => none

/-- A run with an outcome is over. -/
theorem Run.done_of_outcome? {r : Run} {o : Outcome} (h : r.outcome? = some o) :
    r.control = .done (.ok o) := by
  unfold Run.outcome? at h
  split at h
  · rename_i hc
    rw [hc, Option.some.inj h]
  · cases h

namespace Scene

variable {c : Scene} {a : Act}

/-- Once a run has given back an outcome, what is stored is a final record
that agrees with it.

Others may do what they like, the token may fire at any time and generations
may be slow or fail; only this act is left to the run. The bound on the
total is what the stored counter holds. -/
theorem final_record {w : World} {isCancelled : Bool} {o : Outcome} (hfresh : a.IsFresh)
    (huntimed : a.IsUntimed) (hget : w.store.get? a.id = some a)
    (hreach : Reaches (World.KeepsAct a.id) (begin w a isCancelled) c)
    (hdone : c.run.control = .done (.ok o)) (htotal : o.totalTaskMs < 2 ^ 63) :
    ∃ stored n, c.world.store.get? a.id = some stored ∧
      FinalRecord a stored o c.run.journal n := by
  have hbegin : (begin w a isCancelled).Shows a := shows_begin hget isCancelled
  obtain ⟨hact, stored, hstored, hrec⟩ := hreach.induct (P := fun c => c.Shows a) hbegin
    fun d d' hnext hshows => hnext.shows hfresh (fun _ _ h => h) hshows
  simp only [Run.Recorded, hdone] at hrec
  obtain ⟨p, hover⟩ := hrec
  exact ⟨stored, p.past.length, hstored, hover.finalRecord hfresh huntimed htotal⟩

/-! ## A run whose first sequence fails -/

/-- Two milliseconds pass, and the search fails. -/
def sampleFailure : List Happening :=
  [.lead, .lead, .lead, .lead, .step 0, .step 0, .deed (.wait 2),
    .deed (.executor (.report 0 (.error "quota exceeded"))), .step 0, .lead, .lead, .lead]

/-- Nothing in the sample's failure is done to the store by others. -/
theorem sampleFailure_store :
    ∀ d, .deed d ∈ sampleFailure → ∀ w : World, (w.after d).store = w.store := by
  intro d hd w
  simp only [sampleFailure, List.mem_cons, reduceCtorEq, Happening.deed.injEq,
    List.not_mem_nil, or_false, false_or] at hd
  rcases hd with rfl | rfl <;> rfl

theorem sample_untimed : Sample.blueprint.act.IsUntimed where
  duration_eq := by decide +kernel
  sequence_duration := by decide +kernel
  step_duration := by decide +kernel

theorem sample_final_record : Sample.blueprint.act.IsFresh ∧ Sample.blueprint.act.IsUntimed ∧
    sampleOpening.world.store.get? Sample.blueprint.act.id = some Sample.blueprint.act ∧
    ∃ c o, Reaches (World.KeepsAct Sample.blueprint.act.id) sampleOpening c ∧
      c.run.control = .done (.ok o) ∧ o.totalTaskMs < 2 ^ 63 ∧
      (o.status = .failed ∧ o.failed = 1 ∧ o.skippedSequences = 1) ∧
      ∃ stored n, c.world.store.get? Sample.blueprint.act.id = some stored ∧
        FinalRecord Sample.blueprint.act stored o c.run.journal n := by
  have hget : sampleOpening.world.store.get? Sample.blueprint.act.id =
      some Sample.blueprint.act := by decide +kernel
  have hplayed : ((sampleOpening.perform sampleFailure).bind (·.run.outcome?)) =
      some ⟨Sample.blueprint.act.id, .failed, 2, 2, 0, 1, 0, 1⟩ := by
    decide +kernel
  obtain ⟨c, hc, houtcome⟩ := Option.bind_eq_some_iff.mp hplayed
  have hdeeds : ∀ d, .deed d ∈ sampleFailure → ∀ w : World,
      w.KeepsAct Sample.blueprint.act.id (w.after d) := by
    intro d hd w
    simp only [sampleFailure, List.mem_cons, reduceCtorEq, Happening.deed.injEq,
      List.not_mem_nil, or_false, false_or] at hd
    rcases hd with rfl | rfl <;> rfl
  have hreach := reaches_of_perform hdeeds hc
  have hdone := Run.done_of_outcome? houtcome
  have htotal : 2 < 2 ^ 63 := by decide
  exact ⟨sample_fresh, sample_untimed, hget, c, _, hreach, hdone, htotal, ⟨rfl, rfl, rfl⟩,
    final_record sample_fresh sample_untimed hget hreach hdone htotal⟩

end Scene

end Workflow
