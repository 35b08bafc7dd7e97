/-
Workflow.Proofs.Engine.Progress — how far a run has come, and what the
store shows of it.

A `Progress` splits the sequences of an act into those that have run, the
one that runs, if there is one, and those that wait. `Progress.record` is
the act as a reader then finds it: all its counters are computed from the
reports of the steps and from the sizes of the parts.

* `record_start`, `opened_record`, `closed_record` — the batches of a run
  lead from one such record to the next.
* `record_consistent` — in every such record the counters tell the truth
  about the statuses and durations that stand beside them.
-/
import Mathlib.Data.List.Basic
import Workflow.Proofs.Engine.Batch
import Workflow.Proofs.Engine.Outcome

namespace Workflow

/-! ## Parts of an act -/

/-- How many steps some sequences have. -/
def stepsIn (sequences : List Sequence) : Nat := (sequences.map (·.steps.length)).sum

theorem Act.stepCount_eq_stepsIn (a : Act) : a.stepCount = stepsIn a.sequences :=
  List.length_flatMap

theorem stepsIn_append (ss ts : List Sequence) : stepsIn (ss ++ ts) = stepsIn ss + stepsIn ts := by
  simp [stepsIn]

theorem stepsIn_cons (s : Sequence) (ss : List Sequence) :
    stepsIn (s :: ss) = s.steps.length + stepsIn ss := by
  simp [stepsIn]

/-- A sequence that has run: as it was planned, what its steps came to, and
how long it took. -/
structure Finished where
  planned : Sequence
  reports : List StepReport
  ms : Nat

namespace Finished

/-- The sequence as it is stored. -/
def record (f : Finished) : Sequence := f.planned.closed f.reports f.ms

def tally (f : Finished) : Tally := .ofReports f.reports

/-- What is noted of its failed steps. -/
def notes (f : Finished) : List Annotation :=
  Batch.failures f.planned (f.planned.steps.zip f.reports)

/-- Every step has its report, and its duration can be recorded. -/
structure IsWhole (f : Finished) : Prop where
  length_eq : f.reports.length = f.planned.steps.length
  duration_lt : ∀ r ∈ f.reports, r.durationMs < 2 ^ 64

/-- All steps of the sequence were completed. -/
def IsCompleted (f : Finished) : Prop := ∀ r ∈ f.reports, r.outcome = .completed

end Finished

/-- How far a run has come. -/
structure Progress where
  past : List Finished
  /-- The sequence that runs, if there is one. -/
  now : List Sequence
  later : List Sequence

namespace Progress

/-- All sequences as they were planned. -/
def planned (p : Progress) : List Sequence := p.past.map (·.planned) ++ p.now ++ p.later

/-- All sequences as they are stored. -/
def sequences (p : Progress) : List Sequence :=
  p.past.map (·.record) ++ p.now.map (·.opened) ++ p.later

/-- The reports of all steps that have ended. -/
def reports (p : Progress) : List StepReport := p.past.flatMap (·.reports)

def tally (p : Progress) : Tally := .ofReports p.reports

def notes (p : Progress) : List Annotation := p.past.flatMap (·.notes)

/-- The act as it is stored. -/
def record (p : Progress) (a : Act) (status : Status) : Act :=
  { a with
    status
    steps :=
      { queued := UInt64.ofNat (stepsIn p.later)
        inProgress := UInt64.ofNat (stepsIn p.now)
        completed := UInt64.ofNat p.tally.completed
        failed := UInt64.ofNat p.tally.failed }
    duration :=
      { a.duration with totalTask := Counter.raise a.duration.totalTask p.tally.totalTaskMs }
    annotations := a.annotations ++ p.notes
    sequences := p.sequences }

/-- The progress is one through the sequences of an act. -/
structure Of (p : Progress) (a : Act) : Prop where
  planned_eq : p.planned = a.sequences
  whole : ∀ f ∈ p.past, f.IsWhole

/-- Nothing has run. -/
def start (a : Act) : Progress := ⟨[], [], a.sequences⟩

/-- The next sequence runs. -/
def enter (p : Progress) (s : Sequence) (rest : List Sequence) : Progress := ⟨p.past, [s], rest⟩

/-- The sequence that runs has ended. -/
def leave (p : Progress) (f : Finished) : Progress := ⟨p.past ++ [f], [], p.later⟩

end Progress

/-! ## Fresh acts -/

/-- An act of which nothing has run. -/
structure Act.IsFresh (a : Act) : Prop where
  status_eq : a.status = .queued
  sequence_status : ∀ s ∈ a.sequences, s.status = .queued
  step_status : ∀ s ∈ a.sequences, ∀ step ∈ s.steps, step.status = .queued
  /-- All steps are counted as queued, and nothing else is counted. -/
  queued_eq : a.steps.queued.toNat = a.stepCount
  inProgress_eq : a.steps.inProgress = 0
  completed_eq : a.steps.completed = 0
  failed_eq : a.steps.failed = 0
  /-- The time of earlier work can still be counted on. -/
  totalTask_lt : a.duration.totalTask.toNat < 2 ^ 63

namespace Progress

variable {p : Progress} {a : Act} {status : Status}

/-! ## From one record to the next

Opening and closing a sequence of the stored act, as changes of the progress. -/

/-- Before anything has run, the record is the act itself. -/
theorem record_start (h : a.IsFresh) : (start a).record a .queued = a := by
  obtain ⟨id, workspace, startNode, st, ⟨queued, inProgress, completed, failed⟩,
    ⟨wallClock, totalTask⟩, annotations, sequences, createdAt⟩ := a
  obtain ⟨hstatus, -, -, hqueued, hinProgress, hcompleted, hfailed, htotal⟩ := h
  have hcount : UInt64.ofNat (stepsIn sequences) = queued := by
    rw [← UInt64.ofNat_toNat (x := queued)]
    rw [Act.stepCount_eq_stepsIn] at hqueued
    exact congrArg UInt64.ofNat hqueued.symm
  simp_all [record, start, Progress.tally, Progress.reports, Progress.notes, Progress.sequences,
    Tally.ofReports, Tally.zero, Counter.raise_zero, stepsIn]

theorem length_reports (h : ∀ f ∈ p.past, f.IsWhole) :
    p.reports.length = stepsIn (p.past.map (·.planned)) := by
  rw [reports, stepsIn, List.length_flatMap, List.map_map]
  exact congrArg List.sum (List.map_congr_left fun f hf => (h f hf).length_eq)

theorem Of.stepCount_eq (h : p.Of a) :
    a.stepCount = p.reports.length + stepsIn p.now + stepsIn p.later := by
  rw [length_reports h.whole, Act.stepCount_eq_stepsIn, ← h.planned_eq, planned, stepsIn_append,
    stepsIn_append]

/-- The element behind a first part of a list is changed. -/
theorem modify_length_append {α : Type} (xs : List α) (x : α) (ys : List α) (f : α → α) :
    (xs ++ x :: ys).modify xs.length f = xs ++ f x :: ys := by
  induction xs with
  | nil => rfl
  | cons y rest ih => simpa using ih

/-- Closing a sequence does not depend on its having been opened. -/
theorem opened_closed (s : Sequence) (reports : List StepReport) (ms : Nat) :
    s.opened.closed reports ms = s.closed reports ms := by
  have hsteps : (s.steps.map (·.opened)).zipWith Step.closed reports =
      s.steps.zipWith Step.closed reports := by
    rw [List.zipWith_map_left]
    rfl
  rw [Sequence.closed, Sequence.closed, Sequence.opened, hsteps]

/-- The record once the next sequence runs. -/
theorem opened_record {s : Sequence} {rest : List Sequence} (hnow : p.now = [])
    (hlater : p.later = s :: rest) (hbound : stepsIn p.later < 2 ^ 63) :
    (p.record a status).opened p.past.length s.steps.length =
      (p.enter s rest).record a status := by
  obtain ⟨past, now, later⟩ := p
  obtain rfl : now = [] := hnow
  obtain rfl : later = s :: rest := hlater
  have hcount := stepsIn_cons s rest
  simp only at hbound
  have hqueued : Counter.lower (UInt64.ofNat (stepsIn (s :: rest))) s.steps.length =
      UInt64.ofNat (stepsIn rest) := by
    rw [Counter.lower_ofNat hbound, hcount, Nat.add_sub_cancel_left]
  have hrunning : Counter.raise (UInt64.ofNat (stepsIn [])) s.steps.length =
      UInt64.ofNat (stepsIn [s]) := by
    have hnone : stepsIn [] = 0 := rfl
    rw [Counter.raise_ofNat (by omega), hnone, stepsIn_cons, hnone, Nat.add_comm]
  have hsequences : (past.map (·.record) ++ s :: rest).modify past.length (·.opened) =
      past.map (·.record) ++ s.opened :: rest := by
    have hmodify := modify_length_append (past.map (·.record)) s rest (·.opened)
    rwa [List.length_map] at hmodify
  simp [record, enter, Act.opened, Act.counted, Act.modifySequence, Progress.sequences,
    Progress.tally, Progress.reports, Progress.notes, hqueued, hrunning, hsequences]

/-- The record once the sequence that runs has ended. -/
theorem closed_record {s : Sequence} {f : Finished} (hof : p.Of a) (hnow : p.now = [s])
    (hplanned : f.planned = s) (hlength : f.reports.length = s.steps.length)
    (hbound : a.stepCount < 2 ^ 63) :
    (p.record a status).closed p.past.length s f.reports f.ms = (p.leave f).record a status := by
  have hcount := hof.stepCount_eq
  obtain ⟨past, now, later⟩ := p
  obtain rfl : now = [s] := hnow
  have hnone : stepsIn [] = 0 := rfl
  have hwidth : stepsIn [s] = s.steps.length := by rw [stepsIn_cons, hnone, Nat.add_zero]
  have htallies := Tally.count_eq (past.flatMap (·.reports))
  have htally := Tally.count_eq f.reports
  simp only [reports, hwidth] at hcount
  have hrunning : Counter.lower (UInt64.ofNat (stepsIn [s])) s.steps.length =
      UInt64.ofNat (stepsIn []) := by
    rw [Counter.lower_ofNat (by omega), hwidth, Nat.sub_self, hnone]
  -- counters add up exactly, since no sum is above the number of steps
  have hcompleted : Counter.raise
      (UInt64.ofNat (Tally.ofReports (past.flatMap (·.reports))).completed)
      (Tally.ofReports f.reports).completed = UInt64.ofNat
        ((Tally.ofReports (past.flatMap (·.reports))).completed +
          (Tally.ofReports f.reports).completed) :=
    Counter.raise_ofNat (by omega)
  have hfailed : Counter.raise (UInt64.ofNat (Tally.ofReports (past.flatMap (·.reports))).failed)
      (Tally.ofReports f.reports).failed = UInt64.ofNat
        ((Tally.ofReports (past.flatMap (·.reports))).failed +
          (Tally.ofReports f.reports).failed) :=
    Counter.raise_ofNat (by omega)
  have hsequences : (past.map (·.record) ++ s.opened :: later).modify past.length
      (·.closed f.reports f.ms) = past.map (·.record) ++ f.record :: later := by
    have hmodify := modify_length_append (past.map (·.record)) s.opened later
      (·.closed f.reports f.ms)
    rw [List.length_map, opened_closed] at hmodify
    rw [hmodify, Finished.record, hplanned]
  have hnotes : Batch.failures s (s.steps.zip f.reports) = f.notes := by
    rw [Finished.notes, hplanned]
  simp [record, leave, Act.closed, Act.modifySequence, Progress.sequences, Progress.tally,
    Progress.reports, Progress.notes, hrunning, hcompleted, hfailed, hsequences, hnotes,
    Counter.raise_raise, Tally.ofReports_append, Tally.add]

theorem Of.enter (hof : p.Of a) {s : Sequence} {rest : List Sequence} (hnow : p.now = [])
    (hlater : p.later = s :: rest) : (p.enter s rest).Of a := by
  refine ⟨?_, hof.whole⟩
  rw [← hof.planned_eq, planned, planned, hnow, hlater]
  simp [Progress.enter]

theorem Of.leave (hof : p.Of a) {f : Finished} (hnow : p.now = [f.planned]) (hf : f.IsWhole) :
    (p.leave f).Of a := by
  refine ⟨?_, ?_⟩
  · rw [← hof.planned_eq, planned, planned, hnow]
    simp [Progress.leave]
  · intro g hg
    rcases List.mem_append.mp hg with hpast | hlast
    · exact hof.whole g hpast
    · rw [List.mem_singleton.mp hlast]
      exact hf

theorem of_start (a : Act) : (start a).Of a := ⟨rfl, fun _ h => absurd h List.not_mem_nil⟩

/-! ## What a reader finds

A reader counts statuses and adds durations up. The counters of the record are
these sums, as long as they are in range. -/

end Progress

/-- How many steps of an act have a status. -/
def Act.countOf (a : Act) (status : Status) : Nat :=
  ((a.sequences.flatMap (·.steps)).map (·.status)).count status

/-- The milliseconds that are recorded on a step that has ended. -/
def Step.endedMs (s : Step) : Nat :=
  if s.status.isTerminal then (s.durationMs.map UInt64.toNat).getD 0 else 0

/-- The milliseconds that are recorded on all steps that have ended. -/
def Act.endedMs (a : Act) : Nat := ((a.sequences.flatMap (·.steps)).map (·.endedMs)).sum

/-- The counters of a stored act agree with the statuses and durations of
its steps; `a` is the act as the run found it. -/
structure Act.Consistent (a stored : Act) : Prop where
  /-- Each counter is the number of steps with its status. -/
  queued_eq : stored.steps.queued.toNat = stored.countOf .queued
  inProgress_eq : stored.steps.inProgress.toNat = stored.countOf .running
  completed_eq : stored.steps.completed.toNat = stored.countOf .completed
  failed_eq : stored.steps.failed.toNat = stored.countOf .failed
  /-- Beyond the bound of a signed 64-bit number time is not counted. -/
  totalTask_eq : stored.duration.totalTask.toNat =
    min (a.duration.totalTask.toNat + stored.endedMs) (2 ^ 63 - 1)

namespace Progress

variable {p : Progress} {a : Act} {status : Status}

/-- The statuses of closed steps are those of their reports. -/
theorem map_status_closed {steps : List Step} {reports : List StepReport}
    (h : reports.length = steps.length) :
    (steps.zipWith Step.closed reports).map (·.status) = reports.map (·.outcome.status) := by
  induction steps generalizing reports with
  | nil =>
    rw [List.length_eq_zero_iff.mp h]
    rfl
  | cons step rest ih =>
    cases reports with
    | nil => cases h
    | cons r rs =>
      rw [List.zipWith_cons_cons, List.map_cons, List.map_cons, ih (Nat.succ.inj h)]
      rfl

theorem endedMs_closed (step : Step) {r : StepReport} (h : r.durationMs < 2 ^ 64) :
    (step.closed r).endedMs = r.durationMs := by
  have hmillis : (Batch.millis r.durationMs).toNat = r.durationMs :=
    UInt64.toNat_ofNat_of_lt' h
  obtain ⟨outcome, ms⟩ := r
  cases outcome <;> exact hmillis

theorem map_endedMs_closed {steps : List Step} {reports : List StepReport}
    (h : reports.length = steps.length) (hms : ∀ r ∈ reports, r.durationMs < 2 ^ 64) :
    (steps.zipWith Step.closed reports).map (·.endedMs) = reports.map (·.durationMs) := by
  induction steps generalizing reports with
  | nil =>
    rw [List.length_eq_zero_iff.mp h]
    rfl
  | cons step rest ih =>
    cases reports with
    | nil => cases h
    | cons r rs =>
      rw [List.zipWith_cons_cons, List.map_cons, List.map_cons,
        endedMs_closed step (hms r List.mem_cons_self),
        ih (Nat.succ.inj h) fun q hq => hms q (List.mem_cons_of_mem _ hq)]

/-- The recorded steps of what has run, sequence by sequence. -/
theorem flatMap_steps_record (past : List Finished) :
    (past.map (·.record)).flatMap (·.steps) =
      past.flatMap fun f => f.planned.steps.zipWith Step.closed f.reports := by
  rw [List.flatMap_map]
  rfl

/-- What a reader finds of the statuses of steps that have run. -/
theorem map_status_past (h : ∀ f ∈ p.past, f.IsWhole) :
    ((p.past.map (·.record)).flatMap (·.steps)).map (·.status) =
      p.reports.map (·.outcome.status) := by
  rw [flatMap_steps_record, List.map_flatMap, reports, List.map_flatMap]
  exact List.flatMap_congr fun f hf => map_status_closed (h f hf).length_eq

theorem map_endedMs_past (h : ∀ f ∈ p.past, f.IsWhole) :
    ((p.past.map (·.record)).flatMap (·.steps)).map (·.endedMs) =
      p.reports.map (·.durationMs) := by
  rw [flatMap_steps_record, List.map_flatMap, reports, List.map_flatMap]
  exact List.flatMap_congr fun f hf => map_endedMs_closed (h f hf).length_eq (h f hf).duration_lt

/-- Steps that all have the same status. -/
theorem map_status_eq_replicate {sequences : List Sequence} {status : Status}
    (h : ∀ s ∈ sequences, ∀ step ∈ s.steps, step.status = status) :
    (sequences.flatMap (·.steps)).map (·.status) =
      List.replicate (stepsIn sequences) status := by
  refine List.eq_replicate_iff.mpr ⟨?_, ?_⟩
  · rw [List.length_map, List.length_flatMap, stepsIn]
  · intro st hst
    obtain ⟨step, hstep, rfl⟩ := List.mem_map.mp hst
    obtain ⟨s, hs, hstep⟩ := List.mem_flatMap.mp hstep
    exact h s hs step hstep

/-- Steps that have not ended took no time. -/
theorem map_endedMs_eq_zero {sequences : List Sequence}
    (h : ∀ s ∈ sequences, ∀ step ∈ s.steps, step.status.isTerminal = false) :
    ((sequences.flatMap (·.steps)).map (·.endedMs)).sum = 0 := by
  refine List.sum_eq_zero_iff_forall_eq_nat.mpr fun ms hms => ?_
  obtain ⟨step, hstep, rfl⟩ := List.mem_map.mp hms
  obtain ⟨s, hs, hstep⟩ := List.mem_flatMap.mp hstep
  rw [Step.endedMs, h s hs step hstep]
  rfl

/-- The steps of the sequence that runs are all running. -/
theorem step_status_opened {sequences : List Sequence} :
    ∀ s ∈ sequences.map (·.opened), ∀ step ∈ s.steps, step.status = .running := by
  intro s hs step hstep
  obtain ⟨t, -, rfl⟩ := List.mem_map.mp hs
  obtain ⟨u, -, rfl⟩ := List.mem_map.mp hstep
  rfl

theorem Of.step_status_later (hof : p.Of a) (hfresh : a.IsFresh) :
    ∀ s ∈ p.later, ∀ step ∈ s.steps, step.status = .queued := by
  intro s hs
  refine hfresh.step_status s ?_
  rw [← hof.planned_eq]
  exact List.mem_append_right _ hs

theorem stepsIn_opened (sequences : List Sequence) :
    stepsIn (sequences.map (·.opened)) = stepsIn sequences := by
  rw [stepsIn, List.map_map, stepsIn]
  refine congrArg List.sum (List.map_congr_left fun s _ => ?_)
  exact List.length_map _

/-- The statuses of all steps: those of the reports, and then those of the
steps that run and that wait. -/
theorem map_status_sequences (hfresh : a.IsFresh) (hof : p.Of a) :
    (p.sequences.flatMap (·.steps)).map (·.status) = p.reports.map (·.outcome.status) ++
      List.replicate (stepsIn p.now) .running ++ List.replicate (stepsIn p.later) .queued := by
  rw [Progress.sequences, List.flatMap_append, List.flatMap_append, List.map_append,
    List.map_append, map_status_past hof.whole, map_status_eq_replicate step_status_opened,
    map_status_eq_replicate (hof.step_status_later hfresh), stepsIn_opened]

/-- The time that a reader adds up is the time of the tally. -/
theorem endedMs_record (hfresh : a.IsFresh) (hof : p.Of a) :
    (p.record a status).endedMs = p.tally.totalTaskMs := by
  have hnow : ∀ s ∈ p.now.map (·.opened), ∀ step ∈ s.steps, step.status.isTerminal = false :=
    fun s hs step hstep => by rw [step_status_opened s hs step hstep]; rfl
  have hlater : ∀ s ∈ p.later, ∀ step ∈ s.steps, step.status.isTerminal = false :=
    fun s hs step hstep => by rw [hof.step_status_later hfresh s hs step hstep]; rfl
  show ((p.sequences.flatMap (·.steps)).map (·.endedMs)).sum = _
  rw [Progress.sequences, List.flatMap_append, List.flatMap_append, List.map_append,
    List.map_append, List.sum_append, List.sum_append, map_endedMs_past hof.whole,
    map_endedMs_eq_zero hnow, map_endedMs_eq_zero hlater, Progress.tally, Tally.totalTaskMs_eq]
  rfl

/-- How often a record shows a status. -/
theorem countOf_record (hfresh : a.IsFresh) (hof : p.Of a) (st : Status) :
    (p.record a status).countOf st = (p.reports.map (·.outcome.status)).count st +
      (if .running = st then stepsIn p.now else 0) +
      (if .queued = st then stepsIn p.later else 0) := by
  show ((p.sequences.flatMap (·.steps)).map (·.status)).count st = _
  rw [map_status_sequences hfresh hof, List.count_append, List.count_append,
    List.count_replicate, List.count_replicate]
  simp only [beq_iff_eq]

/-- Every counter of a record is the number of steps with its status. -/
theorem record_consistent (hfresh : a.IsFresh) (hof : p.Of a) :
    a.Consistent (p.record a status) := by
  have hcount := hof.stepCount_eq
  have htally : p.tally.completed + p.tally.failed + p.tally.cancelled = p.reports.length :=
    Tally.count_eq p.reports
  have hbound := a.steps.queued.toNat_lt
  rw [hfresh.queued_eq] at hbound
  have htoNat {n : Nat} (hn : n ≤ a.stepCount) : (UInt64.ofNat n).toNat = n :=
    UInt64.toNat_ofNat_of_lt' (Nat.lt_of_le_of_lt hn hbound)
  obtain ⟨hc, hf, -, hq, hr⟩ := Tally.count_status p.reports
  refine ⟨?_, ?_, ?_, ?_, ?_⟩
  · rw [countOf_record hfresh hof, hq]
    simpa [record] using htoNat (by omega)
  · rw [countOf_record hfresh hof, hr]
    simpa [record] using htoNat (by omega)
  · have hle : p.tally.completed ≤ a.stepCount := by omega
    rw [countOf_record hfresh hof, hc]
    exact htoNat hle
  · have hle : p.tally.failed ≤ a.stepCount := by omega
    rw [countOf_record hfresh hof, hf]
    exact htoNat hle
  · rw [endedMs_record hfresh hof]
    exact Counter.toNat_raise _ _

end Progress

end Workflow
