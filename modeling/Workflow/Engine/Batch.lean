/-
Workflow.Engine.Batch — the patches by which a run reports to the store.

A run that ends well sends `begin`, then `opening` and `closing` for every
sequence it runs, then `final`; one that cannot go on sends `abort`.

Step counters and the total of task time are changed by increments and
decrements and never set, so that a batch can be written without reading the
stored act. Steps that completed or failed are counted only if there are any
(`unlessZero`), and an empty list of notes is not sent.
-/
import Workflow.Engine.Outcome

namespace Workflow

namespace Batch

/-- A number of milliseconds as it is recorded. -/
def millis (ms : Nat) : UInt64 := UInt64.ofNat ms

/-- The run begins. -/
def begin : List Patch := [Field.status.set Status.running]

/-- All steps of a sequence are about to run. -/
def opening (k : Nat) (s : Sequence) : List Patch :=
  [Field.stepsQueued.decrement s.steps.length,
    Field.stepsInProgress.increment s.steps.length,
    (Field.sequenceStatus k).set Status.running] ++
  (List.range s.steps.length).map fun i => (Field.stepStatus k i).set Status.running

/-- The status and the duration of a step that has ended. -/
def stepEnd (k i : Nat) (r : StepReport) : List Patch :=
  [(Field.stepStatus k i).set r.outcome.status, (Field.stepDuration k i).set (millis r.durationMs)]

/-- The steps from position `i` on have ended. -/
def stepEnds (k i : Nat) : List StepReport → List Patch
  | [] => []
  | r :: rest => stepEnd k i r ++ stepEnds k (i + 1) rest

/-- What is noted of the steps that failed. -/
def failures (s : Sequence) : List (Step × StepReport) → List Annotation
  | [] => []
  | (step, r) :: rest =>
    match r.outcome with
    | .failed message =>
      let note : Annotation := .error (step.failureText message)
      note.forStep s.id step.id :: failures s rest
    | .completed | .cancelled => failures s rest

/-- A change that is only sent if there is something to change. -/
def unlessZero (n : Nat) (patch : Nat → Patch) : List Patch := if n = 0 then [] else [patch n]

/-- Notes that are only sent if there are any. -/
def annotate (notes : List Annotation) : List Patch :=
  if notes.isEmpty then [] else [Field.annotations.push notes]

/-- All steps of a sequence have ended, after `ms` milliseconds. -/
def closing (k : Nat) (s : Sequence) (reports : List StepReport) (ms : Nat) : List Patch :=
  let tally := Tally.ofReports reports
  stepEnds k 0 reports ++
  [Field.stepsInProgress.decrement s.steps.length] ++
  unlessZero tally.completed Field.stepsCompleted.increment ++
  unlessZero tally.failed Field.stepsFailed.increment ++
  [Field.totalTask.increment tally.totalTaskMs,
    (Field.sequenceStatus k).set tally.status,
    (Field.sequenceDuration k).set (millis ms)] ++
  annotate (failures s (s.steps.zip reports))

/-- What an act says once it was cancelled. -/
def cancelNote : Annotation := .info "act cancelled by request"

/-- The run has ended with a status, after `ms` milliseconds. -/
def final (status : Status) (ms : Nat) : List Patch :=
  [Field.status.set status, Field.wallClock.set (millis ms)] ++
  annotate (if status = .cancelled then [cancelNote] else [])

/-- What an act says once its run was aborted. -/
def abortNote (e : EngineError) : Annotation := .error e.report.text

/-- The run cannot go on. -/
def abort (e : EngineError) (ms : Nat) : List Patch :=
  [Field.status.set Status.failed, Field.wallClock.set (millis ms),
    Field.annotations.push [abortNote e]]

end Batch

end Workflow
