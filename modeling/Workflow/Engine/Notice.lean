/-
Workflow.Engine.Notice — what a run tells its observer while it goes on.

`Notice.event?` is what an observer that publishes events makes of a
notice.

Steps of one sequence go on side by side, and their notices mix. Each of
them carries the step that it is about; a failure tells its place in the act
as well.
-/
import Workflow.Engine.Outcome
import Workflow.Event.Basic

namespace Workflow

/-- What an observer of a run is told. -/
inductive Notice where
  | actStart (act : Act)
  | sequenceStart (index : Nat) (sequence : Sequence)
  | stepStart (step : Step)
  /-- Streamed text from a step. -/
  | stepDelta (step : Step) (text : String)
  | stepComplete (step : Step)
  /-- A step failed; `sequence` and `index` are its place in the act. -/
  | stepError (step : Step) (sequence index : Nat) (message : String)
  | stepCancel (step : Step)
  /-- All steps have ended, and the store knows. -/
  | sequenceFinish (index : Nat) (sequence : Sequence) (status : Status)
  /-- The sequence will never run. -/
  | sequenceSkip (sequence : Sequence)
  /-- The run is over, one way or another. -/
  | actComplete (hasError : Bool) (ms : Nat)
  /-- The run has an outcome. -/
  | actFinish (outcome : Outcome)
deriving DecidableEq, Repr

/-- The event that announces a notice on the bus, if there is one. -/
def Notice.event? (act : ActId) : Notice → Option Event
  | .actStart started => some (.actStarted started)
  | .sequenceStart _ sequence => some (.ofSequence act sequence .started)
  | .stepStart step => some (.ofStep act step .started)
  | .stepDelta step text => some (.ofStep act step (.delta text))
  | .stepComplete step => some (.ofStep act step .completed)
  | .stepError step _ _ message => some (.ofStep act step (.failed message))
  | .stepCancel step => some (.ofStep act step .cancelled)
  | .sequenceFinish _ sequence status => some (.sequenceFinished act sequence status)
  | .sequenceSkip sequence => some (.ofSequence act sequence .skipped)
  | .actComplete _ _ => none
  | .actFinish outcome => some (.actFinished act outcome.status (UInt64.ofNat outcome.wallClockMs))

end Workflow
