/-
Workflow.Act.Field — the places of an act that a run writes to.

`Field.path` gives the path of a place in the JSON form of an act.

Sequences and steps are addressed by position. Nothing here says that a
position is in range: a patch of a place that an act does not have is
refused where patches are applied.
-/
import Workflow.Text.Dotted

namespace Workflow

/-- A place in an act. Sequences, and steps in a sequence, are counted
from 0. -/
inductive Field where
  | status
  | stepsQueued
  | stepsInProgress
  | stepsCompleted
  | stepsFailed
  | wallClock
  | totalTask
  | annotations
  | sequenceStatus (sequence : Nat)
  | sequenceDuration (sequence : Nat)
  | stepStatus (sequence step : Nat)
  | stepDuration (sequence step : Nat)
deriving DecidableEq, Repr

namespace Field

/-- The keys and positions that lead to the place. -/
def segments : Field → List String
  | status => ["status"]
  | stepsQueued => ["steps", "queued"]
  | stepsInProgress => ["steps", "inProgress"]
  | stepsCompleted => ["steps", "completed"]
  | stepsFailed => ["steps", "failed"]
  | wallClock => ["duration", "wallClock"]
  | totalTask => ["duration", "totalTask"]
  | annotations => ["annotations"]
  | sequenceStatus i => ["sequences", toString i, "status"]
  | sequenceDuration i => ["sequences", toString i, "durationMs"]
  | stepStatus i j => ["sequences", toString i, "steps", toString j, "status"]
  | stepDuration i j => ["sequences", toString i, "steps", toString j, "durationMs"]

/-- The segments joined by dots. -/
def path (f : Field) : String := Text.joinDots f.segments

end Field

end Workflow
