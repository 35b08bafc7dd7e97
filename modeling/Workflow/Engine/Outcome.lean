/-
Workflow.Engine.Outcome — how steps, sequences and runs end.

`Tally` adds up what the steps of a sequence, or of a run, came to.

Times are whole milliseconds, cut off at the largest machine word
(`elapsed`). A run that cannot go on has an `EngineError` in place of an
`Outcome`, and the act is told of it by the text of `EngineError.report`.
-/
import Workflow.Act.Update
import Workflow.Generation.Basic

namespace Workflow

/-- How a step ended. -/
inductive StepOutcome where
  | completed
  | failed (message : String)
  /-- Stopped, or not even started because the run was cancelled. -/
  | cancelled
deriving DecidableEq, Repr

def StepOutcome.status : StepOutcome → Status
  | .completed => .completed
  | .failed _ => .failed
  | .cancelled => .cancelled

/-- The milliseconds between two moments, as they are recorded: those that a
64-bit number can tell. -/
def elapsed (since now : Nat) : Nat := min (now - since) 0xFFFFFFFFFFFFFFFF

/-- A step that has ended, and how long it took. -/
structure StepReport where
  outcome : StepOutcome
  durationMs : Nat
deriving DecidableEq, Repr

/-- How many steps ended in each way, and how long they took together. -/
structure Tally where
  completed : Nat
  failed : Nat
  cancelled : Nat
  totalTaskMs : Nat
deriving DecidableEq, Repr

namespace Tally

/-- Nothing was counted yet. -/
def zero : Tally := ⟨0, 0, 0, 0⟩

def add (a b : Tally) : Tally :=
  ⟨a.completed + b.completed, a.failed + b.failed, a.cancelled + b.cancelled,
    a.totalTaskMs + b.totalTaskMs⟩

/-- The count of one step. -/
def ofReport (r : StepReport) : Tally :=
  match r.outcome with
  | .completed => ⟨1, 0, 0, r.durationMs⟩
  | .failed _ => ⟨0, 1, 0, r.durationMs⟩
  | .cancelled => ⟨0, 0, 1, r.durationMs⟩

/-- The count of several steps. -/
def ofReports : List StepReport → Tally
  | [] => zero
  | r :: rest => (ofReport r).add (ofReports rest)

/-- The status of a sequence whose steps came to this: one failure is
enough to fail, else one cancelled step is enough to be cancelled. -/
def status (t : Tally) : Status :=
  if t.failed > 0 then .failed
  else if t.cancelled > 0 then .cancelled
  else .completed

end Tally

/-- The summary of a run. -/
structure Outcome where
  act : ActId
  status : Status
  wallClockMs : Nat
  totalTaskMs : Nat
  completed : Nat
  failed : Nat
  cancelled : Nat
  skippedSequences : Nat
deriving DecidableEq, Repr

def Outcome.hasError (o : Outcome) : Bool := o.failed > 0

/-- Why a run cannot go on. -/
inductive EngineError where
  | unexpectedState (generation : GenerationId) (status : GenerationStatus)
  | missingGeneration (generation : GenerationId)
  | actNotQueued (act : ActId) (status : Status)
  | patch (cause : PatchError)
deriving DecidableEq, Repr

/-- The wording of an ended run. -/
def EngineError.report : EngineError → Report
  | .unexpectedState generation status =>
    let name := status.name
    .withAdvice "engine::unexpected_generation_state"
      s!"generation {generation} is {name}, expected created"
      "Every step needs a fresh generation. Recompile the act or use `Generation::retry`."
  | .missingGeneration generation =>
    .withAdvice "engine::missing_generation" s!"generation {generation} not found"
      "Load the blueprint's generations into the runtime before running the act."
  | .actNotQueued act status =>
    let name := status.name
    .plain "engine::act_not_queued" s!"act {act} is {name}, expected queued"
  | .patch cause => cause.report

/-- What is said of a step that failed. -/
def Step.failureText (s : Step) (message : String) : String :=
  let node := s.node
  s!"operation {node} failed: {message}"

end Workflow
