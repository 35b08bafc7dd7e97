/-
Workflow.Engine.Activity — one step while its sequence runs.

A step waits with the record of its generation, is announced, has its work
started, listens to the flight of that start, and ends. `Activity.advance`
is one move: it makes at most one change to the executor's state, and gives
`none` while there is nothing to do but wait.

A cancelled run looks first to the step's generation: it stops it, once,
and then goes by what has been heard. A step that is not streamed has then
ended in any case; a streamed one listens on until its flight is closed.
-/
import Workflow.Engine.Notice
import Workflow.Executor.Command

namespace Workflow

/-- What a run did. -/
inductive Entry where
  /-- It sent a batch, which was refused if there is an error. -/
  | batch (patches : List Patch) (error : Option PatchError)
  /-- It told its observer something. -/
  | notice (notice : Notice)
  /-- It stored a generation record. -/
  | set (generation : GenerationId) (status : GenerationStatus)
  /-- It asked for the start of a generation. -/
  | start (generation : GenerationId) (isStreaming : Bool)
  /-- It asked for a generation to be stopped. -/
  | stop (generation : GenerationId)
deriving DecidableEq, Repr

/-- A step at its place in an act. -/
structure PlacedStep where
  sequence : Nat
  index : Nat
  step : Step
deriving DecidableEq, Repr

/-- How far a step has come. Times are those of its dispatch. -/
inductive Activity where
  | waiting (record : Generation)
  /-- Queued and announced; its work is about to be started. -/
  | announced (since : Nat)
  /-- Listening; `taken` signals have been heard. -/
  | flying (since flight taken : Nat) (isStopped : Bool)
  /-- Failed; its generation's record may not show it yet. -/
  | refused (since : Nat) (message : String)
  | ended (report : StepReport)
deriving DecidableEq, Repr

namespace Activity

def report? : Activity → Option StepReport
  | .ended report => some report
  | _ => none

/-- Records a failure, unless the record is final already or there is
none. -/
def recordFailure (x : Executor) (id : GenerationId) (message : String) (now : Timestamp) :
    Executor × List Entry :=
  match x.get? id with
  | none => (x, [])
  | some record =>
    if record.isTerminal then (x, [])
    else
      match record.fail message now with
      | .error _ => (x, [])
      | .ok failed => ((x.set failed).toOption.getD x, [.set id failed.status])

/-- The end of a step, with the notice of it. -/
def endWith (p : PlacedStep) (outcome : StepOutcome) (ms : Nat) : Activity × Entry :=
  (.ended ⟨outcome, ms⟩,
    .notice (match outcome with
      | .completed => .stepComplete p.step
      | .failed message => .stepError p.step p.sequence p.index message
      | .cancelled => .stepCancel p.step))

/-- What a step makes of the next signal of its flight, if there is one. -/
def listen (x : Executor) (clock : Nat) (p : PlacedStep) (since flight taken : Nat)
    (isStopped : Bool) : Option (Activity × List Entry) :=
  let finish (outcome : StepOutcome) : Option (Activity × List Entry) :=
    let (a, entry) := endWith p outcome (elapsed since clock)
    some (a, [entry])
  match x.registry.flights[flight]? with
  | none => none
  | some f =>
    match f.heard[taken]? with
    | some (.delta text) =>
      some (.flying since flight (taken + 1) isStopped, [.notice (.stepDelta p.step text)])
    | some (.completed _) => finish .completed
    | some (.failed record) => finish (.failed (record.error.getD "generation failed"))
    | some (.broken message) => some (.refused since message, [])
    | none =>
      if f.isOpen && (f.isStreaming || !isStopped) then none
      else finish .cancelled

/-- One move of a step, at a time, in a run that may have been cancelled. -/
def advance (x : Executor) (clock : Nat) (isCancelled : Bool) (p : PlacedStep) :
    Activity → Option (Executor × Activity × List Entry)
  | .waiting record =>
    if isCancelled then
      let (a, entry) := endWith p .cancelled 0
      some (x, a, [entry])
    else
      match record.queue (.ofMillis clock) with
      | .error e => some (x, .refused clock e.report.text, [])
      | .ok queued =>
        match x.set queued with
        | .error e => some (x, .refused clock e.report.text, [.set queued.id queued.status])
        | .ok x => some
          (x, .announced clock, [.set queued.id queued.status, .notice (.stepStart p.step)])
  | .announced since =>
    let isStreaming := p.step.operation.isStreaming
    let entry := Entry.start p.step.generation isStreaming
    match x.start p.step.generation isStreaming (.ofMillis clock) with
    | .error e => some (x, .refused since e.report.text, [entry])
    | .ok (x, flight) => some (x, .flying since flight 0 false, [entry])
  | .flying since flight taken isStopped =>
    if isCancelled && !isStopped then
      some ((x.stop p.step.generation (.ofMillis clock)).toOption.getD x,
        .flying since flight taken true, [.stop p.step.generation])
    else
      (listen x clock p since flight taken isStopped).map fun (a, entries) => (x, a, entries)
  | .refused since message =>
    let (x, entries) := recordFailure x p.step.generation message (.ofMillis clock)
    let (a, entry) := endWith p (.failed message) (elapsed since clock)
    some (x, a, entries ++ [entry])
  | .ended _ => none

end Activity

end Workflow
