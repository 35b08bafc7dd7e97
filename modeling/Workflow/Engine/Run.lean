/-
Workflow.Engine.Run — running an act.

A `Run` takes an act through its sequences, one after the other. The steps
of a sequence run side by side; the next sequence has its turn once all of
them have ended and the store knows. The first sequence with a failed step
is the last one to run, and so is the sequence during which the run is
cancelled.

A run moves in small steps, each with at most one command to the store or
the executor. `Run.lead` is a move of the run itself, `Run.stepMove` one of
a step, so that whatever else happens can happen between any two of them.
-/
import Workflow.Engine.Activity
import Workflow.Engine.Batch
import Workflow.Engine.World

namespace Workflow

/-- Where a run stands. -/
inductive Control where
  | ready
  /-- Sequence `k` is next, if there is one and the run may go on. -/
  | turn (k : Nat)
  /-- The generations of sequence `k` are looked up. -/
  | opening (k : Nat) (records : List Generation)
  /-- The steps of sequence `k` run. -/
  | running (k : Nat) (since : Nat) (steps : List Activity)
  /-- All steps of sequence `k` have ended, and came to `tally`. -/
  | closed (k : Nat) (tally : Tally)
  /-- The run ends; sequences from `k` on are skipped. -/
  | winding (status : Status) (k : Nat)
  | aborting (error : EngineError)
  | done (result : Except EngineError Outcome)
deriving Repr

/-- A run of the engine: the act as it was called with, the point that control
has come to, what was counted, and the journal of all that was sent, called and
told. -/
structure Run where
  act : Act
  startedAt : Nat
  /-- Whether the run was asked to end. -/
  isCancelled : Bool
  control : Control
  tally : Tally
  /-- Everything the run did, oldest first. -/
  journal : List Entry
deriving Repr

namespace Run

/-- A run of an act that starts now. -/
def new (w : World) (act : Act) (isCancelled : Bool) : Run :=
  ⟨act, w.clock, isCancelled, .ready, .zero, []⟩

/-- The request to stop, which the run notices where it looks for it. -/
def cancel (r : Run) : Run := { r with isCancelled := true }

/-- The run goes on at another point. -/
def goto (r : Run) (control : Control) : Run := { r with control }

/-- Entries are added to the journal. -/
def record (r : Run) (entries : List Entry) : Run := { r with journal := r.journal ++ entries }

/-- The observer is told something. -/
def note (r : Run) (notice : Notice) : Run := r.record [.notice notice]

/-- The result of a run that is over. -/
def result? (r : Run) : Option (Except EngineError Outcome) :=
  match r.control with
  | .done result => some result
  | _ => none

/-- Sends a batch and goes on from there, or aborts if it is refused. -/
def send (w : World) (r : Run) (patches : List Patch) (next : Run → Run) : World × Run :=
  match w.store.apply r.act.id patches with
  | .ok store => ({ w with store }, next (r.record [.batch patches none]))
  | .error e => (w, (r.record [.batch patches (some e)]).goto (.aborting (.patch e)))

/-- Where a run goes after a sequence. -/
def judge (r : Run) (k : Nat) (tally : Tally) : Control :=
  if r.isCancelled || tally.cancelled > 0 then .winding .cancelled (k + 1)
  else if tally.failed > 0 then .winding .failed (k + 1)
  else .turn (k + 1)

/-- What is given back at the end: `k` sequences have run, the others were
skipped. -/
def outcome (r : Run) (status : Status) (k ms : Nat) : Outcome :=
  { act := r.act.id, status, wallClockMs := ms, totalTaskMs := r.tally.totalTaskMs
    completed := r.tally.completed, failed := r.tally.failed, cancelled := r.tally.cancelled
    skippedSequences := (r.act.sequences.drop k).length }

/-! ## Moves -/

/-- Looks up the next record of a sequence; once all are there, the
sequence starts. -/
def lookUp (r : Run) (w : World) (k : Nat) (s : Sequence) (records : List Generation) :
    World × Run :=
  match s.steps[records.length]? with
  | some step =>
    match w.executor.get? step.generation with
    | none => (w, r.goto (.aborting (.missingGeneration step.generation)))
    | some g =>
      if g.status = .created then (w, r.goto (.opening k (records ++ [g])))
      else (w, r.goto (.aborting (.unexpectedState g.id g.status)))
  | none =>
    send w r (Batch.opening k s) fun r =>
      (r.note (.sequenceStart k s)).goto (.running k w.clock (records.map .waiting))

/-- A move of the run itself; `none` if it can only wait for its steps, or
is over. -/
def lead (r : Run) (w : World) : Option (World × Run) :=
  let ms := elapsed r.startedAt w.clock
  match r.control with
  | .ready =>
    if r.act.status = .queued then
      send w r Batch.begin fun r => (r.note (.actStart r.act)).goto (.turn 0)
    else some (w, r.goto (.done (.error (.actNotQueued r.act.id r.act.status))))
  | .turn k =>
    if k < r.act.sequences.length then
      if r.isCancelled then some (w, r.goto (.winding .cancelled k))
      else some (w, r.goto (.opening k []))
    else some (w, r.goto (.winding .completed k))
  | .opening k records => (r.act.sequences[k]?).map fun s => r.lookUp w k s records
  | .running k since steps => do
    let s ← r.act.sequences[k]?
    let reports ← steps.mapM (·.report?)
    let tally := Tally.ofReports reports
    send w r (Batch.closing k s reports (elapsed since w.clock)) fun r =>
      (r.note (.sequenceFinish k s tally.status)).goto (.closed k tally)
  | .closed k tally => some (w, { r with tally := r.tally.add tally }.goto (r.judge k tally))
  | .winding status k =>
    let outcome := r.outcome status k ms
    let r := r.record ((r.act.sequences.drop k).map fun s => .notice (.sequenceSkip s))
    send w r (Batch.final status ms) fun r =>
      ((r.note (.actComplete outcome.hasError ms)).note (.actFinish outcome)).goto
        (.done (.ok outcome))
  | .aborting e =>
    let (w, r) := send w r (Batch.abort e ms) id
    some (w, (r.note (.actComplete true ms)).goto (.done (.error e)))
  | .done _ => none

/-- A move of step `j` of the running sequence. -/
def stepMove (r : Run) (w : World) (j : Nat) : Option (World × Run) :=
  match r.control with
  | .running k since steps => do
    let s ← r.act.sequences[k]?
    let step ← s.steps[j]?
    let activity ← steps[j]?
    let (executor, activity, entries) ←
      activity.advance w.executor w.clock r.isCancelled ⟨k, j, step⟩
    return (w.withExecutor executor,
      (r.record entries).goto (.running k since (steps.set j activity)))
  | _ => none

/-- How many steps run. -/
def width (r : Run) : Nat :=
  match r.control with
  | .running _ _ steps => steps.length
  | _ => 0

/-- The first possible move: those of the steps come before the run's own,
the earliest step first. -/
def nextMove (r : Run) (w : World) : Option (World × Run) :=
  (List.range r.width).findSome? (r.stepMove w) <|> r.lead w

end Run

end Workflow
