/-
Workflow.Simulation.Rehearsal — a run in virtual time.

At every instant at which something is due, all that is due acts first:
work, the cancellation, and deeds of others. Then the run looks at its
steps, one after the other, and moves each on until it has to wait; work
that was started then begins. When nothing is left to do at this instant,
the clock moves to the next one.
-/
import Workflow.Engine.Run
import Workflow.Simulation.Stage

namespace Workflow

/-- A stage with a run on it. -/
structure Rehearsal where
  stage : Stage
  run : Run
  /-- The step that the run looks at. -/
  turn : Nat
  /-- When the run is cancelled. -/
  cancelAt : Option Nat
  /-- What others do, and when. -/
  timeline : List (Nat × Deed)

namespace Rehearsal

/-- A run of an act on a stage; the times of the cancellation and of the
deeds of others are counted from its beginning. A cancellation that is due
already comes before the run. -/
def new (stage : Stage) (act : Act) (cancelAfter : Option Nat) (timeline : List (Nat × Deed)) :
    Rehearsal :=
  { stage, run := .new stage.world act (cancelAfter == some 0), turn := 0
    cancelAt := cancelAfter.map (wakeTime stage.world.clock)
    timeline := timeline.map fun (ms, deed) => (wakeTime stage.world.clock ms, deed) }

/-- Another run on the same stage. -/
def again (h : Rehearsal) (act : Act) : Rehearsal :=
  { h with run := .new h.stage.world act h.run.isCancelled, turn := 0 }

/-- The next time at which something is due. -/
def nextInstant (h : Rehearsal) : Option Nat :=
  let cancellation := if h.run.isCancelled then none else h.cancelAt
  (h.stage.nextWake.toList ++ cancellation.toList ++ h.timeline.map (·.1)).min?

/-- Moves the clock and does all that is due. -/
def moveTo (h : Rehearsal) (time : Nat) : Rehearsal :=
  let stage := (h.stage.moveTo time).work
  let due := (h.timeline.filter (·.1 ≤ time)).map (·.2)
  { h with
    stage := { stage with world := stage.world.afterAll due }
    run := if h.cancelAt.any (· ≤ time) then h.run.cancel else h.run
    timeline := h.timeline.filter (time < ·.1) }

/-- The rehearsal after a move, when the run looks at the given step. -/
def after (h : Rehearsal) (turn : Nat) (move : World × Run) : Rehearsal :=
  { h with stage := { h.stage with world := move.1 }, run := move.2, turn }

/-- What happens while the run waits: work acts, or the run looks at its
steps again, or else the clock moves. -/
def pause (h : Rehearsal) : Option Rehearsal :=
  let stage := h.stage.enlist
  if !stage.ready.isEmpty then some { h with stage := stage.work }
  else if (h.run.nextMove h.stage.world).isSome then some h
  else h.nextInstant.map h.moveTo

/-- The next thing that happens, if there is one. -/
def next (h : Rehearsal) : Option Rehearsal :=
  let world := h.stage.world
  if h.turn < h.run.width then
    some (((h.run.stepMove world h.turn).map (h.after h.turn)).getD { h with turn := h.turn + 1 })
  else ((h.run.lead world).map (h.after 0)) <|> { h with turn := 0 }.pause

/-- Lets things happen until the run is over, at most `fuel` of them. -/
def playFor (fuel : Nat) (h : Rehearsal) : Rehearsal :=
  match fuel with
  | 0 => h
  | fuel + 1 =>
    match h.run.result?, h.next with
    | none, some h => playFor fuel h
    | _, _ => h

/-- A bound on how much can happen before the run is over: a few things for
every sequence and step, and for everything that work or others do, and
after each of them a look at all steps. -/
def bound (h : Rehearsal) : Nat :=
  let acting (step : Step) : Nat :=
    ((h.stage.executor.get? step.generation).map fun g => (h.stage.scripts g).size).getD 0
  let widths := h.run.act.sequences.map (·.steps.length)
  let steps := h.run.act.sequences.flatMap (·.steps)
  let sleeping := h.stage.asleep.map fun (_, t) => t.actions.length + 1
  (widths.max?.getD 0 + 2) * (16 + 16 * (widths.length + steps.length) +
    4 * (steps.map acting).foldl (· + ·) 0 + 4 * sleeping.foldl (· + ·) 0 + h.timeline.length)

/-- Plays the run to its end, or until nothing more can happen. -/
def play (h : Rehearsal) : Rehearsal := h.playFor h.bound

end Rehearsal

end Workflow
