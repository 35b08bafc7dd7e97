/-
Workflow.Simulation.Stage — scripted work in virtual time.

On a `Stage` the work of every flight follows a script, and the clock moves
only when all work sleeps. Work that is due at one instant acts in the
order in which it went to sleep; a sleep of no time does nothing. Work that
was told to end gives up.
-/
import Workflow.Engine.World
import Workflow.Simulation.Script

namespace Workflow

/-- What is left of a script, for the work of one flight. -/
structure Task where
  flight : Nat
  actions : List Action
  ending : Ending
deriving DecidableEq, Repr

/-- A world with those who do its work: what each generation is to give, and
who acts when. -/
structure Stage where
  world : World
  /-- The script for the work on a generation. -/
  scripts : Generation → Script
  /-- The work that may act now. -/
  ready : List Task
  /-- The work that sleeps, with the times at which it wakes, in the order
  in which it went to sleep. -/
  asleep : List (Nat × Task)
  /-- How many flights have had their work taken on. -/
  enlisted : Nat

/-- How the work of a flight reports its end. At a relay, work that breaks
down or is given back drops its ticket. -/
def Ending.command? (isRelayed : Bool) (n : Nat) : Ending → Option Executor.Command
  | .ok outputs => some (.report n (.ok outputs))
  | .fail message => some (.report n (.error message))
  | .crash message =>
    some (if isRelayed then .dropTicket n else .report n (.error (Executor.crashText message)))
  | .hang => none
  | .drop => some (if isRelayed then .dropTicket n else .report n (.ok []))

namespace Task

/-- The work of a flight, from its beginning. Whoever is to drop a ticket
does nothing else before. -/
def new (isRelayed : Bool) (n : Nat) (script : Script) : Task :=
  ⟨n, if isRelayed && script.ending = .drop then [] else script.actions, script.ending⟩

/-- What the work does until it sleeps or ends, and what is left of it then
with the time at which it wakes. -/
def spell (isRelayed : Bool) (clock n : Nat) (ending : Ending) :
    List Action → List Executor.Command × Option (Nat × Task)
  | [] => ((ending.command? isRelayed n).toList, none)
  | .delta text :: rest =>
    let (commands, sleeper) := spell isRelayed clock n ending rest
    (.delta n text :: commands, sleeper)
  | .sleep ms :: rest =>
    if ms = 0 then spell isRelayed clock n ending rest
    else ([], some (wakeTime clock ms, ⟨n, rest, ending⟩))

end Task

namespace Stage

def new (world : World) (scripts : Generation → Script) : Stage := ⟨world, scripts, [], [], 0⟩

def executor (s : Stage) : Executor := s.world.executor

def withExecutor (s : Stage) (executor : Executor) : Stage :=
  { s with world := s.world.withExecutor executor }

def isRelayed (s : Stage) : Bool := s.executor.relay?.isSome

/-- The stage after commands to the executor. -/
def afterCommands (s : Stage) (commands : List Executor.Command) : Stage :=
  { s with world := s.world.afterAll (commands.map .executor) }

/-! ## Work -/

/-- How many tickets wait. -/
def waiting (s : Stage) : Nat := (s.executor.relay?.map (·.waiting.length)).getD 0

/-- The work of a flight, from its beginning. -/
def task? (s : Stage) (n : Nat) : Option Task :=
  (s.executor.registry.flights[n]?).map fun f => .new s.isRelayed n (s.scripts f.record)

/-- Takes on the work of all new flights. -/
def enlist (s : Stage) : Stage :=
  let count := s.executor.registry.flights.length
  let fresh := List.range' s.enlisted (count - s.enlisted)
  { s.afterCommands (List.replicate s.waiting .take) with
    ready := s.ready ++ fresh.filterMap s.task?
    enlisted := count }

/-- One piece of work acts until it sleeps or ends, unless it was told to
end. -/
def act (s : Stage) (t : Task) : Stage :=
  if s.executor.isCancelled t.flight then s
  else
    let (commands, sleeper) := Task.spell s.isRelayed s.world.clock t.flight t.ending t.actions
    { s.afterCommands commands with asleep := s.asleep ++ sleeper.toList }

/-- All work that is ready acts. -/
def work (s : Stage) : Stage := s.ready.foldl act { s with ready := [] }

/-- New work begins, and acts until it sleeps. -/
def settle (s : Stage) : Stage := s.enlist.work

/-! ## Time -/

/-- The sleeping work that was not told to end. -/
def sleepers (s : Stage) : List (Nat × Task) :=
  s.asleep.filter fun (_, t) => !s.executor.isCancelled t.flight

/-- The time at which the next work wakes. -/
def nextWake (s : Stage) : Option Nat := (s.sleepers.map (·.1)).min?

/-- Moves the clock; what sleeps until then wakes. -/
def moveTo (s : Stage) (time : Nat) : Stage :=
  { s with
    world := s.world.after (.wait (time - s.world.clock))
    ready := s.ready ++ (s.sleepers.filter (·.1 ≤ time)).map (·.2)
    asleep := s.sleepers.filter (time < ·.1) }

/-- Lets time pass up to the given time, waking at most `fuel` times. -/
def passTo (fuel time : Nat) (s : Stage) : Stage :=
  match fuel with
  | 0 => s.moveTo time
  | fuel + 1 =>
    match s.nextWake with
    | none => s.moveTo time
    | some wake => if wake ≤ time then passTo fuel time (s.moveTo wake).work else s.moveTo time

/-- Lets some milliseconds pass. Each waking uses up a sleep, so that there
are no more of them than sleeps are left. -/
def wait (s : Stage) (ms : Nat) : Stage :=
  let sleeps := (s.asleep.map fun (_, t) => t.actions.length + 1).foldl (· + ·) 0
  passTo sleeps (wakeTime s.world.clock ms) s

end Stage

end Workflow
