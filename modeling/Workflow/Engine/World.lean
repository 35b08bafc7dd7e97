/-
Workflow.Engine.World — what runs share.

A `World` holds the acts, the generations and the time. A `Deed` is what
anybody does to it; a run does its own deeds when it moves.
-/
import Workflow.Store
import Workflow.Executor.Command

namespace Workflow

/-- All that a run works with: the store, the executor and the clock. -/
structure World where
  store : Store
  executor : Executor
  /-- The milliseconds since the beginning. -/
  clock : Nat
deriving Repr

/-- What somebody does to a world. -/
inductive Deed where
  | store (command : Store.Command)
  | executor (command : Executor.Command)
  /-- Lets some milliseconds pass. -/
  | wait (ms : Nat)
deriving Repr

namespace World

/-- The time that the clock shows. -/
def now (w : World) : Timestamp := .ofMillis w.clock

def withExecutor (w : World) (executor : Executor) : World := { w with executor }

/-- The world after a deed; whoever did it knows the answer. -/
def after (w : World) : Deed → World
  | .store command => { w with store := (w.store.run command).1 }
  | .executor command => w.withExecutor (w.executor.run w.now command).1
  | .wait ms => { w with clock := w.clock + ms }

/-- The world after several deeds. -/
def afterAll (w : World) (deeds : List Deed) : World := deeds.foldl after w

end World

end Workflow
