/-
Workflow.Simulation.Script — work that follows a script.

No wait is endless: whoever waits longer than `longestWait` wakes after
that time.
-/
import Workflow.Generation.Basic

namespace Workflow

/-- The milliseconds that a wait lasts at most: 30 years of 365 days. -/
def longestWait : Nat := 30 * 365 * 24 * 60 * 60 * 1000

/-- The time at which a wait of some milliseconds is over. -/
def wakeTime (clock ms : Nat) : Nat := clock + min ms longestWait

/-- One thing that scripted work does. -/
inductive Action where
  /-- Streams a text. -/
  | delta (text : String)
  /-- Sleeps for some milliseconds. -/
  | sleep (ms : Nat)
deriving DecidableEq, Repr

/-- How scripted work ends. -/
inductive Ending where
  | ok (outputs : List Output)
  | fail (message : String)
  /-- The work breaks down, perhaps with a message. -/
  | crash (message : Option String)
  /-- The work never ends. -/
  | hang
  /-- Whoever took the work gives it back at once. -/
  | drop
deriving DecidableEq, Repr

/-- What a piece of work does, in order, and how it ends. -/
structure Script where
  actions : List Action
  ending : Ending
deriving DecidableEq, Repr

namespace Script

/-- Work that is done at once. -/
def idle : Script := ⟨[], .ok []⟩

/-- At most this often does the work sleep or stream. -/
def size (s : Script) : Nat := s.actions.length

end Script

end Workflow
