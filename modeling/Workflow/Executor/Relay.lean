/-
Workflow.Executor.Relay — the two sides of a relay.

A ticket waits in the queue, is held by whoever took it, and is used up by
one report; dropping it is a report of failure. The queue outlives either
side of the relay but not both: tickets that still wait then are dropped.
-/
import Workflow.Executor.Basic

namespace Workflow.Executor

def relay? (x : Executor) : Option Relay :=
  match x.staff with
  | .workers _ => none
  | .relay relay => some relay

/-- Changes the relay, if there is one. -/
def withRelay (x : Executor) (f : Relay → Relay) : Executor :=
  match x.staff with
  | .workers _ => x
  | .relay relay => { x with staff := .relay (f relay) }

/-! ## Tickets -/

/-- A driver takes the oldest waiting ticket. -/
def take (x : Executor) : Option (Executor × Nat) := do
  let relay ← x.relay?
  if relay.drivers = 0 then none
  let n ← relay.waiting.head?
  return (x.withRelay fun r => { r with waiting := r.waiting.tail, held := r.held ++ [n] }, n)

/-- A driver has taken the ticket and not yet answered it. -/
def isHeld (x : Executor) (n : Nat) : Bool := x.relay?.any (·.held.contains n)

/-- Uses a held ticket up. -/
def redeem (x : Executor) (n : Nat) (result : WorkResult) (now : Timestamp) : Executor × Bool :=
  if x.isHeld n then
    (x.withRelay fun r => { r with held := r.held.erase n }).finish n result now
  else (x, false)

/-- A report on the work of a flight, by a worker or with a ticket. -/
def report (x : Executor) (n : Nat) (result : WorkResult) (now : Timestamp) : Executor × Bool :=
  match x.staff with
  | .workers _ => x.finish n result now
  | .relay _ => x.redeem n result now

/-- What a generation is told whose ticket was dropped. -/
def lostTicket : String := "relay ticket dropped before the generation resolved"

/-- Drops a held ticket. -/
def dropTicket (x : Executor) (n : Nat) (now : Timestamp) : Executor :=
  (x.redeem n (.error lostTicket) now).1

/-! ## Sides -/

/-- Drops the tickets that nobody can take any more. -/
def sweep (x : Executor) (now : Timestamp) : Executor :=
  match x.relay? with
  | none => x
  | some relay =>
    if relay.drivers = 0 && !relay.isOwned then
      relay.waiting.foldl (fun x n => (x.finish n (.error lostTicket) now).1)
        (x.withRelay ({ · with waiting := [] }))
    else x

/-- A driver lets one more hold the receiving side. -/
def addDriver (x : Executor) : Executor :=
  x.withRelay fun r => if r.drivers = 0 then r else { r with drivers := r.drivers + 1 }

/-- A driver leaves. -/
def dropDriver (x : Executor) (now : Timestamp) : Executor :=
  (x.withRelay fun r => { r with drivers := r.drivers - 1 }).sweep now

/-- The starting side is given up. -/
def disown (x : Executor) (now : Timestamp) : Executor :=
  (x.withRelay ({ · with isOwned := false })).sweep now

end Workflow.Executor
