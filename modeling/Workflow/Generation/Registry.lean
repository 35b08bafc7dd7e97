/-
Workflow.Generation.Registry — the records of all generations, and the
starts whose work has not ended.

* A *flight* is one accepted start. Whoever started it hears its signals:
  streamed text as it comes, and one ending.
* A generation is *in flight* from its start until the first of its work's
  end and a stop. Both look at the same entry, so one of them finds it and
  the other does not.
* An end has two parts, which others may come between: `resolve` changes
  the record and takes the entry away, `deliver` lets the flight hear of
  it. `finish` does both at once.

The failure of streamed work is only heard: its record stays as it was,
and recording the failure is up to the listener.
-/
import Workflow.Generation.Basic
import Workflow.Table

namespace Workflow

/-- Why a call on a generation is refused. -/
inductive ExecutorError where
  | unknownGeneration (generation : GenerationId)
  | transition (cause : TransitionError)
  | noHandler (operation : Operation)
  | notAnOperation (generation : GenerationId)
  | closed
deriving DecidableEq, Repr

namespace ExecutorError

/-- The wording of a refused call. -/
def report : ExecutorError → Report
  | .unknownGeneration generation =>
    .plain "runtime::unknown_generation" s!"generation not found: {generation}"
  | .transition cause => cause.report
  | .noHandler operation =>
    let name := operation.name
    .withAdvice "runtime::no_handler" s!"no handler registered for {name} operations"
      "Register a handler with `InMemoryGenerationRuntime::with_handler`."
  | .notAnOperation generation =>
    .plain "runtime::not_an_operation" s!"generation {generation} has no operation kind"
  | .closed => .plain "runtime::closed" "generation runtime is closed"

end ExecutorError

/-- What can be heard of a flight. -/
inductive Signal where
  /-- A piece of streamed text. -/
  | delta (text : String)
  /-- The work is done; this is the final record. -/
  | completed (record : Generation)
  /-- The work failed; this is the final record. -/
  | failed (record : Generation)
  /-- Streamed work failed. -/
  | broken (message : String)
deriving DecidableEq, Repr

namespace Signal

/-- Whether nothing comes after it. -/
def isEnding : Signal → Bool
  | .delta _ => false
  | .completed _ | .failed _ | .broken _ => true

end Signal

/-- One accepted start. -/
structure Flight where
  generation : GenerationId
  /-- The record at the start. -/
  record : Generation
  /-- Whether text is heard as it comes. -/
  isStreaming : Bool
  /-- Whether the work was told to end. -/
  isCancelled : Bool
  /-- The signals so far, oldest first. -/
  heard : List Signal
  /-- Whether more may be heard. -/
  isOpen : Bool
deriving DecidableEq, Repr, Inhabited

/-- How a piece of work ends: with its outputs, or with a message. -/
abbrev WorkResult := Except String (List Output)

/-- What a flight has yet to hear. -/
structure Delivery where
  flight : Nat
  signal : Signal
deriving DecidableEq, Repr

/-- All records, the flights of the generations that are in flight, and every
flight there ever was. -/
structure Registry where
  records : Table GenerationId Generation
  /-- The flight of every generation in flight. -/
  inFlight : Table GenerationId Nat
  /-- Every flight there ever was; flights are known by their position. -/
  flights : List Flight
deriving Repr, Inhabited

namespace Registry

def empty : Registry := ⟨.empty, .empty, []⟩

/-! ## Records -/

def get? (r : Registry) (id : GenerationId) : Option Generation := r.records.get? id

/-- Stores a record under an identifier, its own. -/
def put (r : Registry) (id : GenerationId) (g : Generation) : Registry :=
  { r with records := r.records.insert id g }

/-- Stores a record, unless it would change a final one. -/
def set (r : Registry) (g : Generation) : Except ExecutorError Registry :=
  match r.get? g.id with
  | none => .ok (r.put g.id g)
  | some old =>
    if old.isTerminal && !old.same g then .error (.transition (.terminal old.id old.status))
    else .ok (r.put g.id g)

/-! ## Flights -/

def isInFlight (r : Registry) (id : GenerationId) : Bool := r.inFlight.contains id

def isStreaming (r : Registry) (n : Nat) : Bool := (r.flights[n]?).any (·.isStreaming)

/-- Lets a flight hear a signal. -/
def hear (r : Registry) (n : Nat) (s : Signal) : Registry :=
  { r with flights := r.flights.modify n fun f => { f with heard := f.heard ++ [s] } }

/-- Nothing more will be heard of a flight. -/
def close (r : Registry) (n : Nat) : Registry :=
  { r with flights := r.flights.modify n ({ · with isOpen := false }) }

/-- Tells the work of a flight to end. -/
def cancelFlight (r : Registry) (n : Nat) : Registry :=
  { r with flights := r.flights.modify n ({ · with isCancelled := true }) }

/-- Takes away the entry of a generation. -/
def land (r : Registry) (id : GenerationId) : Registry :=
  { r with inFlight := r.inFlight.erase id }

/-- The registry once the flight of a generation, if it has one, is
forgotten. -/
def forget (r : Registry) (id : GenerationId) : Registry :=
  match r.inFlight.get? id with
  | none => r
  | some n => (r.land id).close n

/-- Adds a flight for a generation that starts with the given record. -/
def launch (r : Registry) (id : GenerationId) (record : Generation) (isStreaming : Bool) :
    Registry × Nat :=
  let n := r.flights.length
  ({ r with
      inFlight := r.inFlight.insert id n
      flights := r.flights ++ [⟨id, record, isStreaming, false, [], true⟩] }, n)

/-- Moves a queued generation to running and puts it in flight. An earlier
flight of the same generation is forgotten. -/
def begin (r : Registry) (id : GenerationId) (isStreaming : Bool) (now : Timestamp) :
    Except ExecutorError (Registry × Nat) :=
  match r.get? id with
  | none => .error (.unknownGeneration id)
  | some record =>
    match record.start now with
    | .error e => .error (.transition e)
    | .ok running => .ok (((r.put id running).forget id).launch id running isStreaming)

/-! ## Work -/

/-- Streamed text from the work on a generation. Answers whether it is
still in flight; where nobody streams, the text is discarded. -/
def delta (r : Registry) (id : GenerationId) (text : String) : Registry × Bool :=
  match r.inFlight.get? id with
  | none => (r, false)
  | some n => (if r.isStreaming n then r.hear n (.delta text) else r, true)

/-- The record that a result makes final, and the signal of it. Of a
streamed failure there is only the signal. -/
def settle (record : Generation) (isStreaming : Bool) (result : WorkResult) (now : Timestamp) :
    Except TransitionError (Option Generation × Signal) :=
  match result with
  | .ok outputs => do
    let done ← record.complete outputs now
    return (some done, .completed done)
  | .error message =>
    if isStreaming then .ok (none, .broken message)
    else do
      let failed ← record.fail message now
      return (some failed, .failed failed)

/-- The first part of an end: the entry goes, and the record becomes
final. Nothing is left to deliver if there was no entry, or if the record
does not allow the end. -/
def resolve (r : Registry) (id : GenerationId) (result : WorkResult) (now : Timestamp) :
    Registry × Option Delivery :=
  match r.inFlight.get? id, r.get? id with
  | none, _ => (r, none)
  | some n, none => ((r.land id).close n, none)
  | some n, some record =>
    match settle record (r.isStreaming n) result now with
    | .error _ => ((r.land id).close n, none)
    | .ok (final, signal) => ((final.elim r (r.put id)).land id, some ⟨n, signal⟩)

/-- The second part of an end. -/
def deliver (r : Registry) (d : Delivery) : Registry := (r.hear d.flight d.signal).close d.flight

/-- The end of the work on a generation. Answers whether it was still in
flight and could end so. -/
def finish (r : Registry) (id : GenerationId) (result : WorkResult) (now : Timestamp) :
    Registry × Bool :=
  match r.resolve id result now with
  | (r, none) => (r, false)
  | (r, some d) => (r.deliver d, true)

/-! ## Stopping -/

/-- Cancels a generation and forgets its flight; answers whether there was
something to cancel. A final record is left alone, and so is a running one
that is no longer in flight: its ending has already been heard. -/
def stop (r : Registry) (id : GenerationId) (now : Timestamp) :
    Except ExecutorError (Registry × Bool) :=
  match r.get? id with
  | none => .error (.unknownGeneration id)
  | some record =>
    if record.isTerminal || (record.status = .running && !r.isInFlight id) then .ok (r, false)
    else
      match record.cancel now with
      | .error e => .error (.transition e)
      | .ok cancelled =>
        match r.inFlight.get? id with
        | none => .ok (r.put id cancelled, true)
        | some n => .ok (((r.put id cancelled).forget id).cancelFlight n, true)

end Registry

end Workflow
