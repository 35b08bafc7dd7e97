/-
Workflow.Executor.Basic — having generations done.

An `Executor` keeps a registry and has staff for the work:

* workers at hand, each for some operations; or
* a relay: every start puts a ticket into a queue, from which drivers take
  it, do the work elsewhere and report back.

A ticket carries the number of its flight.
-/
import Workflow.Generation.Registry

namespace Workflow

/-- The queue between starts and drivers. -/
structure Relay where
  /-- How many hold the receiving side. -/
  drivers : Nat
  /-- Whether anyone holds the starting side. -/
  isOwned : Bool
  /-- The tickets that no driver has taken, oldest first. -/
  waiting : List Nat
  /-- The tickets that were taken and not yet used up. -/
  held : List Nat
deriving DecidableEq, Repr

/-- A relay with one driver. -/
def Relay.new : Relay := ⟨1, true, [], []⟩

/-- Who does the work. -/
inductive Staff where
  /-- Workers for the listed operations. -/
  | workers (operations : List Operation)
  | relay (relay : Relay)
deriving DecidableEq, Repr

/-- The registry, and those who do the work. -/
structure Executor where
  registry : Registry
  staff : Staff
deriving Repr

namespace Executor

/-- An executor that does the work of these operations itself. -/
def ofWorkers (operations : List Operation) : Executor := ⟨.empty, .workers operations⟩

/-- An executor that hands its work out. -/
def ofRelay : Executor := ⟨.empty, .relay .new⟩

/-! ## Records -/

def get? (x : Executor) (id : GenerationId) : Option Generation := x.registry.get? id

def set (x : Executor) (g : Generation) : Except ExecutorError Executor :=
  (x.registry.set g).map ({ x with registry := · })

/-- Stores records up to the first that is refused. -/
def insertAll (x : Executor) : List Generation → Executor × Option ExecutorError
  | [] => (x, none)
  | g :: rest =>
    match x.set g with
    | .error e => (x, some e)
    | .ok x => x.insertAll rest

def isInFlight (x : Executor) (id : GenerationId) : Bool := x.registry.isInFlight id

/-! ## Starting and stopping -/

/-- Whether anybody could do the work on a generation. -/
def checkStaff (x : Executor) (id : GenerationId) : Except ExecutorError Unit :=
  match x.staff with
  | .relay relay => if relay.drivers = 0 || !relay.isOwned then .error .closed else .ok ()
  | .workers operations =>
    match x.get? id with
    | none => .error (.unknownGeneration id)
    | some g =>
      match g.operation? with
      | none => .error (.notAnOperation id)
      | some operation =>
        if operation ∈ operations then .ok () else .error (.noHandler operation)

/-- The staff once it knows of a new flight. -/
def assign (n : Nat) : Staff → Staff
  | .workers operations => .workers operations
  | .relay relay => .relay { relay with waiting := relay.waiting ++ [n] }

/-- Starts the work on a queued generation; the new flight is answered. -/
def start (x : Executor) (id : GenerationId) (isStreaming : Bool) (now : Timestamp) :
    Except ExecutorError (Executor × Nat) := do
  x.checkStaff id
  let (registry, n) ← x.registry.begin id isStreaming now
  return (⟨registry, assign n x.staff⟩, n)

/-- Cancels a generation, if it still can be. -/
def stop (x : Executor) (id : GenerationId) (now : Timestamp) : Except ExecutorError Executor :=
  (x.registry.stop id now).map fun (registry, _) => { x with registry }

/-! ## Work -/

/-- The generation that a flight works on. -/
def target? (x : Executor) (n : Nat) : Option GenerationId :=
  (x.registry.flights[n]?).map (·.generation)

/-- Whether the work of a flight was told to end. -/
def isCancelled (x : Executor) (n : Nat) : Bool := (x.registry.flights[n]?).any (·.isCancelled)

/-- Streamed text from the work of a flight. Answers whether its generation
is still in flight. -/
def delta (x : Executor) (n : Nat) (text : String) : Executor × Bool :=
  match x.target? n with
  | none => (x, false)
  | some id =>
    let (registry, isLive) := x.registry.delta id text
    ({ x with registry }, isLive)

/-- The end of the work of a flight. Answers whether its generation was
still in flight. -/
def finish (x : Executor) (n : Nat) (result : WorkResult) (now : Timestamp) : Executor × Bool :=
  match x.target? n with
  | none => (x, false)
  | some id =>
    let (registry, isLive) := x.registry.finish id result now
    ({ x with registry }, isLive)

/-- What is said of work that breaks down, perhaps with a message. -/
def crashText : Option String → String
  | some message => s!"handler panicked: {message}"
  | none => "handler panicked"

end Executor

end Workflow
