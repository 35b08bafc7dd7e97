/-
Workflow.Event.Bus — handing events on to sinks.

Events wait in a bounded queue until a listener takes them, one at a time
and in order, and shows each one to every sink. A sink that fails does not
keep an event from the others.

* `emit` refuses an event when the queue is full or the bus is gone;
  `emitAll` emits one event after the other.
* `take` is one step of a listener; `settle` lets a running listener take
  all that waits.
* `stop` asks the listener to end, lets it take what waits, and ends it.
-/
import Workflow.Event.Render
import Workflow.Config
import Workflow.Failure

namespace Workflow

/-- Why an event is refused. -/
inductive EmitError where
  | closed
  | full
deriving DecidableEq, Repr

/-- The wording of a refused event. -/
def EmitError.report : EmitError → Report
  | .closed => .plain "event_bus::closed" "event bus closed"
  | .full =>
    .withAdvice "event_bus::full" "event buffer full; event dropped"
      "Raise `EventBusConfig::buffer_capacity` or make sure the bus is listening."

/-- Where a sink writes. -/
inductive Sink where
  /-- Rendered lines on the standard output. -/
  | stdout (mode : ColorMode)
  /-- A buffer in memory. -/
  | memory (buffer : Nat)
  /-- One JSON object a line. -/
  | jsonLines
  /-- A channel that a receiver may have left. -/
  | channel (receiver : Nat)
deriving DecidableEq, Repr

/-- What the sinks have written. A receiver that has been dropped holds
nothing. -/
structure Outlets where
  stdout : List String
  jsonLines : List Json
  buffers : List (List Event)
  receivers : List (Option (List Event))
deriving DecidableEq, Repr

namespace Outlets

def empty : Outlets := ⟨[], [], [], []⟩

/-- Shows one event to one sink: what is written then, and whether the
sink took it. -/
def deliver (o : Outlets) (e : Event) : Sink → Outlets × Bool
  | .stdout mode =>
    ({ o with stdout := o.stdout ++ [(Render.ofEvent (mode.isColored false) e).text] }, true)
  | .memory i => ({ o with buffers := o.buffers.modify i (· ++ [e]) }, true)
  | .jsonLines => ({ o with jsonLines := o.jsonLines ++ [e.envelope] }, true)
  | .channel i =>
    match o.receivers[i]? with
    | some (some got) => ({ o with receivers := o.receivers.set i (some (got ++ [e])) }, true)
    | _ => (o, false)

end Outlets

/-- What the listener of a bus does. -/
inductive Listener where
  | idle
  | running
  | stopping
deriving DecidableEq, Repr

/-- Events that wait for the sinks that are to be shown them, and how far the
listener has come. -/
structure Bus where
  capacity : Nat
  pending : List Event
  sinks : List Sink
  listener : Listener
  /-- Whether the bus is still there. -/
  isOpen : Bool
  outlets : Outlets
deriving DecidableEq, Repr

namespace Bus

/-! ## Setting up -/

/-- A bus that does not listen yet. It can hold at least one event. -/
def new (capacity : Nat) (sinks : List Sink) (outlets : Outlets) : Bus :=
  ⟨max capacity 1, [], sinks, .idle, true, outlets⟩

/-- Adds a sink that sees every event taken from now on. -/
def addSink (b : Bus) (sink : Sink) : Bus := { b with sinks := b.sinks ++ [sink] }

/-- Adds a sink with a memory buffer of its own. -/
def addMemory (b : Bus) : Bus × Nat :=
  let i := b.outlets.buffers.length
  ({ b with outlets := { b.outlets with buffers := b.outlets.buffers ++ [[]] } }.addSink
    (.memory i), i)

/-- Adds a sink with a receiver of its own. -/
def addChannel (b : Bus) : Bus × Nat :=
  let i := b.outlets.receivers.length
  ({ b with outlets := { b.outlets with receivers := b.outlets.receivers ++ [some []] } }.addSink
    (.channel i), i)

/-- The bus that a configuration asks for, and its last memory buffer. -/
def ofConfig (c : BusConfig) : Bus × Option Nat :=
  c.sinks.foldl
    (fun (b, buffer) sink => match sink with
      | .stdout => (b.addSink (.stdout .auto), buffer)
      | .memory => (b.addMemory.1, some b.addMemory.2))
    (new c.capacity [] .empty, none)

/-! ## Events -/

/-- Puts an event into the queue. -/
def emit (b : Bus) (e : Event) : Except EmitError Bus :=
  if !b.isOpen then .error .closed
  else if b.pending.length < b.capacity then .ok { b with pending := b.pending ++ [e] }
  else .error .full

/-- Puts events into the queue until it is full, and counts those that it
took. -/
def emitAll (b : Bus) (events : List Event) : Bus × Nat :=
  let room := if b.isOpen then b.capacity - b.pending.length else 0
  ({ b with pending := b.pending ++ events.take room }, (events.take room).length)

theorem emitAll_nil (b : Bus) : b.emitAll [] = (b, 0) := by
  simp [emitAll]

/-- The first event goes into the queue before the others, or is refused. -/
theorem emitAll_cons (b : Bus) (e : Event) (events : List Event) :
    b.emitAll (e :: events) =
      match b.emit e with
      | .ok b => ((b.emitAll events).1, (b.emitAll events).2 + 1)
      | .error _ => b.emitAll events := by
  unfold emitAll emit
  cases hb : b.isOpen with
  | false => simp
  | true =>
    by_cases h : b.pending.length < b.capacity
    · obtain ⟨k, hk⟩ : ∃ k, b.capacity - b.pending.length = k + 1 :=
        ⟨b.capacity - b.pending.length - 1, by omega⟩
      have hk' : b.capacity - (b.pending.length + 1) = k := by omega
      simp [h, hk, hk']
    · have hk : b.capacity - b.pending.length = 0 := by omega
      simp [h, hk]

/-- Shows an event to every sink. -/
def broadcast (sinks : List Sink) (e : Event) (o : Outlets) : Outlets :=
  sinks.foldl (fun o sink => (o.deliver e sink).1) o

/-- One step of the listener: the first waiting event goes to the
sinks. -/
def take (b : Bus) : Bus :=
  match b.listener, b.pending with
  | .running, e :: rest | .stopping, e :: rest =>
    { b with pending := rest, outlets := broadcast b.sinks e b.outlets }
  | _, _ => b

/-- Lets a running listener take all that waits. -/
def settle (b : Bus) : Bus :=
  match b.listener with
  | .idle => b
  | .running | .stopping =>
    { b with
      pending := []
      outlets := b.pending.foldl (fun o e => broadcast b.sinks e o) b.outlets }

/-! ## Listening -/

/-- Starts the listener, unless it runs already. -/
def listen (b : Bus) : Bus :=
  match b.listener with
  | .idle => { b with listener := .running }
  | .running | .stopping => b

/-- Asks a running listener to end. -/
def requestStop (b : Bus) : Bus :=
  match b.listener with
  | .running => { b with listener := .stopping }
  | .idle | .stopping => b

/-- Ends a listener that was asked to, once nothing waits. -/
def endListener (b : Bus) : Bus :=
  match b.listener, b.pending with
  | .stopping, [] => { b with listener := .idle }
  | _, _ => b

/-- Ends the listener after it has taken all that waits. -/
def stop (b : Bus) : Bus := b.requestStop.settle.endListener

/-- Drops the bus: what waits is lost, and later events are refused. -/
def drop (b : Bus) : Bus := { b with pending := [], listener := .idle, isOpen := false }

/-! ## Reading -/

/-- The events that a memory buffer holds. -/
def buffer (b : Bus) (i : Nat) : List Event := (b.outlets.buffers[i]?).getD []

/-- The events of one act in a list. -/
def forAct (act : ActId) (events : List Event) : List Event := events.filter (·.act? == some act)

def clearBuffer (b : Bus) (i : Nat) : Bus :=
  { b with outlets := { b.outlets with buffers := b.outlets.buffers.set i [] } }

/-- Drops a receiver; its sink fails from now on. -/
def dropReceiver (b : Bus) (i : Nat) : Bus :=
  { b with outlets := { b.outlets with receivers := b.outlets.receivers.set i none } }

end Bus

end Workflow
