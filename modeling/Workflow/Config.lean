/-
Workflow.Config — settings of an engine and of its event bus.
-/
import Workflow.Text.Blank
import Workflow.Text.Unsigned

namespace Workflow

/-- The outputs that a bus can be set up with. -/
inductive SinkConfig where
  | stdout
  | memory
deriving DecidableEq, Repr

/-- How many events may wait, and where they go. -/
structure BusConfig where
  capacity : Nat
  sinks : List SinkConfig
deriving DecidableEq, Repr

namespace BusConfig

def defaultCapacity : Nat := 1024

/-- A capacity of 0 means the default. -/
def new (capacity : Nat) (sinks : List SinkConfig) : BusConfig :=
  ⟨if capacity = 0 then defaultCapacity else capacity, sinks⟩

def stdoutOnly : BusConfig := new defaultCapacity [.stdout]

def memoryOnly : BusConfig := new defaultCapacity [.memory]

/-- Adds an output that is not there yet. -/
def addSink (c : BusConfig) (sink : SinkConfig) : BusConfig :=
  if sink ∈ c.sinks then c else { c with sinks := c.sinks ++ [sink] }

end BusConfig

structure EngineConfig where
  bus : BusConfig
  logFilter : String
deriving DecidableEq, Repr

namespace EngineConfig

def initial : EngineConfig := ⟨.stdoutOnly, "info"⟩

/-- The settings that two variables of the environment ask for: a filter
counts unless it is blank, a capacity if it is a number. -/
def ofEnvironment (log buffer : Option String) : EngineConfig :=
  let logFilter := match log with
    | some filter => if (Text.trim filter.toList).isEmpty then initial.logFilter else filter
    | none => initial.logFilter
  let bus := match buffer.bind fun text => Text.readUnsigned (Text.trim text.toList) with
    | some capacity => .new capacity initial.bus.sinks
    | none => initial.bus
  ⟨bus, logFilter⟩

end EngineConfig

end Workflow
