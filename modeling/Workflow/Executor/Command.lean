/-
Workflow.Executor.Command — what an executor is asked, and what it answers.

Commands are taken one at a time, so a list of commands is a history.

What a run asks (`set`, `get`, `start`, `stop`) stands beside what those say
who do the work. A command that is refused is answered with the error and
leaves the executor as it was.
-/
import Workflow.Executor.Relay

namespace Workflow.Executor

/-- A request of those who want generations done, or of those who do
them. -/
inductive Command where
  | set (generation : Generation)
  | get (id : GenerationId)
  | start (id : GenerationId) (isStreaming : Bool)
  | stop (id : GenerationId)
  | delta (flight : Nat) (text : String)
  | report (flight : Nat) (result : WorkResult)
  | take
  | dropTicket (flight : Nat)
  | addDriver
  | dropDriver
  | disown
deriving Repr

/-- What a command answers. -/
inductive Answer where
  | done
  | refused (error : ExecutorError)
  | record (generation : Option Generation)
  | started (flight : Nat)
  /-- Whether what was told still mattered. -/
  | heard (isLive : Bool)
  | taken (flight : Option Nat)
deriving Repr

/-- Takes one command. -/
def run (x : Executor) (now : Timestamp) : Command → Executor × Answer
  | .set g =>
    match x.set g with
    | .ok x => (x, .done)
    | .error e => (x, .refused e)
  | .get id => (x, .record (x.get? id))
  | .start id isStreaming =>
    match x.start id isStreaming now with
    | .ok (x, n) => (x, .started n)
    | .error e => (x, .refused e)
  | .stop id =>
    match x.stop id now with
    | .ok x => (x, .done)
    | .error e => (x, .refused e)
  | .delta n text =>
    let (x, isLive) := x.delta n text
    (x, .heard isLive)
  | .report n result =>
    let (x, isLive) := x.report n result now
    (x, .heard isLive)
  | .take =>
    match x.take with
    | some (x, n) => (x, .taken (some n))
    | none => (x, .taken none)
  | .dropTicket n => (x.dropTicket n now, .done)
  | .addDriver => (x.addDriver, .done)
  | .dropDriver => (x.dropDriver now, .done)
  | .disown => (x.disown now, .done)

/-- Takes commands in order, each at its time. -/
def runAll (x : Executor) : List (Timestamp × Command) → Executor × List Answer
  | [] => (x, [])
  | (now, c) :: rest =>
    let (x, answer) := x.run now c
    let (x, answers) := runAll x rest
    (x, answer :: answers)

end Workflow.Executor
