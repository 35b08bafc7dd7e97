/-
Workflow.Store — the acts that readers see, and how they came about.

A `Store` keeps for each act its record and the log of all accepted
patches since it was inserted. A refused batch leaves no trace. Commands
are taken one at a time, so a list of commands is a history.
-/
import Workflow.Act.Update
import Workflow.Table

namespace Workflow

/-- The stored acts, and for each of them the patches that were accepted since
it was inserted. -/
structure Store where
  acts : Table ActId Act
  logs : Table ActId (List Patch)
  /-- A closed store refuses every command. -/
  isClosed : Bool
deriving Repr, Inhabited

namespace Store

def empty : Store := ⟨.empty, .empty, false⟩

/-- What a store is asked. -/
inductive Command where
  | insert (act : Act)
  | get (id : ActId)
  | log (id : ActId)
  | apply (id : ActId) (patches : List Patch)
deriving Repr

/-- What a store answers. -/
inductive Answer where
  | done
  | act (act : Option Act)
  | log (patches : List Patch)
  | refused (error : PatchError)
deriving Repr

def get? (s : Store) (id : ActId) : Option Act := s.acts.get? id

/-- The accepted patches of an act, oldest first. -/
def logOf (s : Store) (id : ActId) : List Patch := (s.logs.get? id).getD []

/-- Stores an act with an empty log, in place of any act of that
identifier. -/
def insert (s : Store) (act : Act) : Store :=
  { s with acts := s.acts.insert act.id act, logs := s.logs.insert act.id [] }

/-- Applies a batch to a stored act. -/
def apply (s : Store) (id : ActId) (patches : List Patch) : Except PatchError Store :=
  if s.isClosed then .error .closed
  else match s.get? id with
    | none => .error (.unknownAct id)
    | some act =>
      match act.update patches with
      | .error e => .error e
      | .ok new => .ok
        { s with acts := s.acts.insert id new, logs := s.logs.insert id (s.logOf id ++ patches) }

def close (s : Store) : Store := { s with isClosed := true }

/-- Takes one command. -/
def run (s : Store) (command : Command) : Store × Answer :=
  if s.isClosed then (s, .refused .closed)
  else match command with
    | .insert act => (s.insert act, .done)
    | .get id => (s, .act (s.get? id))
    | .log id => (s, .log (s.logOf id))
    | .apply id patches =>
      match s.apply id patches with
      | .ok s => (s, .done)
      | .error e => (s, .refused e)

/-- Takes commands in order. -/
def runAll (s : Store) : List Command → Store × List Answer
  | [] => (s, [])
  | c :: rest =>
    let (s, answer) := s.run c
    let (s, answers) := runAll s rest
    (s, answer :: answers)

end Store

end Workflow
