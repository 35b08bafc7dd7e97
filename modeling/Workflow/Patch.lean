/-
Workflow.Patch — small changes to JSON documents.

A `Patch` names a place by a path and says what happens there. A path is a
list of segments joined by dots: a segment is a key of an object, or the
position of an item that an array has. The empty path is the whole
document.

* On the way missing keys are created, and a `null` becomes an object.
* `increment` and `decrement` count in 64-bit integers, from 0 where there
  is nothing yet; they stop at the bounds and never go below 0.
* A refused patch leaves behind the keys that it created.
-/
import Workflow.Id
import Workflow.Json.Record
import Workflow.Failure
import Workflow.Text.Dotted
import Workflow.Text.Unsigned

namespace Workflow

/-- What a patch does at its place. -/
inductive PatchOp where
  | set (value : Json)
  | increment (amount : Int64)
  | decrement (amount : Int64)
  | push (values : List Json)
deriving DecidableEq, Repr

/-- One edit of a document: what is done, at the place where a path of keys and
positions leads. -/
structure Patch where
  path : String
  op : PatchOp
deriving DecidableEq, Repr

/-- Why patches are refused. -/
inductive PatchError where
  | unknownAct (act : ActId)
  | invalidPath (path : String)
  | typeMismatch (path expected found : String)
  | negativeCounter (path : String)
  | closed
  | undecodable
deriving DecidableEq, Repr

namespace PatchError

/-- The wording of a refusal. What is wrong with an undecodable result has
no fixed wording. -/
def report : PatchError → Report
  | .unknownAct act => .plain "patch::unknown_act" s!"act not found: {act}"
  | .invalidPath path =>
    .withAdvice "patch::invalid_path" s!"invalid patch path: {path}"
      "Paths are dot separated; numeric segments must index an existing array element."
  | .typeMismatch path expected found =>
    .plain "patch::type_mismatch" s!"patch at '{path}' expected {expected}, found {found}"
  | .negativeCounter path =>
    .plain "patch::negative_counter" s!"counter at '{path}' would become negative"
  | .closed =>
    .withAdvice "patch::closed" "patch store is closed"
      "The store's writer task has shut down; no further patches can be applied."
  | .undecodable => ⟨none, "actgraph::patch::serde", none⟩

end PatchError

/-- What a patch does stands among its fields, and is held until the path
has been read. -/
instance : Codec Patch where
  encode p :=
    let (name, value) := match p.op with
      | .set value => ("set", value)
      | .increment n => ("increment", encode n)
      | .decrement n => ("decrement", encode n)
      | .push values => ("push", .arr values)
    Json.record [present "path" p.path, present "op" name, present "value" value]
  decodeAs reading doc := do
    let op ← readOp .held doc
    readObject (do return { path := ← field "path", op }) reading doc
where
  readOp : Reading → Json → Option PatchOp :=
    readBeside "op" "value" fun name reading doc =>
      match name with
      | "set" => (decodeAs reading doc).map .set
      | "increment" => (decodeAs reading doc).map .increment
      | "decrement" => (decodeAs reading doc).map .decrement
      | "push" => (decodeAs reading doc).map .push
      | _ => none

namespace Patch

/-! ## Places -/

/-- The segments of a path. -/
def segments (path : String) : List String :=
  if path = "" then [] else Text.splitDots path

/-- Why an edit at a place is refused. -/
inductive Fault where
  | noPlace
  | mismatch (expected found : String)
  | negative
deriving DecidableEq, Repr

/-- Edits the place that the segments lead to: the document afterwards,
and the fault if there is one. -/
def editAt (edit : Json → Except Fault Json) : List String → Json → Json × Option Fault
  | [], doc =>
    match edit doc with
    | .ok new => (new, none)
    | .error fault => (doc, some fault)
  | segment :: rest, doc =>
    match doc with
    | .null =>
      let (new, fault) := editAt edit rest .null
      (.obj [(segment, new)], fault)
    | .obj fields =>
      let (new, fault) := editAt edit rest ((Fields.get? segment fields).getD .null)
      (.obj (Fields.insert segment new fields), fault)
    | .arr items =>
      match Text.readUnsigned segment.toList with
      | none => (doc, some .noPlace)
      | some i =>
        match items[i]? with
        | none => (doc, some .noPlace)
        | some item =>
          let (new, fault) := editAt edit rest item
          (.arr (items.set i new), fault)
    | doc => (doc, some .noPlace)

/-! ## Operations -/

/-- The nearest signed 64-bit integer. -/
def saturate (n : Int) : Int := max (-0x8000000000000000) (min n 0x7FFFFFFFFFFFFFFF)

/-- The number that a place counts. -/
def counter : Json → Except Fault Int
  | .null => .ok 0
  | .int n =>
    if -0x8000000000000000 ≤ n ∧ n < 0x8000000000000000 then .ok n
    else .error (.mismatch "integer" "number")
  | doc => .error (.mismatch "integer" doc.typeName)

/-- Adds to a counter. -/
def add (amount : Int) (doc : Json) : Except Fault Json := do
  let n := saturate ((← counter doc) + amount)
  if n < 0 then throw .negative
  return .int n

/-- Appends to an array; where there is nothing yet, the values become
one. -/
def append (values : List Json) : Json → Except Fault Json
  | .null => .ok (.arr values)
  | .arr items => .ok (.arr (items ++ values))
  | doc => .error (.mismatch "array" doc.typeName)

/-- The change that an operation makes at its place. -/
def edit : PatchOp → Json → Except Fault Json
  | .set value, _ => .ok value
  | .increment n, doc => add n.toInt doc
  | .decrement n, doc => add (saturate (-n.toInt)) doc
  | .push values, doc => append values doc

/-- The fault with the path that it concerns. -/
def faultAt (path : String) : Fault → PatchError
  | .noPlace => .invalidPath path
  | .mismatch expected found => .typeMismatch path expected found
  | .negative => .negativeCounter path

/-- The document after a patch, and the error if it was refused. -/
def run (p : Patch) (doc : Json) : Json × Option PatchError :=
  let (new, fault) := editAt (edit p.op) (segments p.path) doc
  (new, fault.map (faultAt p.path))

/-- The document after an accepted patch. -/
def apply (p : Patch) (doc : Json) : Except PatchError Json :=
  match p.run doc with
  | (new, none) => .ok new
  | (_, some error) => .error error

/-- The document after all patches, if every one is accepted. -/
def applyAll (patches : List Patch) (doc : Json) : Except PatchError Json :=
  patches.foldlM (fun doc p => p.apply doc) doc

end Patch

end Workflow
