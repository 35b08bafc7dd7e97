/-
Workflow.NodeKind — what a node of a workspace does.

A node is an operation, which runs, or a variable, which holds a value.
`NodeKind.text` writes a kind as `operation:` or `variable:` and its name,
and `NodeKind.read` reads that text.
-/
import Workflow.Json.Record

namespace Workflow

/-- The kinds of work. -/
inductive Operation where
  | trigger
  | action
  | query
  | textGeneration
  | imageGeneration
deriving DecidableEq, Repr, Inhabited

namespace Operation

def all : List Operation := [.trigger, .action, .query, .textGeneration, .imageGeneration]

def name : Operation → String
  | .trigger => "trigger"
  | .action => "action"
  | .query => "query"
  | .textGeneration => "textGeneration"
  | .imageGeneration => "imageGeneration"

/-- Whether the work hands out its result piece by piece. -/
def isStreaming : Operation → Bool
  | .textGeneration => true
  | _ => false

def read (text : String) : Option Operation := all.find? (·.name == text)

instance : Codec Operation := .ofNames name all

end Operation

/-- The kinds of values that a node can hold. -/
inductive Variable where
  | text
  | file
  | webPage
  | vectorStore
  | github
deriving DecidableEq, Repr, Inhabited

namespace Variable

def all : List Variable := [.text, .file, .webPage, .vectorStore, .github]

def name : Variable → String
  | .text => "text"
  | .file => "file"
  | .webPage => "webPage"
  | .vectorStore => "vectorStore"
  | .github => "github"

def read (text : String) : Option Variable := all.find? (·.name == text)

instance : Codec Variable := .ofNames name all

end Variable

/-- What a node does. -/
inductive NodeKind where
  | operation (kind : Operation)
  | variable (kind : Variable)
deriving DecidableEq, Repr, Inhabited

namespace NodeKind

def isOperation : NodeKind → Bool
  | .operation _ => true
  | .variable _ => false

def operation? : NodeKind → Option Operation
  | .operation op => some op
  | .variable _ => none

/-- The kind as one word pair. -/
def text : NodeKind → String
  | .operation op => "operation:" ++ op.name
  | .variable v => "variable:" ++ v.name

/-- The kind that a word pair names: the text before the first colon tells
operations from variables. -/
def read (text : String) : Option NodeKind :=
  let cs := text.toList
  let family := String.ofList (cs.takeWhile (· ≠ ':'))
  match cs.dropWhile (· ≠ ':') with
  | [] => none
  | _ :: name =>
    if family = "operation" then (Operation.read (String.ofList name)).map .operation
    else if family = "variable" then (Variable.read (String.ofList name)).map .variable
    else none

instance : Codec NodeKind where
  encode
    | .operation op => Json.object [("type", .str "operation"), ("content", encode op)]
    | .variable v => Json.object [("type", .str "variable"), ("content", encode v)]
  decodeAs := readBeside "type" "content" fun family reading doc =>
    if family = "operation" then (decodeAs reading doc).map .operation
    else if family = "variable" then (decodeAs reading doc).map .variable
    else none

end NodeKind

end Workflow
