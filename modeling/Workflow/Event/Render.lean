/-
Workflow.Event.Render — events and annotations for people.

Each item becomes a few lines with a context label. Lines can be coloured
for a terminal.
-/
import Workflow.Event.Basic

namespace Workflow

/-- When to use colours. -/
inductive ColorMode where
  /-- If the terminal shows them. -/
  | auto
  | colored
  | plain
deriving DecidableEq, Repr, Inhabited

namespace ColorMode

/-- Whether colours are used, on a terminal or not. -/
def isColored (mode : ColorMode) (isTerminal : Bool) : Bool :=
  match mode with
  | .auto => isTerminal
  | .colored => true
  | .plain => false

/-- The mode that fits a terminal, or its absence. -/
def detect (isTerminal : Bool) : ColorMode := if isTerminal then .colored else .plain

end ColorMode

/-- The lines of one item, each with its line end. -/
structure Render where
  context : String
  lines : List String
deriving DecidableEq, Repr, Inhabited

namespace Render

def text (r : Render) : String := "".intercalate r.lines

def contextColor : String := "\x1b[32m"
def lineColor : String := "\x1b[35m"
def errorColor : String := "\x1b[31m"
def resetColor : String := "\x1b[0m"

/-- A text in a colour, if colours are used. -/
def paint (colored : Bool) (color text : String) : String :=
  if colored then color ++ text ++ resetColor else text

/-- An event as one line. -/
def ofEvent (colored : Bool) (e : Event) : Render :=
  ⟨e.scope, [paint colored lineColor e.text ++ "\n"]⟩

/-- An annotation with its position in the list. -/
def ofAnnotation (colored : Bool) (i : Nat) (a : Annotation) : Render :=
  let color := match a.level with
    | .error => errorColor
    | .info | .warn => contextColor
  let level := paint colored color a.level.name
  let message := a.message
  let stepLine := a.step.map fun id => s!"  step: {id}\n"
  let sequenceLine := a.sequence.map fun id => s!"  sequence: {id}\n"
  ⟨a.level.name, s!"[{i}] {level}: {message}\n" :: stepLine.toList ++ sequenceLine.toList⟩

def ofAnnotations (colored : Bool) (annotations : List Annotation) : List Render :=
  annotations.zipIdx.map fun (a, i) => ofAnnotation colored i a

end Render

end Workflow
