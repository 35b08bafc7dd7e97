/-
Workflow.Failure — what an error tells its reader.

Every kind of error of this library is an inductive type of causes; its
`report` gives the wording. A code names the cause for programs, and the
advice, where there is one, says what to do about it.
-/
namespace Workflow

/-- The wording of an error. An error whose wording is not fixed has no
message. -/
structure Report where
  message : Option String
  code : String
  advice : Option String
deriving DecidableEq, Repr

namespace Report

def plain (code message : String) : Report := ⟨some message, "actgraph::" ++ code, none⟩

def withAdvice (code message advice : String) : Report :=
  ⟨some message, "actgraph::" ++ code, some advice⟩

/-- The message, or nothing where none is fixed. -/
def text (r : Report) : String := r.message.getD ""

end Report

end Workflow
