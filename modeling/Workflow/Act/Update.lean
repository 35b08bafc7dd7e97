/-
Workflow.Act.Update — changing an act by patches.

A batch of patches is applied to the JSON form of an act. It is accepted
as a whole, and only if the result is the form of an act again.
-/
import Workflow.Act.Basic
import Workflow.Act.Field
import Workflow.Patch

namespace Workflow

namespace Act

/-- The act after a batch of patches. -/
def update (patches : List Patch) (a : Act) : Except PatchError Act := do
  let doc ← Patch.applyAll patches (encode a)
  match (decode doc : Option Act) with
  | some new => .ok new
  | none => .error .undecodable

end Act

namespace Field

/-- Sets the place to a value. -/
def set {α : Type} [Codec α] (f : Field) (value : α) : Patch := ⟨f.path, .set (encode value)⟩

/-- A count as an increment; larger counts stop at the bound. -/
def amount (n : Nat) : Int64 := Int64.ofInt (Patch.saturate n)

/-- Adds to a counter. -/
def increment (f : Field) (n : Nat) : Patch := ⟨f.path, .increment (amount n)⟩

/-- Takes from a counter. -/
def decrement (f : Field) (n : Nat) : Patch := ⟨f.path, .decrement (amount n)⟩

/-- Adds values at the end of a list. -/
def push {α : Type} [Codec α] (f : Field) (values : List α) : Patch :=
  ⟨f.path, .push (values.map encode)⟩

end Field

end Workflow
