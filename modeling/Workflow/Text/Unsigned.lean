/-
Workflow.Text.Unsigned — decimal text of unsigned 64-bit numbers.
-/
namespace Workflow.Text

/-- The value of a digit string; `none` at a character that is no
digit. -/
def digitsValue (cs : List Char) : Option Nat :=
  cs.foldlM (fun n c => if c.isDigit then some (n * 10 + (c.toNat - '0'.toNat)) else none) 0

/-- Reads decimal digits, with a plus sign allowed in front; at least one
digit, and a value below `2 ^ 64`. -/
def readUnsigned (cs : List Char) : Option Nat := do
  let ds := match cs with
    | '+' :: ds => ds
    | ds => ds
  if ds.isEmpty then none
  else
    let n ← digitsValue ds
    if n < 0x10000000000000000 then some n else none

end Workflow.Text
