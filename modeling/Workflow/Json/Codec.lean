/-
Workflow.Json.Codec — JSON forms of values.

A type with a `Codec` has a JSON form. `encode` is total and writes the
form of choice; `decode` gives `none` for a document that is no form of a
value.

A part of a document may stand in front of the tag that tells its type.
Such a part is put aside until the tag is known, and is then read as a
part that was `held`. Held parts are read a little more freely than parts
read on the spot: `Reading` says which it is.
-/
import Workflow.Json.Basic

namespace Workflow

/-- How a document is read. -/
inductive Reading where
  /-- On the spot. -/
  | direct
  /-- After it was put aside. -/
  | held
deriving DecidableEq, Repr

/-- Values with a JSON form. -/
class Codec (α : Type) where
  encode : α → Json
  decodeAs : Reading → Json → Option α

export Codec (encode decodeAs)

/-- The value that a document is a form of. -/
def decode {α : Type} [Codec α] (doc : Json) : Option α := decodeAs .direct doc

instance : Codec Json where
  encode doc := doc
  decodeAs _ doc := some doc

instance : Codec String where
  encode := .str
  decodeAs
    | _, .str text => some text
    | _, _ => none

instance : Codec UInt64 where
  encode n := .int n.toNat
  decodeAs
    | _, .int n => if 0 ≤ n ∧ n < 0x10000000000000000 then some (UInt64.ofNat n.toNat) else none
    | _, _ => none

instance : Codec Int64 where
  encode n := .int n.toInt
  decodeAs
    | _, .int n =>
      if -0x8000000000000000 ≤ n ∧ n < 0x8000000000000000 then some (Int64.ofInt n) else none
    | _, _ => none

/-- The values of a list of forms; `none` if one is not a form. -/
def decodeList {α : Type} [Codec α] (reading : Reading) (items : List Json) : Option (List α) :=
  items.mapM (decodeAs reading)

instance {α : Type} [Codec α] : Codec (List α) where
  encode values := .arr (values.map encode)
  decodeAs
    | reading, .arr items => decodeList reading items
    | _, _ => none

/-! ## Names -/

/-- The name that a document spells: as a text, or at length as an object
whose only key is the name and whose value is `null`. In a part that was
held the value may be an empty object, too. -/
def readName (reading : Reading) : Json → Option String
  | .str name => some name
  | .obj [(name, .null)] => some name
  | .obj [(name, .obj [])] => if reading = .held then some name else none
  | _ => none

/-- The codec of an enumeration whose values have names of their own. -/
abbrev Codec.ofNames {α : Type} (name : α → String) (values : List α) : Codec α where
  encode a := .str (name a)
  decodeAs reading doc := do
    let spelled ← readName reading doc
    values.find? (name · == spelled)

end Workflow
