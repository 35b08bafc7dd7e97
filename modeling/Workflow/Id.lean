/-
Workflow.Id — identifiers.

An `Id e` names a thing of kind `e`; identifiers of two kinds never mix.
Any text is an identifier. Fresh ones come from an `IdSource`, which
numbers the things of each kind: `IdSource.numbered` counts from 1, and
`Id.minted` spells 128 random bits.
-/
import Workflow.Json.Codec

namespace Workflow

/-- The kinds of things that have identifiers. -/
inductive Entity where
  | workspace
  | node
  | port
  | connection
  | act
  | sequence
  | step
  | generation
deriving DecidableEq, Repr

namespace Entity

/-- Every kind, outermost first. -/
def all : List Entity :=
  [.workspace, .node, .port, .connection, .act, .sequence, .step, .generation]

/-- The word in front of a fresh identifier. -/
def stem : Entity → String
  | .workspace => "wrks"
  | .node => "nd"
  | .port => "prt"
  | .connection => "cnnc"
  | .act => "act"
  | .sequence => "sqn"
  | .step => "stp"
  | .generation => "gnr"

end Entity

/-- An identifier of a thing of one kind. -/
structure Id (e : Entity) where
  text : String
deriving DecidableEq, Repr, Inhabited

abbrev WorkspaceId := Id .workspace
abbrev NodeId := Id .node
abbrev PortId := Id .port
abbrev ConnectionId := Id .connection
abbrev ActId := Id .act
abbrev SequenceId := Id .sequence
abbrev StepId := Id .step
abbrev GenerationId := Id .generation

namespace Id

variable {e : Entity}

instance : ToString (Id e) := ⟨Id.text⟩

instance : Codec (Id e) where
  encode id := .str id.text
  decodeAs
    | _, .str text => some ⟨text⟩
    | _, _ => none

/-- The identifier with a number: the stem, a dash and the decimal
digits. -/
def numbered (e : Entity) (n : Nat) : Id e := ⟨e.stem ++ "-" ++ toString n⟩

/-- The 32 hexadecimal digits of a 128-bit word. -/
def hexWord (bits : BitVec 128) : String :=
  let ds := Nat.toDigits 16 bits.toNat
  String.ofList (List.replicate (32 - ds.length) '0' ++ ds)

/-- The identifier made of random bits. -/
def minted (e : Entity) (bits : BitVec 128) : Id e := ⟨e.stem ++ "-" ++ hexWord bits⟩

/-- Whether an identifier has the form of a minted one. -/
def isMinted (id : Id e) : Bool :=
  let cs := id.text.toList
  let front := e.stem.toList ++ ['-']
  let digits := cs.drop front.length
  cs.take front.length == front && digits.length == 32 &&
    digits.all fun c => c.isDigit || ('a' ≤ c && c ≤ 'f')

end Id

/-- A supply of fresh identifiers: the `n`-th of each kind, from 0. -/
abbrev IdSource := (e : Entity) → Nat → Id e

/-- Fresh identifiers that count from 1. -/
def IdSource.numbered : IdSource := fun e n => Id.numbered e (n + 1)

end Workflow
