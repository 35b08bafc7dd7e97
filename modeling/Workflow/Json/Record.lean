/-
Workflow.Json.Record — JSON forms of records and of unions.

A record is written as an object. It is read from an object, whose unknown
keys are ignored, or from the array of its fields in their order. A field
is read in one of three ways:

* `field` must be there;
* `fieldOr` may be missing and then has a default;
* `optionalField` may be missing or `null` and is then unset.

In an array, fields can only be missing at the end, and nothing may follow
the last one.

A union has a tag that says which record, or which value, goes with it.
The tag is one of the fields (`readTagged`), or stands beside the value
(`readBeside`). The keys of an object come in their order, so that a value
is held if its key comes before that of the tag.
-/
import Workflow.Json.Codec

namespace Workflow

/-! ## Writing -/

/-- A field as it is written: always. -/
def present {α : Type} [Codec α] (key : String) (value : α) : String × Option Json :=
  (key, some (encode value))

/-- A field as it is written: only if set. -/
def ifSet {α : Type} [Codec α] (key : String) (value : Option α) : String × Option Json :=
  (key, value.map encode)

/-! ## Reading records -/

/-- Where the fields of a record are read from. -/
inductive FieldSource where
  /-- An object. -/
  | named (fields : List (String × Json))
  /-- What is left of an array. -/
  | listed (values : List Json)
deriving Repr

/-- Reads the fields of a record, one after the other. -/
abbrev FieldReader := ReaderT Reading (StateT FieldSource Option)

namespace FieldSource

/-- The fields of a document, if it can be a record. -/
def ofJson? : Json → Option FieldSource
  | .obj fields => some (.named fields)
  | .arr values => some (.listed values)
  | _ => none

/-- The next field if it is there, and what is left. -/
def next (key : String) : FieldSource → Option Json × FieldSource
  | .named fields => (Fields.get? key fields, .named fields)
  | .listed [] => (none, .listed [])
  | .listed (value :: rest) => (some value, .listed rest)

/-- Whether every field of an array has been read. -/
def isSpent : FieldSource → Bool
  | .named _ => true
  | .listed values => values.isEmpty

/-- The record that a reader makes of all fields. -/
def read {α : Type} (source : FieldSource) (reading : Reading) (reader : FieldReader α) :
    Option α := do
  let (value, rest) ← (reader reading).run source
  if rest.isSpent then some value else none

end FieldSource

namespace FieldReader

/-- The next field, if it is there. -/
def next (key : String) : FieldReader (Option Json) := do
  modifyGet (FieldSource.next key)

/-- The value of a document. -/
def value {α : Type} [Codec α] (doc : Json) : FieldReader α := do
  (decodeAs (← read) doc : Option α)

end FieldReader

section

variable {α : Type} [Codec α]

/-- A field that must be there. -/
def field (key : String) : FieldReader α := do
  match ← FieldReader.next key with
  | none => failure
  | some doc => FieldReader.value doc

/-- A field with a default. -/
def fieldOr (key : String) (default : α) : FieldReader α := do
  match ← FieldReader.next key with
  | none => return default
  | some doc => FieldReader.value doc

/-- A field that may be missing or `null`. -/
def optionalField (key : String) : FieldReader (Option α) := do
  match ← FieldReader.next key with
  | none | some .null => return none
  | some doc => some <$> FieldReader.value doc

end

/-- A record of an object or of an array. -/
def readRecord {α : Type} (reader : FieldReader α) (reading : Reading) (doc : Json) : Option α := do
  (← FieldSource.ofJson? doc).read reading reader

/-- A record of an object. -/
def readObject {α : Type} (reader : FieldReader α) (reading : Reading) : Json → Option α
  | .obj fields => (FieldSource.named fields).read reading reader
  | _ => none

/-! ## Reading unions -/

/-- The tag that a document spells. A held tag may be the number of its
place in the list of tags. -/
def readTag (tags : List String) : Reading → Json → Option String
  | _, .str tag => some tag
  | .held, .int n => if 0 ≤ n then tags[n.toNat]? else none
  | _, _ => none

/-- A union whose tag is one of the fields, the first one in an array. The
other fields are held. -/
def readTagged {α : Type} (key : String) (tags : List String) (variant : String → FieldReader α)
    (reading : Reading) (doc : Json) : Option α :=
  match doc with
  | .obj fields => do
    let tag ← readTag tags reading (← Fields.get? key fields)
    (FieldSource.named fields).read .held (variant tag)
  | .arr (first :: rest) => do
    let tag ← readTag tags reading first
    (FieldSource.listed rest).read .held (variant tag)
  | _ => none

/-- A union whose tag stands beside its value, or in front of it in an
array of both. Only in an object may the tag be spelled at length. -/
def readBeside {α : Type} (tagKey valueKey : String) (variant : String → Reading → Json → Option α)
    (reading : Reading) (doc : Json) : Option α :=
  match doc with
  | .obj fields => do
    let tag ← readName reading (← Fields.get? tagKey fields)
    variant tag (if valueKey < tagKey then .held else reading) (← Fields.get? valueKey fields)
  | .arr [.str tag, value] => variant tag reading value
  | _ => none

end Workflow
