/-
Workflow.Json.Basic — JSON values.

* `Json` is a document. Its numbers are integers or binary64 numbers, and
  the two never mix: `1` and `1.0` are different values.
* An object is a list of fields that `Fields.insert` keeps sorted by key,
  so that documents with the same fields are the same document.
* `Json.sameValue` compares documents by value, where the two signs of
  zero agree; `=` compares them by form.
-/
import Workflow.Json.Double

namespace Workflow

/-- A JSON document. -/
inductive Json where
  | null
  | bool (value : Bool)
  | int (value : Int)
  | float (value : Double)
  | str (text : String)
  | arr (items : List Json)
  | obj (fields : List (String × Json))
deriving Repr, Inhabited

/-! ## Fields -/

namespace Fields

variable {α : Type}

/-- The value of the first field named `key`. -/
def get? (key : String) : List (String × α) → Option α
  | [] => none
  | (k, v) :: rest => if k = key then some v else get? key rest

/-- Sets a field, in front of the first greater key. -/
def insert (key : String) (value : α) : List (String × α) → List (String × α)
  | [] => [(key, value)]
  | (k, v) :: rest =>
    if key < k then (key, value) :: (k, v) :: rest
    else if key = k then (key, value) :: rest
    else (k, v) :: insert key value rest

/-- The fields of a list of pairs; of a repeated key the last one counts. -/
def ofList (pairs : List (String × α)) : List (String × α) :=
  pairs.foldl (fun fields (k, v) => insert k v fields) []

end Fields

namespace Json

/-! ## Equality -/

mutual

private def decEqValue : (a b : Json) → Decidable (a = b)
  | .null, .null => isTrue rfl
  | .bool a, .bool b => decidable_of_iff (a = b) (by simp)
  | .int a, .int b => decidable_of_iff (a = b) (by simp)
  | .float a, .float b => decidable_of_iff (a = b) (by simp)
  | .str a, .str b => decidable_of_iff (a = b) (by simp)
  | .arr a, .arr b =>
    match decEqItems a b with
    | isTrue h => isTrue (by rw [h])
    | isFalse h => isFalse (by simpa using h)
  | .obj a, .obj b =>
    match decEqFields a b with
    | isTrue h => isTrue (by rw [h])
    | isFalse h => isFalse (by simpa using h)
  | .null, .bool _ | .null, .int _ | .null, .float _ | .null, .str _ | .null, .arr _
  | .null, .obj _ | .bool _, .null | .bool _, .int _ | .bool _, .float _ | .bool _, .str _
  | .bool _, .arr _ | .bool _, .obj _ | .int _, .null | .int _, .bool _ | .int _, .float _
  | .int _, .str _ | .int _, .arr _ | .int _, .obj _ | .float _, .null | .float _, .bool _
  | .float _, .int _ | .float _, .str _ | .float _, .arr _ | .float _, .obj _ | .str _, .null
  | .str _, .bool _ | .str _, .int _ | .str _, .float _ | .str _, .arr _ | .str _, .obj _
  | .arr _, .null | .arr _, .bool _ | .arr _, .int _ | .arr _, .float _ | .arr _, .str _
  | .arr _, .obj _ | .obj _, .null | .obj _, .bool _ | .obj _, .int _ | .obj _, .float _
  | .obj _, .str _ | .obj _, .arr _ => isFalse (by simp)

private def decEqItems : (a b : List Json) → Decidable (a = b)
  | [], [] => isTrue rfl
  | [], _ :: _ => isFalse (by simp)
  | _ :: _, [] => isFalse (by simp)
  | x :: xs, y :: ys =>
    match decEqValue x y, decEqItems xs ys with
    | isTrue h, isTrue g => isTrue (by rw [h, g])
    | isFalse h, _ => isFalse (by simp [h])
    | _, isFalse g => isFalse (by simp [g])

private def decEqFields : (a b : List (String × Json)) → Decidable (a = b)
  | [], [] => isTrue rfl
  | [], _ :: _ => isFalse (by simp)
  | _ :: _, [] => isFalse (by simp)
  | (k, x) :: xs, (l, y) :: ys =>
    match decEq k l, decEqValue x y, decEqFields xs ys with
    | isTrue e, isTrue h, isTrue g => isTrue (by rw [e, h, g])
    | isFalse e, _, _ => isFalse (by simp [e])
    | _, isFalse h, _ => isFalse (by simp [h])
    | _, _, isFalse g => isFalse (by simp [g])

end

instance : DecidableEq Json := decEqValue

mutual

/-- Whether two documents have the same value: they have the same form,
except that zeros may differ in sign. -/
def sameValue : Json → Json → Bool
  | .null, .null => true
  | .bool a, .bool b => a == b
  | .int a, .int b => a == b
  | .float a, .float b => a.sameValue b
  | .str a, .str b => a == b
  | .arr a, .arr b => sameItems a b
  | .obj a, .obj b => sameFields a b
  | _, _ => false

/-- Item by item, the same values. -/
def sameItems : List Json → List Json → Bool
  | [], [] => true
  | x :: xs, y :: ys => sameValue x y && sameItems xs ys
  | _, _ => false

/-- Field by field, the same keys and the same values. -/
def sameFields : List (String × Json) → List (String × Json) → Bool
  | [], [] => true
  | (k, x) :: xs, (l, y) :: ys => k == l && sameValue x y && sameFields xs ys
  | _, _ => false

end

/-! ## Objects -/

/-- An object with the given fields. -/
def object (pairs : List (String × Json)) : Json := .obj (Fields.ofList pairs)

/-- An object with the given fields, less those without a value. -/
def record (pairs : List (String × Option Json)) : Json :=
  object (pairs.filterMap fun (k, v) => v.map (k, ·))

/-- A field of an object; no other document has fields. -/
def get? (doc : Json) (key : String) : Option Json :=
  match doc with
  | .obj fields => Fields.get? key fields
  | _ => none

/-- Replaces a field of an object. -/
def set (doc : Json) (key : String) (value : Json) : Json :=
  match doc with
  | .obj fields => .obj (Fields.insert key value fields)
  | _ => doc

/-- An object without one of its fields. -/
def erase (doc : Json) (key : String) : Json :=
  match doc with
  | .obj fields => .obj (fields.filter (·.1 ≠ key))
  | _ => doc

/-- The word for the type of a document. -/
def typeName : Json → String
  | .null => "null"
  | .bool _ => "boolean"
  | .int _ | .float _ => "number"
  | .str _ => "string"
  | .arr _ => "array"
  | .obj _ => "object"

end Json

end Workflow
