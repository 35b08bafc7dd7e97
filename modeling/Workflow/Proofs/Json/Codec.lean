/-
Workflow.Proofs.Json.Codec — values that survive the way through JSON.

* `LawfulCodec` — decoding undoes encoding, on the spot and for held parts.
* `readRecord_named` — a record is read from an object one field after the
  other, by one of `bind_field`, `bind_fieldOr` and `bind_optionalField`
  each.
-/
import Workflow.Act.Basic
import Workflow.Proofs.Timestamp

namespace Workflow

/-- Values that their JSON forms give back. -/
class LawfulCodec (α : Type) [Codec α] : Prop where
  decodeAs_encode : ∀ (reading : Reading) (a : α), decodeAs reading (encode a) = some a
  /-- A field that is set does not look like one that is not. -/
  encode_ne_null : ∀ a : α, encode a ≠ .null

export LawfulCodec (decodeAs_encode encode_ne_null)

section

variable {α : Type} [Codec α] [LawfulCodec α]

theorem decode_encode (a : α) : decode (encode a) = some a := decodeAs_encode .direct a

/-- Lists are read back item by item. -/
theorem decodeList_map_encode (reading : Reading) (values : List α) :
    decodeList reading (values.map encode) = some values := by
  induction values with
  | nil => rfl
  | cons a rest ih =>
    rw [decodeList] at ih ⊢
    rw [List.map_cons, List.mapM_cons, decodeAs_encode, ih]
    rfl

instance : LawfulCodec (List α) where
  decodeAs_encode := decodeList_map_encode
  encode_ne_null _ h := by cases h

end

instance : LawfulCodec String := ⟨fun _ _ => rfl, fun _ h => by cases h⟩

instance : LawfulCodec UInt64 where
  decodeAs_encode reading n := by
    have hlt := n.toNat_lt
    show (if 0 ≤ (n.toNat : Int) ∧ (n.toNat : Int) < 0x10000000000000000 then
      some (UInt64.ofNat (n.toNat : Int).toNat) else none) = some n
    rw [if_pos (by omega)]
    simp
  encode_ne_null _ h := by cases h

instance {e : Entity} : LawfulCodec (Id e) := ⟨fun _ _ => rfl, fun _ h => by cases h⟩

instance : LawfulCodec Timestamp := ⟨fun _ t => t.read_text, fun _ h => by cases h⟩

instance : LawfulCodec Operation := ⟨fun _ o => by cases o <;> rfl, fun _ h => by cases h⟩

instance : LawfulCodec Status := ⟨fun _ s => by cases s <;> rfl, fun _ h => by cases h⟩

instance : LawfulCodec Level := ⟨fun _ l => by cases l <;> rfl, fun _ h => by cases h⟩

/-! ## Forms of records -/

namespace Fields

/-- A field that is written is found, and the others as before. -/
theorem get?_insert {α : Type} (fields : List (String × α)) (key l : String) (value : α) :
    get? l (insert key value fields) =
      if key = l then some value else get? l fields := by
  induction fields with
  | nil => rfl
  | cons entry rest ih =>
    obtain ⟨k, v⟩ := entry
    unfold insert
    by_cases hlt : key < k
    · simp only [hlt, if_true, get?]
    · by_cases heq : key = k
      · subst heq
        simp only [hlt, if_false, if_true, get?]
        split <;> rfl
      · simp only [hlt, heq, if_false, get?, ih]
        split
        · rename_i hk
          simp [← hk, heq]
        · rfl

/-- Of several fields of one name the last one counts. -/
theorem get?_foldl {α : Type} (key : String) (pairs fields : List (String × α)) :
    get? key (pairs.foldl (fun fields pair => insert pair.1 pair.2 fields) fields) =
      (pairs.reverse.lookup key).or (get? key fields) := by
  induction pairs generalizing fields with
  | nil => rfl
  | cons pair rest ih =>
    obtain ⟨k, v⟩ := pair
    rw [List.foldl_cons, ih, get?_insert, List.reverse_cons, List.lookup_append]
    cases rest.reverse.lookup key with
    | some w => rfl
    | none =>
      by_cases h : k = key
      · simp [h]
      · simp [h, List.lookup_cons, beq_eq_false_iff_ne.mpr (Ne.symm h)]

/-- A field that is left out is one without a value. -/
theorem lookup_filterMap {α : Type} {key : String} {pairs : List (String × Option α)}
    (h : (pairs.map (·.1)).Nodup) :
    (pairs.filterMap fun pair => pair.2.map (pair.1, ·)).lookup key = (pairs.lookup key).join := by
  induction pairs with
  | nil => rfl
  | cons pair rest ih =>
    obtain ⟨k, v⟩ := pair
    obtain ⟨hk, hrest⟩ := List.nodup_cons.mp h
    by_cases hkey : key = k
    · subst hkey
      cases v with
      | some a => simp
      | none =>
        -- no later field has this name
        have hnone : rest.lookup key = none := by
          refine List.lookup_eq_none_iff.mpr fun later hlater => bne_iff_ne.mpr ?_
          rintro rfl
          exact hk (List.mem_map.mpr ⟨later, hlater, rfl⟩)
        simp [ih hrest, hnone]
    · have hne := beq_eq_false_iff_ne.mpr hkey
      cases v <;> simp [List.lookup_cons, hne, ih hrest]

/-- A field of a record, if it is set. -/
theorem get?_record {key : String} {pairs : List (String × Option Json)} {value : Option Json}
    (h : (pairs.map (·.1)).Nodup) (hvalue : (pairs.reverse.lookup key).join = value) :
    get? key (ofList (pairs.filterMap fun pair => pair.2.map (pair.1, ·))) = value := by
  have hreverse : (pairs.reverse.map (·.1)).Nodup := by
    rw [List.map_reverse]
    exact List.pairwise_reverse.mpr (h.imp Ne.symm)
  rw [← hvalue, ← lookup_filterMap hreverse, List.filterMap_reverse]
  exact (get?_foldl key _ []).trans Option.or_none

end Fields

/-! ## Records -/

section

variable {α β : Type} {reading : Reading} {fields : List (String × Json)} {key : String}

/-- A record is read once its fields are. -/
theorem readRecord_named {reader : FieldReader α} {a : α}
    (h : reader reading (.named fields) = some (a, .named fields)) :
    readRecord reader reading (.obj fields) = some a := by
  show ((reader reading (.named fields)).bind fun x =>
    if x.2.isSpent then some x.1 else none) = some a
  rw [h]
  rfl

theorem readObject_named {reader : FieldReader α} {a : α}
    (h : reader reading (.named fields) = some (a, .named fields)) :
    readObject reader reading (.obj fields) = some a := readRecord_named h

/-- What comes after a field that has been read from an object. -/
theorem bind_named {x : FieldReader α} {f : α → FieldReader β} {a : α}
    (h : x reading (.named fields) = some (a, .named fields)) :
    (x >>= f) reading (.named fields) = f a reading (.named fields) := by
  show ((x reading (.named fields)).bind fun y => f y.1 reading y.2) = _
  rw [h]
  rfl

/-- In an object a field is found by its name. -/
theorem next_named : FieldReader.next key reading (.named fields) =
    some (Fields.get? key fields, .named fields) := rfl

variable [Codec α]

theorem value_of_decodeAs {doc : Json} {a : α} (h : decodeAs reading doc = some a)
    (source : FieldSource) :
    FieldReader.value doc reading source = some (a, source) := by
  show ((decodeAs reading doc).bind fun a => some (a, source)) = _
  rw [h]
  rfl

/-- What comes after a field whose form can be read, of whatever type. -/
theorem bind_field_of {f : α → FieldReader β} {doc : Json} {a : α}
    (h : Fields.get? key fields = some doc) (hdoc : decodeAs reading doc = some a) :
    (field key >>= f) reading (.named fields) = f a reading (.named fields) := by
  refine bind_named ?_
  rw [field, bind_named next_named, h]
  exact value_of_decodeAs hdoc _

variable [LawfulCodec α]

theorem value_encode (a : α) (source : FieldSource) :
    FieldReader.value (encode a) reading source = some (a, source) :=
  value_of_decodeAs (decodeAs_encode reading a) source

/-- A reader goes on past a field that was written, whichever kind of field it
is. -/
theorem bind_field {f : α → FieldReader β} {a : α}
    (h : Fields.get? key fields = some (encode a)) :
    (field key >>= f) reading (.named fields) = f a reading (.named fields) :=
  bind_field_of h (decodeAs_encode reading a)

theorem bind_fieldOr {f : α → FieldReader β} {a default : α}
    (h : Fields.get? key fields = some (encode a)) :
    (fieldOr key default >>= f) reading (.named fields) = f a reading (.named fields) := by
  refine bind_named ?_
  rw [fieldOr, bind_named next_named, h]
  exact value_encode a _

/-- An optional field is written if there is something to write. -/
theorem bind_optionalField {f : Option α → FieldReader β} {a : Option α}
    (h : Fields.get? key fields = a.map encode) :
    (optionalField key >>= f) reading (.named fields) = f a reading (.named fields) := by
  refine bind_named ?_
  rw [optionalField, bind_named next_named, h]
  cases a with
  | none => rfl
  | some a =>
    have hnull := encode_ne_null a
    simp only [Option.map_some]
    show ((FieldReader.value (encode a) : FieldReader α) reading (.named fields)).bind
      (fun p => some (some p.1, p.2)) = _
    rw [value_encode]
    rfl

end

/-! ## Unions -/

section

variable {α : Type} {reading : Reading} {fields : List (String × Json)}

/-- A union whose tag is one of its fields is read as its tag says. -/
theorem readTagged_named (tag : String) {key : String} {tags : List String}
    {variant : String → FieldReader α} {a : α} (htag : Fields.get? key fields = some (.str tag))
    (h : variant tag .held (.named fields) = some (a, .named fields)) :
    readTagged key tags variant reading (.obj fields) = some a := by
  simp only [readTagged, htag, Option.bind_eq_bind, Option.bind_some]
  cases reading <;> exact readRecord_named h

/-- A union whose tag stands beside its value is read as its tag says. -/
theorem readBeside_named (tag : String) (doc : Json) {tagKey valueKey : String}
    {variant : String → Reading → Json → Option α}
    (htag : Fields.get? tagKey fields = some (.str tag))
    (hvalue : Fields.get? valueKey fields = some doc) :
    readBeside tagKey valueKey variant reading (.obj fields) =
      variant tag (if valueKey < tagKey then .held else reading) doc := by
  simp only [readBeside, htag, hvalue, Option.bind_eq_bind, Option.bind_some]
  rfl

end

end Workflow
