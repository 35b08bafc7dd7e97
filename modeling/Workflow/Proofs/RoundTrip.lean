/-
Workflow.Proofs.RoundTrip — what is written as JSON is read back as it was.

Every record and every union of the domain has a `LawfulCodec`: its form
gives the value back, read on the spot or after it was held. A record is
read field by field, in the order of its reader; a value that is a case of
its own (a field that is unset, an operation of a patch, a kind of event)
has a form of its own, so the proofs split on it first.

`domain_round_trip` collects the objects that leave the program, and says
that a batch without patches changes nothing.
-/
import Workflow.Plan.Slice
import Workflow.Generation.Basic
import Workflow.Event.Basic
import Workflow.Proofs.Act.Field

namespace Workflow

/-! ## Names -/

instance : LawfulCodec Variable := ⟨fun _ v => by cases v <;> rfl, fun _ h => by cases h⟩

instance : LawfulCodec GenerationStatus := ⟨fun _ s => by cases s <;> rfl, fun _ h => by cases h⟩

instance : LawfulCodec ActEventKind := ⟨fun _ k => by cases k <;> rfl, fun _ h => by cases h⟩

instance : LawfulCodec SequenceEventKind := ⟨fun _ k => by cases k <;> rfl, fun _ h => by cases h⟩

instance : LawfulCodec Int64 where
  decodeAs_encode reading n := by
    have hlow := n.le_toInt
    have hhigh := n.toInt_lt
    show (if -0x8000000000000000 ≤ n.toInt ∧ n.toInt < 0x8000000000000000 then
      some (Int64.ofInt n.toInt) else none) = some n
    rw [if_pos (by omega), Int64.ofInt_toInt]
  encode_ne_null _ h := by cases h

/-! ## Graphs -/

/-- The content of a kind stands before its type, and is held. -/
instance : LawfulCodec NodeKind where
  decodeAs_encode reading kind := by
    cases kind with
    | operation op =>
      refine (readBeside_named "operation" (encode op) rfl rfl).trans ?_
      simp [decodeAs_encode]
    | «variable» v =>
      refine (readBeside_named "variable" (encode v) rfl rfl).trans ?_
      simp [decodeAs_encode]
  encode_ne_null kind h := by cases kind <;> cases h

instance : LawfulCodec Port where
  decodeAs_encode _ _ := readRecord_named <| (bind_field rfl).trans <| bind_field rfl
  encode_ne_null _ h := by cases h

instance : LawfulCodec Node where
  decodeAs_encode _ _ := readRecord_named <|
    (bind_field rfl).trans <| (bind_field rfl).trans <| (bind_field rfl).trans <|
    (bind_fieldOr rfl).trans <| bind_fieldOr rfl
  encode_ne_null _ h := by cases h

instance : LawfulCodec Connection where
  decodeAs_encode _ _ := readRecord_named <|
    (bind_field rfl).trans <| (bind_field rfl).trans <| (bind_field rfl).trans <|
    (bind_field rfl).trans <| bind_field rfl
  encode_ne_null _ h := by cases h

instance : LawfulCodec Workspace where
  decodeAs_encode _ _ := readRecord_named <|
    (bind_field rfl).trans <| (bind_fieldOr rfl).trans <| bind_fieldOr rfl
  encode_ne_null _ h := by cases h

instance : LawfulCodec Slice where
  decodeAs_encode _ _ := readRecord_named <| (bind_field rfl).trans <| bind_field rfl
  encode_ne_null _ h := by cases h

/-! ## Generations -/

instance : LawfulCodec Origin where
  decodeAs_encode _ _ := readRecord_named <| (bind_field rfl).trans <| bind_field rfl
  encode_ne_null _ h := by cases h

instance : LawfulCodec Context where
  decodeAs_encode _ _ := readRecord_named <|
    (bind_field rfl).trans <| (bind_field rfl).trans <| (bind_field rfl).trans <| bind_field rfl
  encode_ne_null _ h := by cases h

/-- The content of an output may be any document, `null` included. -/
instance : LawfulCodec Output where
  decodeAs_encode _ output := by
    cases output with
    | text port content =>
      exact readTagged_named "text" rfl <| (bind_field rfl).trans <| bind_field rfl
    | json port content =>
      exact readTagged_named "json" rfl <| (bind_field rfl).trans <| bind_field_of rfl rfl
    | image port contentType uri =>
      exact readTagged_named "image" rfl <| (bind_field rfl).trans <|
        (bind_field rfl).trans <| bind_field rfl
  encode_ne_null output h := by cases output <;> cases h

/-- The fields of a generation, the last one first. -/
def Generation.fieldsReversed (g : Generation) : List (String × Option Json) :=
  [ifSet "finishedAt" g.finishedAt, ifSet "startedAt" g.startedAt, ifSet "queuedAt" g.queuedAt,
    present "createdAt" g.createdAt, ifSet "retryOf" g.retryOf, ifSet "error" g.error,
    present "outputs" g.outputs, present "context" g.context, present "status" g.status,
    present "id" g.id]

/-- The object of a generation has the fields that are set. -/
theorem Generation.encode_eq (g : Generation) : ∃ fields, encode g = .obj fields ∧
    ∀ key, Fields.get? key fields = (g.fieldsReversed.lookup key).join := by
  refine ⟨_, rfl, fun key => Fields.get?_record ?_ rfl⟩
  show List.Nodup ["id", "status", "context", "outputs", "error", "retryOf", "createdAt",
    "queuedAt", "startedAt", "finishedAt"]
  decide

instance : LawfulCodec Generation where
  decodeAs_encode _ g := by
    obtain ⟨fields, hform, hget⟩ := g.encode_eq
    rw [hform]
    exact readRecord_named <|
      (bind_field (a := g.id) (hget _)).trans <|
      (bind_field (a := g.status) (hget _)).trans <|
      (bind_field (a := g.context) (hget _)).trans <|
      (bind_fieldOr (a := g.outputs) (hget _)).trans <|
      (bind_optionalField (a := g.error) (hget _)).trans <|
      (bind_optionalField (a := g.retryOf) (hget _)).trans <|
      (bind_field (a := g.createdAt) (hget _)).trans <|
      (bind_optionalField (a := g.queuedAt) (hget _)).trans <|
      (bind_optionalField (a := g.startedAt) (hget _)).trans <|
      bind_optionalField (a := g.finishedAt) (hget _)
  encode_ne_null _ h := by cases h

/-! ## Patches -/

/-- A list of documents is its own form. -/
theorem decodeList_documents (reading : Reading) (values : List Json) :
    decodeList reading values = some values := by
  induction values with
  | nil => rfl
  | cons doc rest ih =>
    rw [decodeList] at ih ⊢
    rw [List.mapM_cons, ih]
    rfl

/-- What a patch does is told by two of its fields. The value stands after
the name of the operation, and the path is none of their business. -/
theorem Patch.readOp_encode (p : Patch) : instCodecPatch.readOp .held (encode p) = some p.op := by
  obtain ⟨path, op⟩ := p
  cases op with
  | set value => exact readBeside_named "set" _ rfl rfl
  | increment n =>
    refine (readBeside_named "increment" (encode n) rfl rfl).trans ?_
    simp [decodeAs_encode]
  | decrement n =>
    refine (readBeside_named "decrement" (encode n) rfl rfl).trans ?_
    simp [decodeAs_encode]
  | push values =>
    refine (readBeside_named "push" (.arr values) rfl rfl).trans ?_
    have hread : decodeAs .held (Json.arr values) = some values := decodeList_documents .held values
    simp [hread]

instance : LawfulCodec Patch where
  decodeAs_encode reading p := by
    show ((instCodecPatch.readOp .held (encode p)).bind fun op =>
      readObject (do return { path := ← field "path", op := op }) reading (encode p)) = some p
    rw [p.readOp_encode]
    obtain ⟨path, op⟩ := p
    cases op <;> exact readObject_named (bind_field rfl)
  encode_ne_null p h := by
    obtain ⟨path, op⟩ := p
    cases op <;> cases h

/-! ## Events -/

instance : LawfulCodec StepEventKind where
  decodeAs_encode _ kind := by
    cases kind with
    | started => exact readTagged_named "started" rfl rfl
    | delta text => exact readTagged_named "delta" rfl (bind_field rfl)
    | completed => exact readTagged_named "completed" rfl rfl
    | failed message => exact readTagged_named "failed" rfl (bind_field rfl)
    | cancelled => exact readTagged_named "cancelled" rfl rfl
  encode_ne_null kind h := by cases kind <;> cases h

instance : LawfulCodec ActEvent where
  decodeAs_encode _ e := by
    obtain ⟨act, kind, ms⟩ := e
    cases ms <;>
      exact readRecord_named <| (bind_field rfl).trans <| (bind_field rfl).trans <|
        bind_optionalField rfl
  encode_ne_null _ h := by cases h

instance : LawfulCodec SequenceEvent where
  decodeAs_encode _ _ := readRecord_named <|
    (bind_field rfl).trans <| (bind_field rfl).trans <| bind_field rfl
  encode_ne_null _ h := by cases h

/-- The kind of an event of a step is read from the fields of the event. -/
theorem StepEvent.readKind_encode (e : StepEvent) :
    decodeAs (α := StepEventKind) .held (encode e) = some e.kind := by
  obtain ⟨act, step, node, name, kind⟩ := e
  cases kind with
  | started => exact readTagged_named "started" rfl rfl
  | delta text => exact readTagged_named "delta" rfl (bind_field rfl)
  | completed => exact readTagged_named "completed" rfl rfl
  | failed message => exact readTagged_named "failed" rfl (bind_field rfl)
  | cancelled => exact readTagged_named "cancelled" rfl rfl

instance : LawfulCodec StepEvent where
  decodeAs_encode reading e := by
    show ((decodeAs (α := StepEventKind) .held (encode e)).bind fun kind =>
      readObject (do
        return { act := ← field "actId", step := ← field "stepId", node := ← field "nodeId",
                 name := ← field "name", kind := kind }) reading (encode e)) = some e
    rw [e.readKind_encode]
    obtain ⟨act, step, node, name, kind⟩ := e
    cases kind <;>
      exact readObject_named <| (bind_field rfl).trans <| (bind_field rfl).trans <|
        (bind_field rfl).trans <| bind_field rfl
  encode_ne_null e h := by
    obtain ⟨act, step, node, name, kind⟩ := e
    cases kind <;> cases h

instance : LawfulCodec Diagnostic where
  decodeAs_encode _ _ := readRecord_named <| (bind_field rfl).trans <| bind_field rfl
  encode_ne_null _ h := by cases h

/-- The event itself stands before its type, and is held. -/
instance : LawfulCodec Event where
  decodeAs_encode _ event := by
    cases event with
    | act e =>
      refine (readBeside_named "act" (encode e) rfl rfl).trans ?_
      simp [decodeAs_encode]
    | «sequence» e =>
      refine (readBeside_named "sequence" (encode e) rfl rfl).trans ?_
      simp [decodeAs_encode]
    | step e =>
      refine (readBeside_named "step" (encode e) rfl rfl).trans ?_
      simp [decodeAs_encode]
    | diagnostic e =>
      refine (readBeside_named "diagnostic" (encode e) rfl rfl).trans ?_
      simp [decodeAs_encode]
  encode_ne_null event h := by cases event <;> cases h

/-! ## All of them -/

/-- A batch without patches is accepted and changes nothing. -/
theorem Act.update_nil (a : Act) : a.update [] = .ok a := (Takes.nil a).update_eq

/-- **Round trip.** Every object of the domain is read from its JSON form as
it was written, and an empty batch, which takes an act through its form and
back, leaves it as it is. -/
theorem domain_round_trip :
    (∀ w : Workspace, decode (encode w) = some w) ∧
    (∀ s : Slice, decode (encode s) = some s) ∧
    (∀ a : Act, decode (encode a) = some a) ∧
    (∀ p : Patch, decode (encode p) = some p) ∧
    (∀ g : Generation, decode (encode g) = some g) ∧
    (∀ e : Event, decode (encode e) = some e) ∧
    ∀ a : Act, a.update [] = .ok a :=
  ⟨decode_encode, decode_encode, decode_encode, decode_encode, decode_encode, decode_encode,
    Act.update_nil⟩

end Workflow
