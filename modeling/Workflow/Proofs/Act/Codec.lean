/-
Workflow.Proofs.Act.Codec — the JSON form of an act gives the act back.

The equations `encode_eq` list the fields of each record in the order in
which they stand in its object.
-/
import Workflow.Act.Basic
import Workflow.Proofs.Json.Codec

namespace Workflow

/-! ## Forms -/

/-- The form of each part of an act, with its keys in order. A missing duration
is left out. -/
theorem StepCounts.encode_eq (c : StepCounts) : encode c = .obj
    [("completed", encode c.completed), ("failed", encode c.failed),
      ("inProgress", encode c.inProgress), ("queued", encode c.queued)] := rfl

theorem ActDuration.encode_eq (d : ActDuration) : encode d = .obj
    [("totalTask", encode d.totalTask), ("wallClock", encode d.wallClock)] := rfl

/-- The field of a duration, which is missing until it is known. -/
def durationField : Option UInt64 → List (String × Json)
  | none => []
  | some ms => [("durationMs", encode ms)]

theorem Step.encode_eq (s : Step) : encode s = .obj (durationField s.durationMs ++
    [("generationId", encode s.generation), ("id", encode s.id), ("name", encode s.name),
      ("nodeId", encode s.node), ("operation", encode s.operation),
      ("status", encode s.status)]) := by
  obtain ⟨id, node, name, operation, generation, status, ms⟩ := s
  cases ms <;> rfl

theorem Sequence.encode_eq (s : Sequence) : encode s = .obj (durationField s.durationMs ++
    [("id", encode s.id), ("status", encode s.status), ("steps", encode s.steps)]) := by
  obtain ⟨id, status, steps, ms⟩ := s
  cases ms <;> rfl

theorem Act.encode_eq (a : Act) : encode a = .obj
    [("annotations", encode a.annotations), ("createdAt", encode a.createdAt),
      ("duration", encode a.duration), ("id", encode a.id), ("sequences", encode a.sequences),
      ("startNodeId", encode a.startNode), ("status", encode a.status),
      ("steps", encode a.steps), ("workspaceId", encode a.workspace)] := rfl

/-! ## Round trips -/

instance : LawfulCodec StepCounts where
  decodeAs_encode _ _ := readRecord_named <|
    (bind_field rfl).trans <| (bind_field rfl).trans <| (bind_field rfl).trans <| bind_field rfl
  encode_ne_null _ h := by cases h

instance : LawfulCodec ActDuration where
  decodeAs_encode _ _ := readRecord_named <| (bind_field rfl).trans <| bind_field rfl
  encode_ne_null _ h := by cases h

instance : LawfulCodec Annotation where
  decodeAs_encode _ a := by
    obtain ⟨level, message, sequence, step⟩ := a
    cases sequence <;> cases step <;>
      exact readRecord_named <| (bind_field rfl).trans <| (bind_field rfl).trans <|
        (bind_optionalField rfl).trans <| bind_optionalField rfl
  encode_ne_null _ h := by cases h

instance : LawfulCodec Step where
  decodeAs_encode _ s := by
    obtain ⟨id, node, name, operation, generation, status, ms⟩ := s
    cases ms <;>
      exact readRecord_named <| (bind_field rfl).trans <| (bind_field rfl).trans <|
        (bind_field rfl).trans <| (bind_field rfl).trans <| (bind_field rfl).trans <|
        (bind_fieldOr rfl).trans <| bind_optionalField rfl
  encode_ne_null _ h := by cases h

instance : LawfulCodec Sequence where
  decodeAs_encode _ s := by
    obtain ⟨id, status, steps, ms⟩ := s
    cases ms <;>
      exact readRecord_named <| (bind_field rfl).trans <| (bind_fieldOr rfl).trans <|
        (bind_field rfl).trans <| bind_optionalField rfl
  encode_ne_null _ h := by cases h

instance : LawfulCodec Act where
  decodeAs_encode _ _ := readRecord_named <|
    (bind_field rfl).trans <| (bind_field rfl).trans <| (bind_field rfl).trans <|
    (bind_fieldOr rfl).trans <| (bind_fieldOr rfl).trans <| (bind_fieldOr rfl).trans <|
    (bind_fieldOr rfl).trans <| (bind_field rfl).trans <| bind_field rfl
  encode_ne_null _ h := by cases h

end Workflow
