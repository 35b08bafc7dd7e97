/-
Workflow.Proofs.Store.Likeness — documents that stay forms of the same act.

A document that was read and written again need not be the same document: a
status may have been spelled at length, a note may have had keys that nobody
reads, and a duration that was `null` is left out. A likeness relates such
documents:

* `Likeness α R` — documents that are alike are read as the same value, and
  a document stays like the written form of what it is read as;
* `Follows R edit segments` — what an edit makes of a document, it makes of
  the documents that are like it, too.

`Act.likeness` and `Act.follows` say both of the forms of an act, the latter
for every operation at every place that a run writes to.
-/
import Mathlib.Data.List.Forall2
import Workflow.Proofs.Store.Totals

namespace Workflow

/-- A relation of documents that are forms of the same value, if of any. -/
class Likeness (α : outParam Type) [Codec α] (R : Json → Json → Prop) : Prop where
  refl : ∀ a : α, R (encode a) (encode a)
  read : ∀ {x y}, R x y → (decode x : Option α) = decode y
  renew : ∀ {x y} {a : α}, R x y → decode y = some a → R x (encode a)

/-- An edit that is accepted for a document is accepted for those that are
like it, and the results are alike. -/
def Follows (R : Json → Json → Prop) (edit : Json → Except Patch.Fault Json)
    (segments : List String) : Prop :=
  ∀ ⦃x y y'⦄, R x y → Patch.editAt edit segments y = (y', none) →
    ∃ x', Patch.editAt edit segments x = (x', none) ∧ R x' y'

/-! ## Values -/

/-- Both documents are read as the same value, if as any. -/
def ReadsAlike (α : Type) [Codec α] (x y : Json) : Prop := (decode x : Option α) = decode y

/-- Both documents are forms of one value. -/
def SameForms (α : Type) [Codec α] (x y : Json) : Prop :=
  ∃ a : α, decode x = some a ∧ decode y = some a

/-- Lists with items that are alike, one by one. -/
def ItemsAlike (R : Json → Json → Prop) (x y : Json) : Prop :=
  ∃ xs ys, x = .arr xs ∧ y = .arr ys ∧ List.Forall₂ R xs ys

/-- The documents are equal, or related. -/
def OrSame (R : Json → Json → Prop) (x y : Json) : Prop := x = y ∨ R x y

section

variable {α : Type} [Codec α] {R : Json → Json → Prop}

instance [LawfulCodec α] : Likeness α (ReadsAlike α) where
  refl _ := rfl
  read h := h
  renew h hy := by rw [ReadsAlike, h, hy, decode_encode]

instance [LawfulCodec α] : Likeness α (SameForms α) where
  refl a := ⟨a, decode_encode a, decode_encode a⟩
  read := by
    rintro x y ⟨a, hx, hy⟩
    rw [hx, hy]
  renew := by
    rintro x y a ⟨b, hx, hy⟩ ha
    obtain rfl := Option.some.inj (hy.symm.trans ha)
    exact ⟨b, hx, decode_encode b⟩

/-- Numbers have one form only. -/
instance : Likeness UInt64 Eq where
  refl _ := rfl
  read := by
    rintro x y rfl
    rfl
  renew := by
    rintro x y n rfl hn
    cases x with
    | int i =>
      have hi := Act.toNat_of_decode hn
      exact congrArg Json.int hi.symm
    | _ => cases hn

/-- A relation may be extended by equality: what it relates to itself once read
is enough. -/
theorem Likeness.orSame [Likeness α R] (hread : ∀ {x} {a : α}, decode x = some a → R x x) :
    Likeness α (OrSame R) where
  refl _ := Or.inl rfl
  read := by
    rintro x y (rfl | hxy)
    · rfl
    · exact Likeness.read hxy
  renew := by
    rintro x y a (rfl | hxy) ha
    · exact Or.inr (Likeness.renew (hread ha) ha)
    · exact Or.inr (Likeness.renew hxy ha)

theorem decodeList_cons {reading : Reading} {x : Json} {xs : List Json} :
    (decodeList reading (x :: xs) : Option (List α)) = (decodeAs reading x).bind fun a =>
      (decodeList reading xs).bind fun as => some (a :: as) := List.mapM_cons ..

instance [Likeness α R] : Likeness (List α) (ItemsAlike R) where
  refl as := by
    refine ⟨as.map encode, as.map encode, rfl, rfl, ?_⟩
    exact List.forall₂_same.mpr fun x hx => by
      obtain ⟨a, -, rfl⟩ := List.mem_map.mp hx
      exact Likeness.refl a
  read := by
    rintro _ _ ⟨xs, ys, rfl, rfl, hall⟩
    show (decodeList .direct xs : Option (List α)) = decodeList .direct ys
    induction hall with
    | nil => rfl
    | cons hxy _ ih =>
      have hhead := Likeness.read hxy
      rw [decode, decode] at hhead
      rw [decodeList_cons, decodeList_cons, hhead, ih]
  renew := by
    rintro _ _ as ⟨xs, ys, rfl, rfl, hall⟩ has
    replace has : decodeList .direct ys = some as := has
    refine ⟨xs, as.map encode, rfl, rfl, ?_⟩
    induction hall generalizing as with
    | nil =>
      obtain rfl := Option.some.inj has
      exact .nil
    | cons hxy _ ih =>
      rw [decodeList_cons, Option.bind_eq_some_iff] at has
      obtain ⟨a, ha, has⟩ := has
      obtain ⟨as, htail, hcons⟩ := Option.bind_eq_some_iff.mp has
      obtain rfl := Option.some.inj hcons
      exact .cons (Likeness.renew hxy ha) (ih htail)

instance [LawfulCodec α] : Likeness α (OrSame (SameForms α)) :=
  .orSame fun {_ a} ha => ⟨a, ha, ha⟩

instance [LawfulCodec α] : Likeness (List α) (OrSame (ItemsAlike (ReadsAlike α))) :=
  .orSame fun {x as} has => by
    cases x with
    | arr xs => exact ⟨xs, xs, rfl, rfl, List.forall₂_same.mpr fun _ _ => rfl⟩
    | _ => cases has

end

/-! ## Records -/

/-- A field that is there on both sides, with values that are alike. -/
def Present (R : Json → Json → Prop) (u v : Option Json) : Prop :=
  ∃ x y, u = some x ∧ v = some y ∧ R x y

/-- A field that is the same on both sides, where a missing one counts as
`null`. -/
def SameOrUnset (u v : Option Json) : Prop := u.getD .null = v.getD .null

/-- Objects whose fields are alike, each in the way of its key. -/
def RecordsAlike (L : String → Option Json → Option Json → Prop) (x y : Json) : Prop :=
  ∃ fs gs, x = .obj fs ∧ y = .obj gs ∧ ∀ key, L key (Fields.get? key fs) (Fields.get? key gs)

namespace Fields

variable {α : Type} [Codec α]

/-- What `field` reads. -/
def required (key : String) (fields : List (String × Json)) : Option α :=
  (get? key fields).bind decode

/-- What `fieldOr` reads. -/
def orDefault (key : String) (default : α) (fields : List (String × Json)) : Option α :=
  (get? key fields).elim (some default) decode

/-- What `optionalField` reads. -/
def optional (key : String) (fields : List (String × Json)) : Option (Option α) :=
  match (get? key fields).getD .null with
  | .null => some none
  | doc => (decode doc).map some

end Fields

section

variable {α β : Type} {fields : List (String × Json)} {key : String}

/-- What a reader reads from an object: the first field, then the others. -/
theorem read_bind {x : FieldReader α} {f : α → FieldReader β} {o : Option α}
    (h : x .direct (.named fields) = o.map fun a => (a, .named fields)) :
    (FieldSource.named fields).read .direct (x >>= f) =
      o.bind fun a => (FieldSource.named fields).read .direct (f a) := by
  show (((x .direct (.named fields)).bind fun y => f y.1 .direct y.2).bind fun z =>
    if z.2.isSpent then some z.1 else none) = _
  rw [h]
  cases o <;> rfl

/-- Nothing is left to read. With the lemmas after it, a reader of an object is
the chain of its fields. -/
theorem read_pure (a : α) :
    (FieldSource.named fields).read .direct (pure a : FieldReader α) = some a := rfl

variable [Codec α]

theorem value_eq (doc : Json) (source : FieldSource) :
    (FieldReader.value doc : FieldReader α) .direct source =
      (decode doc).map fun a => (a, source) := by
  show ((decode doc).bind fun a => some (a, source)) = _
  cases (decode doc : Option α) <;> rfl

/-- A required field is read first. -/
theorem read_field {f : α → FieldReader β} :
    (FieldSource.named fields).read .direct (field key >>= f) =
      (Fields.required key fields).bind fun a => (FieldSource.named fields).read .direct (f a) := by
  refine read_bind ?_
  rw [field, bind_named next_named, Fields.required]
  cases Fields.get? key fields with
  | none => rfl
  | some doc => exact value_eq doc _

/-- A field with a default is read first. -/
theorem read_fieldOr {default : α} {f : α → FieldReader β} :
    (FieldSource.named fields).read .direct (fieldOr key default >>= f) =
      (Fields.orDefault key default fields).bind fun a =>
        (FieldSource.named fields).read .direct (f a) := by
  refine read_bind ?_
  rw [fieldOr, bind_named next_named, Fields.orDefault]
  cases Fields.get? key fields with
  | none => rfl
  | some doc => exact value_eq doc _

/-- An optional field is read first. -/
theorem read_optionalField {f : Option α → FieldReader β} :
    (FieldSource.named fields).read .direct (optionalField key >>= f) =
      (Fields.optional key fields).bind fun a =>
        (FieldSource.named fields).read .direct (f a) := by
  refine read_bind ?_
  rw [optionalField, bind_named next_named, Fields.optional]
  cases Fields.get? key fields with
  | none => rfl
  | some doc =>
    have hset : (some <$> FieldReader.value doc : FieldReader (Option α)) .direct
        (.named fields) = ((decode doc).map some).map fun a => (a, .named fields) := by
      show ((FieldReader.value doc : FieldReader α) .direct (.named fields)).bind
        (fun y => some (some y.1, y.2)) = _
      rw [value_eq]
      cases (decode doc : Option α) <;> rfl
    cases doc <;> first | rfl | exact hset

end

section

variable {α : Type} [Codec α] {R : Json → Json → Prop} [Likeness α R] {fs gs : List (String × Json)}
  {key : String}

/-- Fields that are alike are read as the same value, whatever kind of field
they are. -/
theorem Present.required_eq (h : Present R (Fields.get? key fs) (Fields.get? key gs))
    : (Fields.required key fs : Option α) = Fields.required key gs := by
  obtain ⟨x, y, hx, hy, hxy⟩ := h
  rw [Fields.required, Fields.required, hx, hy]
  exact Likeness.read hxy

theorem Present.orDefault_eq (h : Present R (Fields.get? key fs) (Fields.get? key gs))
    (default : α) :
    Fields.orDefault key default fs = Fields.orDefault key default gs := by
  obtain ⟨x, y, hx, hy, hxy⟩ := h
  rw [Fields.orDefault, Fields.orDefault, hx, hy]
  exact Likeness.read hxy

theorem SameOrUnset.optional_eq (h : SameOrUnset (Fields.get? key fs) (Fields.get? key gs)) :
    (Fields.optional key fs : Option (Option α)) = Fields.optional key gs := by
  rw [Fields.optional, Fields.optional, h]

/-- A field that was read and written anew is like the field that was read. -/
theorem Present.renew_required (h : Present R (Fields.get? key fs) (Fields.get? key gs))
    {a : α} (ha : Fields.required key gs = some a) :
    Present R (Fields.get? key fs) (some (encode a)) := by
  obtain ⟨x, y, hx, hy, hxy⟩ := h
  rw [Fields.required, hy] at ha
  exact ⟨x, encode a, hx, rfl, Likeness.renew hxy ha⟩

theorem Present.renew_orDefault (h : Present R (Fields.get? key fs) (Fields.get? key gs))
    {default a : α} (ha : Fields.orDefault key default gs = some a) :
    Present R (Fields.get? key fs) (some (encode a)) := by
  obtain ⟨x, y, hx, hy, hxy⟩ := h
  rw [Fields.orDefault, hy] at ha
  exact ⟨x, encode a, hx, rfl, Likeness.renew hxy ha⟩

/-- A missing duration may be written as `null`, or left out. -/
theorem SameOrUnset.renew (h : SameOrUnset (Fields.get? key fs) (Fields.get? key gs))
    {n : Option UInt64} (hn : Fields.optional key gs = some n) :
    SameOrUnset (Fields.get? key fs) (n.map encode) := by
  rw [SameOrUnset, h]
  unfold Fields.optional at hn
  cases hdoc : (Fields.get? key gs).getD .null with
  | null =>
    rw [hdoc] at hn
    obtain rfl := Option.some.inj hn
    rfl
  | int i =>
    rw [hdoc] at hn
    obtain ⟨m, hm, rfl⟩ := Option.map_eq_some_iff.mp hn
    exact Likeness.renew rfl hm
  | _ =>
    rw [hdoc] at hn
    cases hn

end

theorem Present.refl {α : Type} [Codec α] {R : Json → Json → Prop} [Likeness α R] (a : α) :
    Present R (some (encode a)) (some (encode a)) := ⟨_, _, rfl, rfl, Likeness.refl a⟩

/-! ## Steps -/

namespace Step

/-- How the fields of two steps are alike. -/
def FieldAlike : String → Option Json → Option Json → Prop
  | "id" => Present (ReadsAlike StepId)
  | "nodeId" => Present (ReadsAlike NodeId)
  | "name" => Present (ReadsAlike String)
  | "operation" => Present (ReadsAlike Operation)
  | "generationId" => Present (ReadsAlike GenerationId)
  | "status" => Present (OrSame (SameForms Status))
  | "durationMs" => SameOrUnset
  | _ => fun _ _ => True

theorem decode_obj (fields : List (String × Json)) :
    (decode (.obj fields) : Option Step) = do
      let id ← Fields.required "id" fields
      let node ← Fields.required "nodeId" fields
      let name ← Fields.required "name" fields
      let operation ← Fields.required "operation" fields
      let generation ← Fields.required "generationId" fields
      let status ← Fields.orDefault "status" .queued fields
      let ms ← Fields.optional "durationMs" fields
      return ⟨id, node, name, operation, generation, status, ms⟩ := by
  show (FieldSource.named fields).read .direct _ = _
  simp only [read_field, read_fieldOr, read_optionalField, read_pure]
  rfl

instance : Likeness Step (RecordsAlike FieldAlike) where
  refl s := by
    refine ⟨_, _, encode_eq s, encode_eq s, fun key => ?_⟩
    unfold FieldAlike
    split <;> cases s.durationMs <;> first | exact Present.refl _ | exact rfl | trivial
  read := by
    rintro _ _ ⟨fs, gs, rfl, rfl, h⟩
    rw [decode_obj, decode_obj, (h "id").required_eq, (h "nodeId").required_eq,
      (h "name").required_eq, (h "operation").required_eq, (h "generationId").required_eq,
      (h "status").orDefault_eq, (h "durationMs").optional_eq]
  renew := by
    rintro _ _ s ⟨fs, gs, rfl, rfl, h⟩ hs
    simp only [decode_obj, Option.bind_eq_bind, Option.bind_eq_some_iff] at hs
    obtain ⟨id, hid, node, hnode, name, hname, operation, hoperation, generation, hgeneration,
      status, hstatus, ms, hms, hs⟩ := hs
    obtain rfl := Option.some.inj hs
    refine ⟨fs, _, rfl, encode_eq _, fun key => ?_⟩
    unfold FieldAlike
    split
    · cases ms <;> exact (h "id").renew_required hid
    · cases ms <;> exact (h "nodeId").renew_required hnode
    · cases ms <;> exact (h "name").renew_required hname
    · cases ms <;> exact (h "operation").renew_required hoperation
    · cases ms <;> exact (h "generationId").renew_required hgeneration
    · cases ms <;> exact (h "status").renew_orDefault hstatus
    · cases ms <;> exact (h "durationMs").renew hms
    · trivial

end Step

/-! ## Sequences -/

namespace Sequence

/-- How the fields of two sequences are alike. -/
def FieldAlike : String → Option Json → Option Json → Prop
  | "id" => Present (ReadsAlike SequenceId)
  | "status" => Present (OrSame (SameForms Status))
  | "steps" => Present (ItemsAlike (RecordsAlike Step.FieldAlike))
  | "durationMs" => SameOrUnset
  | _ => fun _ _ => True

theorem decode_obj (fields : List (String × Json)) :
    (decode (.obj fields) : Option Sequence) = do
      let id ← Fields.required "id" fields
      let status ← Fields.orDefault "status" .queued fields
      let steps ← Fields.required "steps" fields
      let ms ← Fields.optional "durationMs" fields
      return ⟨id, status, steps, ms⟩ := by
  show (FieldSource.named fields).read .direct _ = _
  simp only [read_field, read_fieldOr, read_optionalField, read_pure]
  rfl

instance : Likeness Sequence (RecordsAlike FieldAlike) where
  refl s := by
    refine ⟨_, _, encode_eq s, encode_eq s, fun key => ?_⟩
    unfold FieldAlike
    split <;> cases s.durationMs <;> first | exact Present.refl _ | exact rfl | trivial
  read := by
    rintro _ _ ⟨fs, gs, rfl, rfl, h⟩
    rw [decode_obj, decode_obj, (h "id").required_eq, (h "status").orDefault_eq,
      (h "steps").required_eq, (h "durationMs").optional_eq]
  renew := by
    rintro _ _ s ⟨fs, gs, rfl, rfl, h⟩ hs
    simp only [decode_obj, Option.bind_eq_bind, Option.bind_eq_some_iff] at hs
    obtain ⟨id, hid, status, hstatus, steps, hsteps, ms, hms, hs⟩ := hs
    obtain rfl := Option.some.inj hs
    refine ⟨fs, _, rfl, encode_eq _, fun key => ?_⟩
    unfold FieldAlike
    split
    · cases ms <;> exact (h "id").renew_required hid
    · cases ms <;> exact (h "status").renew_orDefault hstatus
    · cases ms <;> exact (h "steps").renew_required hsteps
    · cases ms <;> exact (h "durationMs").renew hms
    · trivial

end Sequence

/-! ## Acts -/

namespace StepCounts

/-- Counts are the same. -/
def FieldAlike : String → Option Json → Option Json → Prop
  | "queued" | "inProgress" | "completed" | "failed" => Present Eq
  | _ => fun _ _ => True

theorem decode_obj (fields : List (String × Json)) :
    (decode (.obj fields) : Option StepCounts) = do
      let queued ← Fields.required "queued" fields
      let inProgress ← Fields.required "inProgress" fields
      let completed ← Fields.required "completed" fields
      let failed ← Fields.required "failed" fields
      return ⟨queued, inProgress, completed, failed⟩ := by
  show (FieldSource.named fields).read .direct _ = _
  simp only [read_field, read_pure]
  rfl

instance : Likeness StepCounts (RecordsAlike FieldAlike) where
  refl c := by
    refine ⟨_, _, encode_eq c, encode_eq c, fun key => ?_⟩
    unfold FieldAlike
    split <;> first | exact Present.refl _ | trivial
  read := by
    rintro _ _ ⟨fs, gs, rfl, rfl, h⟩
    rw [decode_obj, decode_obj, (h "queued").required_eq, (h "inProgress").required_eq,
      (h "completed").required_eq, (h "failed").required_eq]
  renew := by
    rintro _ _ c ⟨fs, gs, rfl, rfl, h⟩ hc
    simp only [decode_obj, Option.bind_eq_bind, Option.bind_eq_some_iff] at hc
    obtain ⟨queued, hqueued, inProgress, hinProgress, completed, hcompleted, failed, hfailed, hc⟩ :=
      hc
    obtain rfl := Option.some.inj hc
    refine ⟨fs, _, rfl, encode_eq _, fun key => ?_⟩
    unfold FieldAlike
    split
    · exact (h "queued").renew_required hqueued
    · exact (h "inProgress").renew_required hinProgress
    · exact (h "completed").renew_required hcompleted
    · exact (h "failed").renew_required hfailed
    · trivial

end StepCounts

namespace ActDuration

/-- Counts are the same. -/
def FieldAlike : String → Option Json → Option Json → Prop
  | "wallClock" | "totalTask" => Present Eq
  | _ => fun _ _ => True

theorem decode_obj (fields : List (String × Json)) :
    (decode (.obj fields) : Option ActDuration) = do
      let wallClock ← Fields.required "wallClock" fields
      let totalTask ← Fields.required "totalTask" fields
      return ⟨wallClock, totalTask⟩ := by
  show (FieldSource.named fields).read .direct _ = _
  simp only [read_field, read_pure]
  rfl

instance : Likeness ActDuration (RecordsAlike FieldAlike) where
  refl d := by
    refine ⟨_, _, encode_eq d, encode_eq d, fun key => ?_⟩
    unfold FieldAlike
    split <;> first | exact Present.refl _ | trivial
  read := by
    rintro _ _ ⟨fs, gs, rfl, rfl, h⟩
    rw [decode_obj, decode_obj, (h "wallClock").required_eq, (h "totalTask").required_eq]
  renew := by
    rintro _ _ d ⟨fs, gs, rfl, rfl, h⟩ hd
    simp only [decode_obj, Option.bind_eq_bind, Option.bind_eq_some_iff] at hd
    obtain ⟨wallClock, hwallClock, totalTask, htotalTask, hd⟩ := hd
    obtain rfl := Option.some.inj hd
    refine ⟨fs, _, rfl, encode_eq _, fun key => ?_⟩
    unfold FieldAlike
    split
    · exact (h "wallClock").renew_required hwallClock
    · exact (h "totalTask").renew_required htotalTask
    · trivial

end ActDuration

namespace Act

/-- How the fields of two acts are alike. -/
def FieldAlike : String → Option Json → Option Json → Prop
  | "id" => Present (ReadsAlike ActId)
  | "workspaceId" => Present (ReadsAlike WorkspaceId)
  | "startNodeId" => Present (ReadsAlike NodeId)
  | "status" => Present (OrSame (SameForms Status))
  | "steps" => Present (RecordsAlike StepCounts.FieldAlike)
  | "duration" => Present (RecordsAlike ActDuration.FieldAlike)
  | "annotations" => Present (OrSame (ItemsAlike (ReadsAlike Annotation)))
  | "sequences" => Present (ItemsAlike (RecordsAlike Sequence.FieldAlike))
  | "createdAt" => Present (ReadsAlike Timestamp)
  | _ => fun _ _ => True

/-- Forms of acts that a run keeps alike. -/
abbrev Alike : Json → Json → Prop := RecordsAlike FieldAlike

theorem decode_obj (fields : List (String × Json)) :
    (decode (.obj fields) : Option Act) = do
      let id ← Fields.required "id" fields
      let workspace ← Fields.required "workspaceId" fields
      let startNode ← Fields.required "startNodeId" fields
      let status ← Fields.orDefault "status" .queued fields
      let steps ← Fields.orDefault "steps" .zero fields
      let duration ← Fields.orDefault "duration" .zero fields
      let annotations ← Fields.orDefault "annotations" [] fields
      let sequences ← Fields.required "sequences" fields
      let createdAt ← Fields.required "createdAt" fields
      return ⟨id, workspace, startNode, status, steps, duration, annotations, sequences,
        createdAt⟩ := by
  show (FieldSource.named fields).read .direct _ = _
  simp only [read_field, read_fieldOr, read_pure]
  rfl

instance likeness : Likeness Act Alike where
  refl a := by
    refine ⟨_, _, encode_eq a, encode_eq a, fun key => ?_⟩
    unfold FieldAlike
    split <;> first | exact Present.refl _ | trivial
  read := by
    rintro _ _ ⟨fs, gs, rfl, rfl, h⟩
    rw [decode_obj, decode_obj, (h "id").required_eq, (h "workspaceId").required_eq,
      (h "startNodeId").required_eq, (h "status").orDefault_eq, (h "steps").orDefault_eq,
      (h "duration").orDefault_eq, (h "annotations").orDefault_eq, (h "sequences").required_eq,
      (h "createdAt").required_eq]
  renew := by
    rintro _ _ a ⟨fs, gs, rfl, rfl, h⟩ ha
    simp only [decode_obj, Option.bind_eq_bind, Option.bind_eq_some_iff] at ha
    obtain ⟨id, hid, workspace, hworkspace, startNode, hstartNode, status, hstatus, steps, hsteps,
      duration, hduration, annotations, hannotations, sequences, hsequences, createdAt, hcreatedAt,
      ha⟩ := ha
    obtain rfl := Option.some.inj ha
    refine ⟨fs, _, rfl, encode_eq _, fun key => ?_⟩
    unfold FieldAlike
    split
    · exact (h "id").renew_required hid
    · exact (h "workspaceId").renew_required hworkspace
    · exact (h "startNodeId").renew_required hstartNode
    · exact (h "status").renew_orDefault hstatus
    · exact (h "steps").renew_orDefault hsteps
    · exact (h "duration").renew_orDefault hduration
    · exact (h "annotations").renew_orDefault hannotations
    · exact (h "sequences").renew_required hsequences
    · exact (h "createdAt").renew_required hcreatedAt
    · trivial

end Act

/-! ## Edits -/

section

variable {edit : Json → Except Patch.Fault Json} {rest : List String}
  {R : Json → Json → Prop} {L : String → Option Json → Option Json → Prop}

/-- What happens to a document, happens to the same document. -/
theorem Follows.orSame
    (h : ∀ {x y y'}, R x y → edit y = .ok y' → ∃ x', edit x = .ok x' ∧ OrSame R x' y') :
    Follows (OrSame R) edit [] := by
  rintro x y y' (rfl | hxy) hy
  · exact ⟨y', hy, Or.inl rfl⟩
  · obtain ⟨w, hw⟩ := Patch.exists_of_fault_nil (congrArg Prod.snd hy)
    obtain rfl := congrArg Prod.fst ((Patch.editAt_nil hw).symm.trans hy)
    obtain ⟨x', hx', hlike⟩ := h hxy hw
    exact ⟨x', Patch.editAt_nil hx', hlike⟩

theorem Follows.same : Follows Eq edit rest := by
  rintro x y y' rfl hy
  exact ⟨y', hy, rfl⟩

theorem Follows.present (h : Follows R edit rest) {u v : Option Json} {y' : Json}
    (huv : Present R u v) (hy : Patch.editAt edit rest (v.getD .null) = (y', none)) :
    ∃ x', Patch.editAt edit rest (u.getD .null) = (x', none) ∧
      Present R (some x') (some y') := by
  obtain ⟨x, y, rfl, rfl, hxy⟩ := huv
  obtain ⟨x', hx', hlike⟩ := h hxy hy
  exact ⟨x', hx', x', y', rfl, rfl, hlike⟩

/-- Objects with one more field that is alike. -/
theorem RecordsAlike.insert {fs gs : List (String × Json)} {key : String} {x y : Json}
    (hall : ∀ l, L l (Fields.get? l fs) (Fields.get? l gs)) (hxy : L key (some x) (some y)) :
    RecordsAlike L (.obj (Fields.insert key x fs)) (.obj (Fields.insert key y gs)) := by
  refine ⟨_, _, rfl, rfl, fun l => ?_⟩
  rw [Fields.get?_insert, Fields.get?_insert]
  split
  · rename_i hkey
    exact hkey ▸ hxy
  · exact hall l

/-- An edit below a key. -/
theorem Follows.key (key : String)
    (h : ∀ {u v y'}, L key u v → Patch.editAt edit rest (v.getD .null) = (y', none) →
      ∃ x', Patch.editAt edit rest (u.getD .null) = (x', none) ∧ L key (some x') (some y')) :
    Follows (RecordsAlike L) edit (key :: rest) := by
  rintro _ _ y' ⟨fs, gs, rfl, rfl, hall⟩ hy
  simp only [Patch.editAt, Prod.mk.injEq] at hy
  obtain ⟨rfl, hfault⟩ := hy
  obtain ⟨x', hx', hlike⟩ := h (hall key) (Prod.ext rfl hfault)
  exact ⟨_, Patch.editAt_key rfl hx', .insert hall hlike⟩

/-- Two lists that are alike, at one position: the items there, and what takes
their place. -/
theorem forall₂_at {xs ys : List Json} (h : List.Forall₂ R xs ys) {i : Nat} {y : Json}
    (hy : ys[i]? = some y) : ∃ x, xs[i]? = some x ∧ R x y ∧
      ∀ {x' y'}, R x' y' → List.Forall₂ R (xs.set i x') (ys.set i y') := by
  induction h generalizing i with
  | nil => cases hy
  | cons hhead htail ih =>
    cases i with
    | zero =>
      obtain rfl := Option.some.inj hy
      exact ⟨_, rfl, hhead, fun hnew => .cons hnew htail⟩
    | succ i =>
      obtain ⟨x, hx, hxy, hset⟩ := ih hy
      exact ⟨x, hx, hxy, fun hnew => .cons hhead (hset hnew)⟩

/-- An edit inside an item of a list. -/
theorem Follows.item (segment : String) (h : Follows R edit rest) :
    Follows (ItemsAlike R) edit (segment :: rest) := by
  rintro _ _ y' ⟨xs, ys, rfl, rfl, hall⟩ hy
  simp only [Patch.editAt] at hy ⊢
  split at hy
  · cases hy
  · split at hy
    · cases hy
    · rename_i i hi _ y hat
      obtain ⟨rfl, hfault⟩ := Prod.mk.injEq .. ▸ hy
      obtain ⟨x, hx, hxy, hset⟩ := forall₂_at hall hat
      obtain ⟨x', hx', hlike⟩ := h hxy (Prod.ext rfl hfault)
      simp only [hx, hx']
      exact ⟨_, rfl, _, _, rfl, rfl, hset hlike⟩

end

/-! ## Operations at the places of an act -/

/-- Of all operations, only a `set` accepts the form of a status. -/
theorem Status.isSet_of_edit {op : PatchOp} {x y : Json} {s : Status}
    (hread : decode x = some s) (h : Patch.edit op x = .ok y) : op.isSet := by
  cases op with
  | set => rfl
  | push | increment | decrement =>
    cases x with
    | str | obj => cases h
    | _ => cases hread

/-- A status can only be set, so nothing else is accepted for the form that a
run keeps. -/
theorem Follows.status (op : PatchOp) :
    Follows (OrSame (SameForms Status)) (Patch.edit op) [] := by
  refine .orSame fun {x y y'} hxy hy => ?_
  obtain ⟨s, -, hread⟩ := hxy
  have hset := Status.isSet_of_edit hread hy
  cases op with
  | set value => exact ⟨y', hy, Or.inl rfl⟩
  | push | increment | decrement => cases hset

/-- Annotations can be set or pushed to. -/
theorem Follows.annotations (op : PatchOp) :
    Follows (OrSame (ItemsAlike (ReadsAlike Annotation))) (Patch.edit op) [] := by
  refine .orSame fun {x y y'} hxy hy => ?_
  obtain ⟨xs, ys, rfl, rfl, hall⟩ := hxy
  cases op with
  | set value => exact ⟨y', hy, Or.inl rfl⟩
  | increment | decrement => cases hy
  | push values =>
    obtain rfl : Json.arr (ys ++ values) = y' := Except.ok.inj hy
    have hsame : List.Forall₂ (ReadsAlike Annotation) values values :=
      List.forall₂_same.mpr fun _ _ => rfl
    exact ⟨_, rfl, Or.inr ⟨_, _, rfl, rfl, List.rel_append hall hsame⟩⟩

/-- Whatever is done to a duration that may be missing. -/
theorem Follows.duration {edit : Json → Except Patch.Fault Json} {u v : Option Json} {y' : Json}
    (huv : SameOrUnset u v) (hy : Patch.editAt edit [] (v.getD .null) = (y', none)) :
    ∃ x', Patch.editAt edit [] (u.getD .null) = (x', none) ∧
      SameOrUnset (some x') (some y') := by
  rw [SameOrUnset] at huv
  exact ⟨y', huv ▸ hy, rfl⟩

namespace Act

/-- An operation at any place of an act that a run writes to. -/
theorem follows (f : Field) (op : PatchOp) : Follows Alike (Patch.edit op) f.segments := by
  -- the ways into the parts of an act, and then one case for each place
  have hcount (key : String) (hkey : StepCounts.FieldAlike key = Present Eq) :
      Follows (RecordsAlike StepCounts.FieldAlike) (Patch.edit op) [key] :=
    .key key (hkey ▸ Follows.same.present)
  have hsequence {rest : List String}
      (h : Follows (RecordsAlike Sequence.FieldAlike) (Patch.edit op) rest) (i : Nat) :
      Follows Alike (Patch.edit op) ("sequences" :: toString i :: rest) :=
    .key "sequences" (h.item (toString i)).present
  have hstep {rest : List String}
      (h : Follows (RecordsAlike Step.FieldAlike) (Patch.edit op) rest) (i j : Nat) :
      Follows Alike (Patch.edit op) ("sequences" :: toString i :: "steps" :: toString j :: rest) :=
    hsequence (.key "steps" (h.item (toString j)).present) i
  cases f with
  | status => exact .key "status" (Follows.status op).present
  | stepsQueued => exact .key "steps" (hcount "queued" rfl).present
  | stepsInProgress => exact .key "steps" (hcount "inProgress" rfl).present
  | stepsCompleted => exact .key "steps" (hcount "completed" rfl).present
  | stepsFailed => exact .key "steps" (hcount "failed" rfl).present
  | wallClock =>
    have h : Follows (RecordsAlike ActDuration.FieldAlike) (Patch.edit op) ["wallClock"] :=
      .key "wallClock" Follows.same.present
    exact .key "duration" h.present
  | totalTask =>
    have h : Follows (RecordsAlike ActDuration.FieldAlike) (Patch.edit op) ["totalTask"] :=
      .key "totalTask" Follows.same.present
    exact .key "duration" h.present
  | annotations => exact .key "annotations" (Follows.annotations op).present
  | sequenceStatus i => exact hsequence (.key "status" (Follows.status op).present) i
  | sequenceDuration i => exact hsequence (.key "durationMs" Follows.duration) i
  | stepStatus i j => exact hstep (.key "status" (Follows.status op).present) i j
  | stepDuration i j => exact hstep (.key "durationMs" Follows.duration) i j

variable {x y y' : Json} {a b : Act} {patches : List Patch}

/-- A patch of a field that is accepted for a form is accepted for one that is
like it. -/
theorem alike_of_apply {p : Patch} {f : Field} (hpath : p.path = f.path) (hxy : Alike x y)
    (h : p.apply y = .ok y') : ∃ x', p.apply x = .ok x' ∧ Alike x' y' := by
  have hsegments : Patch.segments p.path = f.segments := by rw [hpath, f.segments_path]
  have hfault := Patch.fault_eq_none h
  rw [hsegments] at hfault
  have hy : Patch.editAt (Patch.edit p.op) f.segments y = (y', none) :=
    Prod.ext (by simpa [Patch.apply, Patch.run, hfault, hsegments] using h) hfault
  obtain ⟨x', hx', hlike⟩ := follows f p.op hxy hy
  refine ⟨x', ?_, hlike⟩
  simp [Patch.apply, Patch.run, hsegments, hx']

theorem alike_of_applyAll (hfields : ∀ p ∈ patches, ∃ f : Field, p.path = f.path)
    (hxy : Alike x y) (h : Patch.applyAll patches y = .ok y') :
    ∃ x', Patch.applyAll patches x = .ok x' ∧ Alike x' y' := by
  induction patches generalizing x y with
  | nil =>
    obtain rfl := Except.ok.inj h
    exact ⟨x, rfl, hxy⟩
  | cons p rest ih =>
    obtain ⟨next, hp, hrest⟩ := Patch.applyAll_cons_eq_ok h
    obtain ⟨f, hf⟩ := hfields p List.mem_cons_self
    obtain ⟨x', hx', hlike⟩ := alike_of_apply hf hxy hp
    obtain ⟨x'', hx'', hlast⟩ := ih (fun q hq => hfields q (List.mem_cons_of_mem p hq)) hlike hrest
    refine ⟨x'', ?_, hlast⟩
    rw [Patch.applyAll, List.foldlM_cons, hx']
    exact hx''

/-- A batch is accepted for a document that is like the form of the act, too,
and the results are alike again. -/
theorem alike_of_update (hfields : ∀ p ∈ patches, ∃ f : Field, p.path = f.path)
    (hx : Alike x (encode a)) (h : a.update patches = .ok b) :
    ∃ x', Patch.applyAll patches x = .ok x' ∧ Alike x' (encode b) := by
  obtain ⟨doc, hdoc, hread⟩ := exists_decode_of_update h
  obtain ⟨x', hx', hlike⟩ := alike_of_applyAll hfields hx hdoc
  exact ⟨x', hx', Likeness.renew hlike hread⟩

end Act

end Workflow
