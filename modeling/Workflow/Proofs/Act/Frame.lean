/-
Workflow.Proofs.Act.Frame — what a batch leaves as it was.

Patches name places of the JSON form of an act by any path whatever. Here
places are followed by their keys (`Json.at?`), and `Patch.at?_of_apply`
says what an accepted patch does to a place that has a value:

* a patch elsewhere leaves the value;
* a patch right there is the edit of the value;
* a patch inside is an edit inside the value;
* a patch on the way to the place can only be a `set`.

`Act.ReadFrom` is the way back: the fields of an act are the values in the
object that it was read from. Together they say what becomes of a field of
an act under a batch, of whichever patches it consists.
-/
import Mathlib.Data.List.Infix
import Workflow.Proofs.Act.Field

namespace Workflow

/-! ## Places that keys lead to -/

namespace Json

/-- What stands where keys lead, from object to object. -/
def at? : List String → Json → Option Json
  | [], doc => some doc
  | key :: rest, doc => (doc.get? key).bind (at? rest)

@[simp] theorem at?_nil (doc : Json) : doc.at? [] = some doc := rfl

@[simp] theorem at?_cons_obj (key : String) (rest : List String) (fields : List (String × Json)) :
    (Json.obj fields).at? (key :: rest) = (Fields.get? key fields).bind (at? rest) := rfl

/-- Keys lead through objects only. -/
theorem at?_cons {doc v : Json} {key : String} {rest : List String}
    (h : doc.at? (key :: rest) = some v) :
    ∃ fields next, doc = .obj fields ∧ Fields.get? key fields = some next ∧
      next.at? rest = some v := by
  cases doc with
  | obj fields =>
    obtain ⟨next, hnext, hv⟩ := Option.bind_eq_some_iff.mp h
    exact ⟨fields, next, rfl, hnext, hv⟩
  | _ => simp [at?, get?] at h

/-- On the way to a place there are objects. -/
theorem at?_of_prefix {doc v : Json} {p : List String} {key : String} {rest : List String}
    (h : doc.at? (p ++ key :: rest) = some v) : ∃ fields, doc.at? p = some (.obj fields) := by
  induction p generalizing doc with
  | nil =>
    obtain ⟨fields, next, rfl, -, -⟩ := at?_cons h
    exact ⟨fields, rfl⟩
  | cons k p ih =>
    obtain ⟨fields, next, rfl, hnext, hv⟩ := at?_cons h
    obtain ⟨inner, hinner⟩ := ih hv
    exact ⟨inner, by simp [hnext, hinner]⟩

end Json

/-! ## Edits seen from a place

A place is below the path of a patch, above it or beside it. Only in the last
case nothing is seen of the patch. -/

namespace PatchOp

def isSet : PatchOp → Bool
  | .set _ => true
  | .increment _ | .decrement _ | .push _ => false

def isPush : PatchOp → Bool
  | .push _ => true
  | .set _ | .increment _ | .decrement _ => false

end PatchOp

namespace Patch

variable {edit : Json → Except Fault Json}

/-- An edit at a place or inside it. -/
theorem editAt_append (edit : Json → Except Fault Json) (rest : List String) {p : List String}
    {doc v : Json} (h : doc.at? p = some v) :
    (editAt edit (p ++ rest) doc).2 = (editAt edit rest v).2 ∧
      (editAt edit (p ++ rest) doc).1.at? p = some (editAt edit rest v).1 := by
  induction p generalizing doc with
  | nil =>
    obtain rfl : doc = v := by simpa using h
    exact ⟨rfl, rfl⟩
  | cons key p ih =>
    obtain ⟨fields, next, rfl, hnext, hv⟩ := Json.at?_cons h
    obtain ⟨hfault, hat⟩ := ih hv
    simp only [List.cons_append, editAt, hnext, Option.getD_some]
    exact ⟨hfault, by simp [Fields.get?_insert, hat]⟩

/-- An edit at a place that is neither on the way nor inside. -/
theorem at?_editAt_of_apart {p q : List String} (hpq : ¬ p <+: q) (hqp : ¬ q <+: p) (doc : Json) :
    (editAt edit p doc).1.at? q = doc.at? q := by
  induction p generalizing q doc with
  | nil => exact absurd List.nil_prefix hpq
  | cons key p ih =>
    cases q with
    | nil => exact absurd List.nil_prefix hqp
    | cons l q =>
      -- only where the first keys agree does the edit go the same way
      have hsame (hkey : key = l) (next : Json) :
          (editAt edit p next).1.at? q = next.at? q := by
        subst hkey
        exact ih (fun h => hpq (List.cons_prefix_cons.mpr ⟨rfl, h⟩))
          (fun h => hqp (List.cons_prefix_cons.mpr ⟨rfl, h⟩)) next
      have hnone : Json.null.at? q = none ∨ ¬ key = l := by
        by_cases hkey : key = l
        · subst hkey
          cases q with
          | nil => exact absurd (List.cons_prefix_cons.mpr ⟨rfl, List.nil_prefix⟩) hqp
          | cons => exact Or.inl rfl
        · exact Or.inr hkey
      cases doc with
      | null =>
        by_cases hkey : key = l
        · simp only [editAt, Json.at?_cons_obj, Fields.get?, hkey, if_true, Option.bind_some,
            hsame hkey, hnone.resolve_right (not_not.mpr hkey)]
          rfl
        · simp only [editAt, Json.at?_cons_obj, Fields.get?, hkey, if_false, Option.bind_none]
          rfl
      | obj fields =>
        simp only [editAt, Json.at?_cons_obj, Fields.get?_insert]
        by_cases hkey : key = l
        · subst hkey
          simp only [if_true, Option.bind_some, hsame rfl]
          cases Fields.get? key fields with
          | none => exact hnone.resolve_right (not_not.mpr rfl)
          | some next => rfl
        · simp only [hkey, if_false]
      | arr items =>
        have harr (items : List Json) : (Json.arr items).at? (l :: q) = none := rfl
        simp only [editAt]
        split
        · rfl
        · split
          · rfl
          · rw [harr, harr]
      | bool | int | float | str => rfl

/-- Of all operations, only a `set` accepts an object. -/
theorem isSet_of_edit_obj {op : PatchOp} {fields : List (String × Json)} {new : Json}
    (h : Patch.edit op (.obj fields) = .ok new) : op.isSet := by
  cases op with
  | set value => rfl
  | increment n | decrement n | push values => cases h

/-- Whether a patch sets a place, or one on the way to it. -/
def Overwrites (p : Patch) (place : List String) : Prop :=
  segments p.path <+: place ∧ p.op.isSet

instance (p : Patch) (place : List String) : Decidable (p.Overwrites place) :=
  inferInstanceAs (Decidable (_ ∧ _))

/-- What stands at a place after an accepted patch: the result of an edit if
the patch leads there, or what stood there before. -/
theorem at?_of_apply {p : Patch} {place : List String} {doc new v : Json}
    (h : p.apply doc = .ok new) (hv : doc.at? place = some v)
    (hset : segments p.path ≠ place → ¬ p.Overwrites place) :
    (∃ rest w, segments p.path = place ++ rest ∧ editAt (Patch.edit p.op) rest v = (w, none) ∧
        new.at? place = some w) ∨
      ¬ place <+: segments p.path ∧ new.at? place = some v := by
  have hfault := fault_eq_none h
  obtain rfl : (editAt (Patch.edit p.op) (segments p.path) doc).1 = new := by
    simpa [apply, run, hfault] using h
  by_cases hinside : place <+: segments p.path
  · obtain ⟨rest, hrest⟩ := hinside
    rw [← hrest] at hfault ⊢
    obtain ⟨hfault', hat⟩ := editAt_append (Patch.edit p.op) rest hv
    exact Or.inl ⟨rest, _, rfl, Prod.ext rfl (hfault' ▸ hfault), hat⟩
  · refine Or.inr ⟨hinside, ?_⟩
    have hway : ¬ segments p.path <+: place := by
      rintro ⟨rest, hrest⟩
      cases rest with
      | nil => exact hinside (by rw [← hrest, List.append_nil])
      | cons key rest =>
        -- an accepted edit of the object there is a `set`
        obtain ⟨fields, hfields⟩ := Json.at?_of_prefix (hrest.symm ▸ hv)
        have hthere := (editAt_append (Patch.edit p.op) [] hfields).1
        rw [List.append_nil, hfault] at hthere
        obtain ⟨w, hw⟩ := exists_of_fault_nil hthere.symm
        have hne : segments p.path ≠ place := by
          intro heq
          simp [heq] at hrest
        exact hset hne ⟨⟨key :: rest, hrest⟩, isSet_of_edit_obj hw⟩
    rw [at?_editAt_of_apart hway hinside, hv]

/-- A value that has no places inside. -/
def IsLeaf : Json → Prop
  | .bool _ | .int _ | .float _ | .str _ => True
  | .null | .arr _ | .obj _ => False

theorem fault_of_isLeaf (edit : Json → Except Fault Json) {v : Json} (hleaf : IsLeaf v)
    (key : String) (rest : List String) :
    (editAt edit (key :: rest) v).2 = some .noPlace := by
  cases v <;> first | rfl | exact hleaf.elim

/-- At a leaf only patches of its own place change anything. -/
theorem at?_of_apply_leaf {p : Patch} {place : List String} {doc new v : Json}
    (h : p.apply doc = .ok new) (hv : doc.at? place = some v) (hleaf : IsLeaf v)
    (hset : segments p.path ≠ place → ¬ p.Overwrites place) :
    (segments p.path = place ∧ ∃ w, Patch.edit p.op v = .ok w ∧ new.at? place = some w) ∨
      segments p.path ≠ place ∧ new.at? place = some v := by
  rcases at?_of_apply h hv hset with ⟨rest, w, hpath, hedit, hat⟩ | ⟨hinside, hat⟩
  · cases rest with
    | nil =>
      obtain ⟨w', hw'⟩ := exists_of_fault_nil (congrArg Prod.snd hedit)
      rw [editAt_nil hw', Prod.mk.injEq] at hedit
      exact Or.inl ⟨hpath.trans (List.append_nil place), w', hw', hedit.1 ▸ hat⟩
    | cons key rest =>
      have hfault := fault_of_isLeaf (Patch.edit p.op) hleaf key rest
      rw [hedit] at hfault
      cases hfault
  · exact Or.inr ⟨fun heq => hinside (heq ▸ List.prefix_rfl), hat⟩

/-- A leaf that no patch is about stays as it is. -/
theorem at?_leaf_of_applyAll {patches : List Patch} {place : List String} {doc new v : Json}
    (h : applyAll patches doc = .ok new) (hv : doc.at? place = some v) (hleaf : IsLeaf v)
    (hother : ∀ p ∈ patches, ¬ segments p.path <+: place) : new.at? place = some v := by
  induction patches generalizing doc with
  | nil =>
    obtain rfl := Except.ok.inj h
    exact hv
  | cons p rest ih =>
    obtain ⟨next, hp, hrest⟩ := applyAll_cons_eq_ok h
    have hway := hother p List.mem_cons_self
    rcases at?_of_apply_leaf hp hv hleaf fun _ hover => hway hover.1 with ⟨heq, -⟩ | ⟨-, hat⟩
    · exact absurd (heq ▸ List.prefix_rfl) hway
    · exact ih hrest hat fun q hq => hother q (List.mem_cons_of_mem p hq)

end Patch

/-! ## Reading an act

What is read from the patched form is read field by field, so a field that no
patch was about is read as before. -/

/-- The value was read from a field, if the field is there. -/
def Reads {α : Type} [Codec α] (reading : Reading) (fields : List (String × Json)) (key : String)
    (a : α) : Prop :=
  ∀ doc, Fields.get? key fields = some doc → decodeAs reading doc = some a

section

variable {α β : Type} {reading : Reading} {fields : List (String × Json)} {key : String}

/-- What a reader of records has read was read from the fields. -/
theorem exists_of_readRecord {reader : FieldReader α} {a : α}
    (h : readRecord reader reading (.obj fields) = some a) :
    ∃ source, reader reading (.named fields) = some (a, source) := by
  obtain ⟨y, hy, hspent⟩ := Option.bind_eq_some_iff.mp h
  refine ⟨y.2, hy.trans ?_⟩
  simp only [Option.ite_none_right_eq_some, Option.some.injEq] at hspent
  rw [← hspent.2]

variable [Codec α]

/-- A value is read as its type says. -/
theorem value_eq_some {doc : Json} {a : α} {source source' : FieldSource}
    (h : FieldReader.value doc reading source = some (a, source')) :
    decodeAs reading doc = some a ∧ source' = source := by
  have hvalue : ((decodeAs reading doc).bind fun a => some (a, source)) =
      some (a, source') := h
  simp only [Option.bind_eq_some_iff, Option.some.injEq, Prod.mk.injEq] at hvalue
  obtain ⟨b, hb, rfl, rfl⟩ := hvalue
  exact ⟨hb, rfl⟩

/-- The first field of a reader was read, and the rest after it. -/
theorem reads_of_bind_field {f : α → FieldReader β} {b : β × FieldSource}
    (h : (field key >>= f) reading (.named fields) = some b) :
    ∃ a, Reads reading fields key a ∧ f a reading (.named fields) = some b := by
  obtain ⟨y, hy, hb⟩ := Option.bind_eq_some_iff.mp h
  rw [field, bind_named next_named] at hy
  cases hget : Fields.get? key fields with
  | none =>
    rw [hget] at hy
    cases hy
  | some doc =>
    rw [hget] at hy
    have hvalue : FieldReader.value doc reading (.named fields) = some (y.1, y.2) := hy
    obtain ⟨hread, hsource⟩ := value_eq_some hvalue
    refine ⟨y.1, ?_, hsource ▸ hb⟩
    intro doc' hdoc
    rwa [← Option.some.inj (hget.symm.trans hdoc)]

theorem reads_of_bind_fieldOr {f : α → FieldReader β} {default : α} {b : β × FieldSource}
    (h : (fieldOr key default >>= f) reading (.named fields) = some b) :
    ∃ a, Reads reading fields key a ∧ f a reading (.named fields) = some b := by
  obtain ⟨y, hy, hb⟩ := Option.bind_eq_some_iff.mp h
  rw [fieldOr, bind_named next_named] at hy
  cases hget : Fields.get? key fields with
  | none =>
    rw [hget] at hy
    obtain rfl : (default, FieldSource.named fields) = y := Option.some.inj hy
    refine ⟨default, ?_, hb⟩
    intro doc hdoc
    cases hget.symm.trans hdoc
  | some doc =>
    rw [hget] at hy
    have hvalue : FieldReader.value doc reading (.named fields) = some (y.1, y.2) := hy
    obtain ⟨hread, hsource⟩ := value_eq_some hvalue
    refine ⟨y.1, ?_, hsource ▸ hb⟩
    intro doc' hdoc
    rwa [← Option.some.inj (hget.symm.trans hdoc)]

end

namespace StepCounts

/-- The counters are what a reader finds in the fields. -/
structure ReadFrom (reading : Reading) (fields : List (String × Json)) (c : StepCounts) : Prop where
  queued : Reads reading fields "queued" c.queued
  inProgress : Reads reading fields "inProgress" c.inProgress
  completed : Reads reading fields "completed" c.completed
  failed : Reads reading fields "failed" c.failed

/-- Each part was read from its own field, if this was there. -/
theorem readFrom_of_decodeAs {reading : Reading} {fields : List (String × Json)} {c : StepCounts}
    (h : decodeAs reading (.obj fields) = some c) : c.ReadFrom reading fields := by
  obtain ⟨source, h⟩ := exists_of_readRecord h
  obtain ⟨queued, hqueued, h⟩ := reads_of_bind_field h
  obtain ⟨inProgress, hinProgress, h⟩ := reads_of_bind_field h
  obtain ⟨completed, hcompleted, h⟩ := reads_of_bind_field h
  obtain ⟨failed, hfailed, h⟩ := reads_of_bind_field h
  obtain rfl := congrArg Prod.fst (Option.some.inj h)
  exact ⟨hqueued, hinProgress, hcompleted, hfailed⟩

end StepCounts

namespace ActDuration

/-- The times are what a reader finds in the fields. -/
structure ReadFrom (reading : Reading) (fields : List (String × Json)) (d : ActDuration) :
    Prop where
  wallClock : Reads reading fields "wallClock" d.wallClock
  totalTask : Reads reading fields "totalTask" d.totalTask

theorem readFrom_of_decodeAs {reading : Reading} {fields : List (String × Json)} {d : ActDuration}
    (h : decodeAs reading (.obj fields) = some d) : d.ReadFrom reading fields := by
  obtain ⟨source, h⟩ := exists_of_readRecord h
  obtain ⟨wallClock, hwallClock, h⟩ := reads_of_bind_field h
  obtain ⟨totalTask, htotalTask, h⟩ := reads_of_bind_field h
  obtain rfl := congrArg Prod.fst (Option.some.inj h)
  exact ⟨hwallClock, htotalTask⟩

end ActDuration

namespace Act

/-- The act is what a reader finds in the fields. -/
structure ReadFrom (reading : Reading) (fields : List (String × Json)) (a : Act) : Prop where
  id : Reads reading fields "id" a.id
  workspace : Reads reading fields "workspaceId" a.workspace
  startNode : Reads reading fields "startNodeId" a.startNode
  status : Reads reading fields "status" a.status
  steps : Reads reading fields "steps" a.steps
  duration : Reads reading fields "duration" a.duration
  annotations : Reads reading fields "annotations" a.annotations
  sequences : Reads reading fields "sequences" a.sequences
  createdAt : Reads reading fields "createdAt" a.createdAt

theorem readFrom_of_decodeAs {reading : Reading} {fields : List (String × Json)} {a : Act}
    (h : decodeAs reading (.obj fields) = some a) : a.ReadFrom reading fields := by
  obtain ⟨source, h⟩ := exists_of_readRecord h
  obtain ⟨id, hid, h⟩ := reads_of_bind_field h
  obtain ⟨workspace, hworkspace, h⟩ := reads_of_bind_field h
  obtain ⟨startNode, hstartNode, h⟩ := reads_of_bind_field h
  obtain ⟨status, hstatus, h⟩ := reads_of_bind_fieldOr h
  obtain ⟨steps, hsteps, h⟩ := reads_of_bind_fieldOr h
  obtain ⟨duration, hduration, h⟩ := reads_of_bind_fieldOr h
  obtain ⟨annotations, hannotations, h⟩ := reads_of_bind_fieldOr h
  obtain ⟨sequences, hsequences, h⟩ := reads_of_bind_field h
  obtain ⟨createdAt, hcreatedAt, h⟩ := reads_of_bind_field h
  obtain rfl := congrArg Prod.fst (Option.some.inj h)
  exact ⟨hid, hworkspace, hstartNode, hstatus, hsteps, hduration, hannotations, hsequences,
    hcreatedAt⟩

/-! ## Updates -/

variable {a b : Act} {patches : List Patch}

/-- An accepted update has read the act from the patched form. -/
theorem exists_decode_of_update (h : a.update patches = .ok b) :
    ∃ doc, Patch.applyAll patches (encode a) = .ok doc ∧ decode doc = some b := by
  obtain ⟨doc, hdoc⟩ := exists_of_update h
  refine ⟨doc, hdoc, ?_⟩
  simp only [update, hdoc, bind, Except.bind] at h
  split at h
  · rename_i new hnew
    cases h
    exact hnew
  · cases h

/-- Patches of other fields leave the status alone. -/
theorem status_of_update (h : a.update patches = .ok b)
    (hother : ∀ p ∈ patches, ∃ f : Field, p.path = f.path ∧ f ≠ .status) :
    b.status = a.status := by
  obtain ⟨doc, hdoc, hdecode⟩ := exists_decode_of_update h
  have hold : (encode a).at? ["status"] = some (encode a.status) := rfl
  have hat := Patch.at?_leaf_of_applyAll hdoc hold trivial fun p hp hway => by
    obtain ⟨f, hpath, hf⟩ := hother p hp
    rw [hpath, Field.segments_path] at hway
    cases f <;> simp [Field.segments] at hway hf
  obtain ⟨fields, next, rfl, hnext, hv⟩ := Json.at?_cons hat
  obtain rfl := Option.some.inj hv
  have hread := (readFrom_of_decodeAs hdecode).status _ hnext
  rw [decodeAs_encode] at hread
  exact (Option.some.inj hread).symm

end Act

end Workflow
