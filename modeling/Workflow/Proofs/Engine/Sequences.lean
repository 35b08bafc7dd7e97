/-
Workflow.Proofs.Engine.Sequences — what an accepted batch does to the
sequences of an act.

The counters of a stored act may be anything, so a batch that counts may be
refused. Once it is accepted, its counts are harmless: opening a sequence
opens just this one, and closing it closes just this one. Nothing is asked
of the act (`opened_of_update`, `closed_of_update`).
-/
import Workflow.Proofs.Store.Totals
import Workflow.Proofs.Engine.Batch
import Workflow.Proofs.Engine.Progress

namespace Workflow

/-! ## Places in a list -/

namespace Patch

variable {edit : Json → Except Fault Json} {rest : List String}

theorem fault_item {i : Nat} {items : List Json} {item : Json} (hi : i < 2 ^ 64)
    (hget : items[i]? = some item) :
    (editAt edit (toString i :: rest) (.arr items)).2 = (editAt edit rest item).2 := by
  have hread : Text.readUnsigned (toString i).toList = some i := by
    rw [Text.readUnsigned_toString, if_pos hi]
  simp only [editAt, hread, hget]

end Patch

namespace Act

variable {a b c : Act} {k : Nat} {s : Sequence} {patches more : List Patch} {new : Json}

/-- The position of a step that is written to can be told. -/
theorem step_lt_of_apply {j : Nat} {status : Status} (hs : a.sequences[k]? = some s)
    (h : ((Field.stepStatus k j).set status).apply (encode a) = .ok new) : j < 2 ^ 64 := by
  have hfault := Patch.fault_eq_none h
  rw [Field.set, Field.segments_path, Field.segments, fault_sequences] at hfault
  have hk : k < 2 ^ 64 := Patch.lt_of_fault_item hfault
  have hitem : (a.sequences.map encode)[k]? = some (encode s) := by
    rw [List.getElem?_map, hs]
    rfl
  rw [show encode a.sequences = Json.arr (a.sequences.map encode) from rfl,
    Patch.fault_item hk hitem, Sequence.encode_eq] at hfault
  obtain ⟨id, state, steps, ms⟩ := s
  cases ms <;>
    exact Patch.lt_of_fault_item ((@Patch.fault_key _ _ _ _ (encode steps) rfl).symm.trans hfault)

/-! ## Accepted batches

A batch is followed patch by patch: each one was accepted, so the act had room
for it, and the rest was accepted after it. -/

/-- The batch is accepted, as far as its patches go. -/
def Accepts (a : Act) (patches : List Patch) : Prop :=
  ∃ new, Patch.applyAll patches (encode a) = .ok new

/-- What is left of an accepted batch is accepted after its first part. -/
theorem Takes.accepts (h : a.Takes patches b) (hall : a.Accepts (patches ++ more)) :
    b.Accepts more := by
  obtain ⟨new, hnew⟩ := hall
  exact ⟨new, h.rest hnew⟩

/-- The act has other counts, perhaps, and is the same otherwise. -/
structure Recounts (a b : Act) : Prop where
  status_eq : b.status = a.status
  sequences_eq : b.sequences = a.sequences

/-- A count that is accepted is a count. -/
theorem exists_takes_count {f : Field} {op : PatchOp} {n : UInt64} (hn : a.count? f = some n)
    (hall : a.Accepts (⟨f.path, op⟩ :: more)) (hset : ¬ op.isSet) :
    ∃ b, a.Takes [⟨f.path, op⟩] b ∧ a.Recounts b ∧ b.Accepts more := by
  obtain ⟨new, hnew⟩ := hall
  obtain ⟨next, hnext, -⟩ := Patch.applyAll_cons_eq_ok hnew
  have hfault := Patch.fault_eq_none hnext
  have hthere := (Patch.editAt_append (Patch.edit op) [] (at?_count hn)).1
  rw [List.append_nil] at hthere
  rw [f.segments_path, hthere] at hfault
  obtain ⟨w, hw⟩ := Patch.exists_of_fault_nil hfault
  -- whichever way was counted, the result is a counter again
  obtain ⟨m, rfl⟩ : ∃ m : UInt64, w = encode m := by
    obtain ⟨amount, hadd⟩ : ∃ amount, Patch.add amount (.int n.toNat) = .ok w := by
      cases op with
      | set value => exact absurd rfl hset
      | push values => cases hw
      | increment amount => exact ⟨_, hw⟩
      | decrement amount => exact ⟨_, hw⟩
    obtain ⟨rfl, hlow⟩ := Patch.int_of_add hadd
    refine ⟨UInt64.ofNat (Patch.saturate (n.toNat + amount)).toNat, ?_⟩
    rw [Counter.encode_ofNat, Int.toNat_of_nonneg hlow]
    rw [Patch.saturate] at hlow ⊢
    omega
  have hplace : f.IsIn a ∧ f.formIn a = .int n.toNat ∧
      ∃ v, f.form v = encode m ∧ a.Recounts (f.put a v) := by
    cases f <;> cases hn <;> exact ⟨trivial, rfl, m, rfl, rfl, rfl⟩
  obtain ⟨hin, hform, v, hv, hsame⟩ := hplace
  have htakes : a.Takes [⟨f.path, op⟩] (f.put a v) :=
    takes_patch hin (by rw [hform, hv, hw])
  exact ⟨_, htakes, hsame, htakes.accepts ⟨new, hnew⟩⟩

/-- A count of nothing is left out of the batch. -/
theorem exists_takes_unlessZero {f : Field} {k : Nat} {n : UInt64} (hn : a.count? f = some n)
    (hall : a.Accepts (Batch.unlessZero k f.increment ++ more)) :
    ∃ b, a.Takes (Batch.unlessZero k f.increment) b ∧ a.Recounts b ∧ b.Accepts more := by
  unfold Batch.unlessZero at hall ⊢
  split
  · rename_i hzero
    rw [if_pos hzero] at hall
    exact ⟨a, .nil a, ⟨rfl, rfl⟩, hall⟩
  · rename_i hzero
    rw [if_neg hzero] at hall
    exact exists_takes_count hn hall Bool.false_ne_true

/-- Patches for one step after the other are only accepted if the positions
of the steps can be told. -/
theorem length_le_of_accepts {β : Type} (more : List Patch) (patches : Nat → β → List Patch)
    (change : Step → β → Step)
    (hpatches : ∀ (a : Act) (j : Nat) (b : β), j < 2 ^ 64 → (a.step? k j).isSome →
      a.Takes (patches j b) (a.modifySequence k (·.modifyStep j (change · b))))
    (hindex : ∀ (a : Act) (s : Sequence) (j : Nat) (b : β) (more : List Patch),
      a.sequences[k]? = some s → a.Accepts (patches j b ++ more) → j < 2 ^ 64)
    (bs : List β) {i : Nat} (hs : a.sequences[k]? = some s)
    (hlength : i + bs.length = s.steps.length) (hi : i ≤ 2 ^ 64)
    (hall : a.Accepts (((bs.zipIdx i).flatMap fun (b, j) => patches j b) ++ more)) :
    s.steps.length ≤ 2 ^ 64 := by
  induction bs generalizing a i s with
  | nil => exact hlength ▸ hi
  | cons b rest ih =>
    rw [List.length_cons] at hlength
    rw [List.zipIdx_cons, List.flatMap_cons, List.append_assoc] at hall
    have hlt : i < 2 ^ 64 := hindex a s i b _ hs hall
    have hstep : (a.step? k i).isSome := by
      rw [step?, hs, Option.bind_some, List.getElem?_eq_getElem (by omega)]
      rfl
    have hmodified := getElem?_modifySequence (f := (·.modifyStep i (change · b))) hs
    have hsteps : (s.modifyStep i (change · b)).steps.length = s.steps.length :=
      List.length_modify ..
    have hrest := (hpatches a i b hlt hstep).accepts hall
    exact hsteps ▸ ih hmodified (by omega) (by omega) hrest

/-! ## The two batches of a sequence -/

/-- One sequence of the act is changed, and its counts perhaps. -/
structure Alters (a : Act) (k : Nat) (f : Sequence → Sequence) (b : Act) : Prop where
  status_eq : b.status = a.status
  sequences_eq : b.sequences = a.sequences.modify k f

/-- An opening that is accepted opens its sequence. -/
theorem opened_of_update (hs : a.sequences[k]? = some s)
    (h : a.update (Batch.opening k s) = .ok b) : k < 2 ^ 64 ∧ a.Alters k (·.opened) b := by
  have hall : a.Accepts (Batch.opening k s) := exists_of_update h
  rw [opening_eq] at hall
  obtain ⟨a₁, h₁, hsame₁, hall⟩ := exists_takes_count (f := .stepsQueued) rfl
    hall Bool.false_ne_true
  obtain ⟨a₂, h₂, hsame₂, hall⟩ := exists_takes_count (f := .stepsInProgress) rfl
    hall Bool.false_ne_true
  have hs₂ : a₂.sequences[k]? = some s := by rwa [hsame₂.sequences_eq, hsame₁.sequences_eq]
  -- the patch of the sequence's status was accepted, so its position can be written
  have hk : k < 2 ^ 64 := by
    obtain ⟨new, hnew⟩ := hall
    obtain ⟨next, hnext, -⟩ := Patch.applyAll_cons_eq_ok hnew
    exact index_lt_of_apply hnext
  let a₃ := (Field.sequenceStatus k).put a₂ .running
  have h₃ : a₂.Takes [(Field.sequenceStatus k).set Status.running] a₃ :=
    takes_set ⟨hk, Option.isSome_of_eq_some hs₂⟩ rfl
  have hs₃ : a₃.sequences[k]? = some { s with status := .running } := getElem?_modifySequence hs₂
  have hpatches : ∀ (a : Act) (j : Nat) (_ : Step), j < 2 ^ 64 → (a.step? k j).isSome →
      a.Takes [(Field.stepStatus k j).set Status.running]
        (a.modifySequence k (·.modifyStep j (·.opened))) :=
    fun a j _ hj hstep => takes_set ⟨hk, hj, hstep⟩ rfl
  have hlength := length_le_of_accepts [] _ (fun step _ => step.opened) hpatches
    (fun a s j _ more hs hall => by
      obtain ⟨new, hnew⟩ := hall
      obtain ⟨next, hnext, -⟩ := Patch.applyAll_cons_eq_ok hnew
      exact step_lt_of_apply hs hnext)
    s.steps hs₃ (Nat.zero_add _) (Nat.zero_le _) (by rw [List.append_nil]; exact h₃.accepts hall)
  have h₄ := takes_steps _ (fun step _ => step.opened) hpatches s.steps hs₃ (Nat.zero_add _) hlength
  have htakes := (h₁.cons (h₂.cons (h₃.cons h₄)))
  rw [opening_eq] at h
  obtain rfl := Except.ok.inj (h.symm.trans htakes.update_eq)
  have hopened : a₃.modifySequence k (·.changeFrom (fun step _ => step.opened) 0 s.steps) =
      a₂.modifySequence k (·.opened) := by
    refine (modifySequence_modifySequence a₂ k _ _).trans (modifySequence_congr hs₂ ?_)
    simp [Sequence.changeFrom, Sequence.opened, List.zipWith_self]
  refine ⟨hk, hsame₂.status_eq.trans hsame₁.status_eq, ?_⟩
  rw [hopened, modifySequence, hsame₂.sequences_eq, hsame₁.sequences_eq]

/-- A closing that is accepted closes its sequence. -/
theorem closed_of_update {t : Sequence} {reports : List StepReport} {ms : Nat} (hk : k < 2 ^ 64)
    (ht : a.sequences[k]? = some t) (hreports : reports.length = t.steps.length)
    (h : a.update (Batch.closing k s reports ms) = .ok b) :
    a.Alters k (·.closed reports ms) b := by
  have hall : a.Accepts (Batch.closing k s reports ms) := exists_of_update h
  simp only [Batch.closing, stepEnds_eq, List.append_assoc] at hall h
  have hpatches : ∀ (a : Act) (j : Nat) (r : StepReport), j < 2 ^ 64 → (a.step? k j).isSome →
      a.Takes (Batch.stepEnd k j r) (a.modifySequence k (·.modifyStep j (·.closed r))) :=
    fun a j r hj hstep => takes_stepEnd hk r hj hstep
  -- a patch of a step is accepted only if a position has room in 64 bits
  have hlength := length_le_of_accepts _ _ Step.closed hpatches
    (fun a s j r more hs hall => by
      obtain ⟨new, hnew⟩ := hall
      obtain ⟨next, hnext, -⟩ := Patch.applyAll_cons_eq_ok hnew
      exact step_lt_of_apply hs hnext)
    reports ht ((Nat.zero_add _).trans hreports) (Nat.zero_le _) hall
  -- what the accepted batch has made of the act, part after part
  have h₁ := takes_steps (i := 0) _ Step.closed hpatches reports ht (by omega) hlength
  obtain ⟨a₂, h₂, hsame₂, hall⟩ := exists_takes_count (f := .stepsInProgress) rfl
    (h₁.accepts hall) Bool.false_ne_true
  obtain ⟨a₃, h₃, hsame₃, hall⟩ := exists_takes_unlessZero (f := .stepsCompleted) rfl hall
  obtain ⟨a₄, h₄, hsame₄, hall⟩ := exists_takes_unlessZero (f := .stepsFailed) rfl hall
  obtain ⟨a₅, h₅, hsame₅, -⟩ := exists_takes_count (f := .totalTask) rfl
    hall Bool.false_ne_true
  -- counting does not touch the sequences
  have hsequences : a₅.sequences =
      (a.modifySequence k (·.changeFrom Step.closed 0 reports)).sequences := by
    rw [hsame₅.sequences_eq, hsame₄.sequences_eq, hsame₃.sequences_eq, hsame₂.sequences_eq]
  have ht₅ : a₅.sequences[k]? = some (t.changeFrom Step.closed 0 reports) := by
    rw [hsequences, getElem?_modifySequence ht]
  let status := (Tally.ofReports reports).status
  have h₆ : a₅.Takes [(Field.sequenceStatus k).set status] _ :=
    takes_set (v := status) ⟨hk, Option.isSome_of_eq_some ht₅⟩ rfl
  have ht₆ := getElem?_modifySequence (f := ({ · with status := status })) ht₅
  have h₇ := takes_set (a := (Field.sequenceStatus k).put a₅ status) (f := .sequenceDuration k)
    (v := Batch.millis ms) ⟨hk, Option.isSome_of_eq_some ht₆⟩ rfl
  have h₈ := takes_annotate ((Field.sequenceDuration k).put
    ((Field.sequenceStatus k).put a₅ status) (Batch.millis ms))
    (Batch.failures s (s.steps.zip reports))
  have htakes := h₁.append (h₂.cons (h₃.append (h₄.append (h₅.cons (h₆.cons (h₇.cons h₈))))))
  obtain rfl := Except.ok.inj (h.symm.trans htakes.update_eq)
  refine ⟨?_, ?_⟩
  · exact hsame₅.status_eq.trans (hsame₄.status_eq.trans (hsame₃.status_eq.trans hsame₂.status_eq))
  · show (a₅.sequences.modify k _).modify k _ = _
    rw [hsequences]
    have hclosed : ((a.modifySequence k (·.changeFrom Step.closed 0 reports)).modifySequence k
        ({ · with status := status })).modifySequence k
          ({ · with durationMs := some (Batch.millis ms) }) =
        a.modifySequence k (·.closed reports ms) := by
      rw [modifySequence_modifySequence, modifySequence_modifySequence]
      refine modifySequence_congr ht ?_
      simp [Sequence.changeFrom, Sequence.closed, status]
    exact congrArg Act.sequences hclosed

end Act

end Workflow
