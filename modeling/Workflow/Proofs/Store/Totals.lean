/-
Workflow.Proofs.Store.Totals — no update of a stored act is lost.

Commands reach a store one at a time, so whatever several clients send is
some list of commands. The act that is stored at the end is the inserted one
after all batches that were accepted for it, in their order
(`Store.runAll_updates`).

* `Act.count_of_updateAll` — a counter that no accepted patch sets has
  counted every increment and decrement.
* `Act.annotations_of_updateAll` — annotations that were only pushed to have
  every push at their end.
* `no_update_lost` — both, for any history of a store.

Counting stops at the bound of 64-bit integers, so totals are exact as long
as the running total stays below it.
-/
import Mathlib.Algebra.BigOperators.Group.List.Basic
import Mathlib.Algebra.Ring.Nat
import Workflow.Proofs.Act.Frame
import Workflow.Store

namespace Workflow

/-! ## What patches add to a place

The sum of what the patches of a batch add is exact as long as it stays in
range at every patch; pushed values are exact in any case. -/

/-- What an operation adds to a counter. -/
def PatchOp.gain : PatchOp → Int
  | .increment n => n.toInt
  | .decrement n => -n.toInt
  | .set _ | .push _ => 0

/-- What an operation appends to an array. -/
def PatchOp.pushed : PatchOp → List Json
  | .push values => values
  | .set _ | .increment _ | .decrement _ => []

namespace Patch

/-- The total of all that patches add to a place. -/
def gains (place : List String) (patches : List Patch) : Int :=
  (patches.map fun p => if segments p.path = place then p.op.gain else 0).sum

/-- Everything that patches push to a place, in order. -/
def pushes (place : List String) (patches : List Patch) : List Json :=
  patches.flatMap fun p => if segments p.path = place then p.op.pushed else []

@[simp] theorem gains_nil (place : List String) : gains place [] = 0 := rfl

@[simp] theorem pushes_nil (place : List String) : pushes place [] = [] := rfl

theorem gains_cons (place : List String) (p : Patch) (rest : List Patch) :
    gains place (p :: rest) =
      (if segments p.path = place then p.op.gain else 0) + gains place rest := by
  simp [gains]

theorem pushes_cons (place : List String) (p : Patch) (rest : List Patch) :
    pushes place (p :: rest) =
      (if segments p.path = place then p.op.pushed else []) ++ pushes place rest := by
  simp [pushes]

theorem gains_append (place : List String) (ps qs : List Patch) :
    gains place (ps ++ qs) = gains place ps + gains place qs := by
  simp [gains]

theorem pushes_append (place : List String) (ps qs : List Patch) :
    pushes place (ps ++ qs) = pushes place ps ++ pushes place qs := by
  simp [pushes]

variable {place : List String} {doc new : Json} {patches : List Patch}

/-- What an accepted amount makes of a number: the sum, kept in range, and not
negative. -/
theorem int_of_add {n amount : Int} {w : Json} (h : add amount (.int n) = .ok w) :
    w = .int (saturate (n + amount)) ∧ 0 ≤ saturate (n + amount) := by
  simp only [add, counter] at h
  split at h
  · simp only [bind, Except.bind] at h
    split at h
    · cases h
    · rename_i hnonneg
      exact ⟨(Except.ok.inj h).symm, by omega⟩
  · cases h

/-- An accepted operation on a counter adds its gain, unless this goes
beyond the bound. -/
theorem edit_gain {op : PatchOp} {n : Int} {w : Json} (h : edit op (.int n) = .ok w)
    (hset : ¬ op.isSet) (hn : 0 ≤ n) (hbound : n + op.gain ≤ 2 ^ 63 - 1) :
    w = .int (n + op.gain) ∧ 0 ≤ n + op.gain := by
  cases op with
  | set value => exact absurd rfl hset
  | push values => cases h
  | increment k =>
    obtain ⟨rfl, hnonneg⟩ := int_of_add h
    have hlow := Int64.le_toInt k
    simp only [PatchOp.gain] at hbound ⊢
    have hexact : saturate (n + k.toInt) = n + k.toInt := saturate_eq (by omega) (by omega)
    exact ⟨congrArg Json.int hexact, hexact ▸ hnonneg⟩
  | decrement k =>
    obtain ⟨rfl, hnonneg⟩ := int_of_add h
    have hhigh := Int64.toInt_lt k
    simp only [PatchOp.gain] at hbound ⊢
    have hamount : saturate (-k.toInt) = -k.toInt := saturate_eq (by omega) (by omega)
    have hexact : saturate (n + saturate (-k.toInt)) = n + -k.toInt := by
      rw [hamount]
      exact saturate_eq (by omega) (by omega)
    exact ⟨congrArg Json.int hexact, hexact ▸ hnonneg⟩

/-- A number that no accepted patch sets is exact after the batch. The running
total has to stay within the bound at every patch, since what is cut off once
is lost. -/
theorem at?_count_of_applyAll {n : Int} (h : applyAll patches doc = .ok new)
    (hv : doc.at? place = some (.int n)) (hn : 0 ≤ n)
    (hset : ∀ p ∈ patches, ¬ p.Overwrites place)
    (hbound : ∀ qs, qs <+: patches → n + gains place qs ≤ 2 ^ 63 - 1) :
    new.at? place = some (.int (n + gains place patches)) ∧ 0 ≤ n + gains place patches := by
  induction patches generalizing doc n with
  | nil =>
    obtain rfl := Except.ok.inj h
    simpa using ⟨hv, hn⟩
  | cons p rest ih =>
    obtain ⟨next, hp, hrest⟩ := applyAll_cons_eq_ok h
    have hnot := hset p List.mem_cons_self
    -- the counter after the first patch, and the bound for the others
    have hfirst : next.at? place =
        some (.int (n + if segments p.path = place then p.op.gain else 0)) ∧
        0 ≤ n + if segments p.path = place then p.op.gain else 0 := by
      rcases at?_of_apply_leaf hp hv trivial fun _ => hnot with ⟨hpath, w, hw, hat⟩ | ⟨hpath, hat⟩
      · have hone := hbound [p] (List.cons_prefix_cons.mpr ⟨rfl, List.nil_prefix⟩)
        simp only [gains_cons, gains_nil, hpath, if_true, Int.add_zero] at hone ⊢
        obtain ⟨rfl, hnonneg⟩ :=
          edit_gain hw (fun hop => hnot ⟨hpath ▸ List.prefix_rfl, hop⟩) hn hone
        exact ⟨hat, hnonneg⟩
      · simp [hpath, hat, hn]
    have hlast := ih hrest hfirst.1 hfirst.2 (fun q hq => hset q (List.mem_cons_of_mem p hq))
      fun qs hqs => by
        have hqs' := hbound (p :: qs) (List.cons_prefix_cons.mpr ⟨rfl, hqs⟩)
        rw [gains_cons] at hqs'
        omega
    rwa [gains_cons, ← Int.add_assoc]

/-- Whether a patch has nothing to do with a place but to push there. -/
def PushesOnly (p : Patch) (place : List String) : Prop :=
  segments p.path = place ∧ p.op.isPush ∨
    ¬ segments p.path <+: place ∧ ¬ place <+: segments p.path

instance (p : Patch) (place : List String) : Decidable (p.PushesOnly place) :=
  inferInstanceAs (Decidable (_ ∧ _ ∨ _ ∧ _))

/-- An array that patches only push to has all of it at its end. -/
theorem at?_pushes_of_applyAll {items : List Json} (h : applyAll patches doc = .ok new)
    (hv : doc.at? place = some (.arr items)) (honly : ∀ p ∈ patches, p.PushesOnly place) :
    new.at? place = some (.arr (items ++ pushes place patches)) := by
  induction patches generalizing doc items with
  | nil =>
    obtain rfl := Except.ok.inj h
    simpa using hv
  | cons p rest ih =>
    obtain ⟨next, hp, hrest⟩ := applyAll_cons_eq_ok h
    have hp' := honly p List.mem_cons_self
    have hfirst : next.at? place =
        some (.arr (items ++ if segments p.path = place then p.op.pushed else [])) := by
      -- the patch pushes to this array, or leads neither to it nor into it
      rcases hp' with ⟨hpath, hpush⟩ | ⟨hway, hinside⟩
      · obtain ⟨values, hvalues⟩ : ∃ values, p.op = .push values := by
          cases hop : p.op <;> simp [hop, PatchOp.isPush] at hpush ⊢
        rcases at?_of_apply hp hv fun hne => absurd hpath hne with
          ⟨within, w, hwithin, hw, hat⟩ | ⟨houtside, -⟩
        · obtain rfl : within = [] := List.append_right_eq_self.mp (hwithin.symm.trans hpath)
          rw [hvalues] at hw
          obtain rfl : Json.arr (items ++ values) = w := congrArg Prod.fst hw
          simpa [hpath, hvalues, PatchOp.pushed] using hat
        · exact absurd (hpath ▸ List.prefix_rfl) houtside
      · have hne : segments p.path ≠ place := fun heq => hway (heq ▸ List.prefix_rfl)
        rcases at?_of_apply hp hv fun _ hover => hway hover.1 with
          ⟨within, w, hwithin, -⟩ | ⟨-, hat⟩
        · exact absurd ⟨within, hwithin.symm⟩ hinside
        · simpa [hne] using hat
    have hlast := ih hrest hfirst fun q hq => honly q (List.mem_cons_of_mem p hq)
    rwa [pushes_cons, ← List.append_assoc]

end Patch

/-! ## Counters and annotations of an act -/

namespace Act

variable {a b : Act} {f : Field} {n : UInt64} {patches : List Patch}

theorem at?_count (h : a.count? f = some n) :
    (encode a).at? f.segments = some (.int (n.toNat : Int)) := by
  cases f <;> cases h <;> rfl

/-- The way back: the counter is what stands at its place. -/
theorem count_of_decode {doc v : Json} (h : decode doc = some b)
    (hv : doc.at? f.segments = some v) (hf : (a.count? f).isSome) :
    ∃ m, b.count? f = some m ∧ decode v = some m := by
  -- counters of steps stand in one part of the act, times in another
  have hsteps {key : String} (hv : doc.at? ["steps", key] = some v) :
      ∃ fields, b.steps.ReadFrom .direct fields ∧ Fields.get? key fields = some v := by
    obtain ⟨fields, next, rfl, hnext, hat⟩ := Json.at?_cons hv
    obtain ⟨inner, w, rfl, hw, hat⟩ := Json.at?_cons hat
    obtain rfl : w = v := by simpa using hat
    have hread := (readFrom_of_decodeAs h).steps _ hnext
    exact ⟨inner, StepCounts.readFrom_of_decodeAs hread, hw⟩
  have hduration {key : String} (hv : doc.at? ["duration", key] = some v) :
      ∃ fields, b.duration.ReadFrom .direct fields ∧ Fields.get? key fields = some v := by
    obtain ⟨fields, next, rfl, hnext, hat⟩ := Json.at?_cons hv
    obtain ⟨inner, w, rfl, hw, hat⟩ := Json.at?_cons hat
    obtain rfl : w = v := by simpa using hat
    have hread := (readFrom_of_decodeAs h).duration _ hnext
    exact ⟨inner, ActDuration.readFrom_of_decodeAs hread, hw⟩
  cases f with
  | stepsQueued =>
    obtain ⟨fields, hread, hget⟩ := hsteps hv
    exact ⟨_, rfl, hread.queued v hget⟩
  | stepsInProgress =>
    obtain ⟨fields, hread, hget⟩ := hsteps hv
    exact ⟨_, rfl, hread.inProgress v hget⟩
  | stepsCompleted =>
    obtain ⟨fields, hread, hget⟩ := hsteps hv
    exact ⟨_, rfl, hread.completed v hget⟩
  | stepsFailed =>
    obtain ⟨fields, hread, hget⟩ := hsteps hv
    exact ⟨_, rfl, hread.failed v hget⟩
  | wallClock =>
    obtain ⟨fields, hread, hget⟩ := hduration hv
    exact ⟨_, rfl, hread.wallClock v hget⟩
  | totalTask =>
    obtain ⟨fields, hread, hget⟩ := hduration hv
    exact ⟨_, rfl, hread.totalTask v hget⟩
  | _ => cases hf

/-- A number that is read as a counter is the number. -/
theorem toNat_of_decode {n : Int} {m : UInt64} (h : decode (Json.int n) = some m) :
    (m.toNat : Int) = n := by
  have hread : (if 0 ≤ n ∧ n < 0x10000000000000000 then some (UInt64.ofNat n.toNat) else none) =
      some m := h
  split at hread
  · rename_i hrange
    obtain rfl := Option.some.inj hread
    have hlt : n.toNat < 2 ^ 64 := by omega
    rw [UInt64.toNat_ofNat_of_lt' hlt]
    omega
  · cases hread

/-- A counter after one accepted batch. -/
theorem count_of_update (h : a.update patches = .ok b) (hn : a.count? f = some n)
    (hset : ∀ p ∈ patches, ¬ p.Overwrites f.segments)
    (hbound : ∀ qs, qs <+: patches → n.toNat + Patch.gains f.segments qs ≤ 2 ^ 63 - 1) :
    ∃ m, b.count? f = some m ∧ (m.toNat : Int) = n.toNat + Patch.gains f.segments patches := by
  obtain ⟨doc, hdoc, hdecode⟩ := exists_decode_of_update h
  obtain ⟨hat, -⟩ := Patch.at?_count_of_applyAll hdoc (at?_count hn) (Int.natCast_nonneg _)
    hset hbound
  obtain ⟨m, hm, hread⟩ := count_of_decode (a := a) hdecode hat (by simp [hn])
  exact ⟨m, hm, toNat_of_decode hread⟩

/-- The annotations after one accepted batch. -/
theorem annotations_of_update (h : a.update patches = .ok b)
    (honly : ∀ p ∈ patches, p.PushesOnly Field.annotations.segments) :
    ∃ notes, decodeList .direct (Patch.pushes Field.annotations.segments patches) = some notes ∧
      b.annotations = a.annotations ++ notes := by
  obtain ⟨doc, hdoc, hdecode⟩ := exists_decode_of_update h
  have hold : (encode a).at? Field.annotations.segments =
      some (.arr (a.annotations.map encode)) := rfl
  have hat := Patch.at?_pushes_of_applyAll hdoc hold honly
  obtain ⟨fields, next, rfl, hnext, hv⟩ := Json.at?_cons hat
  obtain rfl := Option.some.inj hv
  have hread : decodeList .direct (a.annotations.map encode ++ _) = some b.annotations :=
    (readFrom_of_decodeAs hdecode).annotations _ hnext
  rw [decodeList, List.mapM_append, Option.bind_eq_bind, Option.bind_eq_some_iff] at hread
  obtain ⟨old, hold, hread⟩ := hread
  obtain ⟨notes, hnotes, hall⟩ := Option.bind_eq_some_iff.mp hread
  obtain rfl : a.annotations = old :=
    Option.some.inj ((decodeList_map_encode .direct a.annotations).symm.trans hold)
  exact ⟨notes, hnotes, (Option.some.inj hall).symm⟩

/-! ## Batches after each other -/

/-- The act after one batch after the other, if all are accepted. -/
def updateAll (batches : List (List Patch)) (a : Act) : Except PatchError Act :=
  batches.foldlM (fun a patches => a.update patches) a

/-- The first of several batches was accepted, and then the others. -/
theorem updateAll_cons_eq_ok {batches : List (List Patch)}
    (h : a.updateAll (patches :: batches) = .ok b) :
    ∃ next, a.update patches = .ok next ∧ next.updateAll batches = .ok b := by
  cases hnext : a.update patches with
  | error e => simp [updateAll, hnext, bind, Except.bind] at h
  | ok next => exact ⟨next, rfl, by simpa [updateAll, hnext, bind, Except.bind] using h⟩

/-- A counter after several accepted batches, by induction on them: each starts
from what the ones before have counted. -/
theorem count_of_updateAll {batches : List (List Patch)} (h : a.updateAll batches = .ok b)
    (hn : a.count? f = some n) (hset : ∀ p ∈ batches.flatten, ¬ p.Overwrites f.segments)
    (hbound : ∀ qs, qs <+: batches.flatten →
      n.toNat + Patch.gains f.segments qs ≤ 2 ^ 63 - 1) :
    ∃ m, b.count? f = some m ∧
      (m.toNat : Int) = n.toNat + Patch.gains f.segments batches.flatten := by
  induction batches generalizing a n with
  | nil =>
    obtain rfl := Except.ok.inj h
    exact ⟨n, hn, by simp⟩
  | cons patches rest ih =>
    obtain ⟨next, hnext, hrest⟩ := updateAll_cons_eq_ok h
    simp only [List.flatten_cons, List.mem_append] at hset hbound ⊢
    obtain ⟨k, hk, hfirst⟩ := count_of_update hnext hn (fun p hp => hset p (Or.inl hp))
      fun qs hqs => hbound qs (hqs.trans (List.prefix_append patches _))
    obtain ⟨m, hm, hlast⟩ := ih hrest hk (fun p hp => hset p (Or.inr hp)) fun qs hqs => by
      have hqs' := hbound (patches ++ qs) ((List.prefix_append_right_inj patches).mpr hqs)
      rw [Patch.gains_append] at hqs'
      omega
    refine ⟨m, hm, ?_⟩
    rw [Patch.gains_append]
    omega

/-- The annotations after several accepted batches. -/
theorem annotations_of_updateAll {batches : List (List Patch)} (h : a.updateAll batches = .ok b)
    (honly : ∀ p ∈ batches.flatten, p.PushesOnly Field.annotations.segments) :
    ∃ notes,
      decodeList .direct (Patch.pushes Field.annotations.segments batches.flatten) = some notes ∧
      b.annotations = a.annotations ++ notes := by
  induction batches generalizing a with
  | nil =>
    obtain rfl := Except.ok.inj h
    exact ⟨[], rfl, by simp⟩
  | cons patches rest ih =>
    obtain ⟨next, hnext, hrest⟩ := updateAll_cons_eq_ok h
    simp only [List.flatten_cons, List.mem_append] at honly ⊢
    obtain ⟨first, hfirst, hnotes⟩ := annotations_of_update hnext fun p hp => honly p (Or.inl hp)
    obtain ⟨others, hothers, hall⟩ := ih hrest fun p hp => honly p (Or.inr hp)
    refine ⟨first ++ others, ?_, by rw [hall, hnotes, List.append_assoc]⟩
    rw [decodeList] at hfirst hothers ⊢
    simp [Patch.pushes_append, List.mapM_append, hfirst, hothers]

end Act

/-! ## Histories of a store -/

namespace Store

variable {s : Store} {id : ActId} {a : Act}

/-- The batch that a command had accepted for an act. -/
def Command.accepted? (id : ActId) : Command → Answer → Option (List Patch)
  | .apply key patches, .done => if key = id then some patches else none
  | _, _ => none

/-- The batches that commands had accepted for an act, in order. -/
def accepted (id : ActId) (commands : List Command) (answers : List Answer) :
    List (List Patch) :=
  (commands.zip answers).filterMap fun e => e.1.accepted? id e.2

theorem accepted_cons (c : Command) (answer : Answer) (commands : List Command)
    (answers : List Answer) :
    accepted id (c :: commands) (answer :: answers) =
      (c.accepted? id answer).toList ++ accepted id commands answers := by
  cases h : c.accepted? id answer <;> simp [accepted, h]

/-- One command changes an act by the batch that it had accepted, if any. -/
theorem run_updates {c : Command} (hopen : s.isClosed = false) (ha : s.get? id = some a)
    (hinsert : ∀ b, c = .insert b → b.id ≠ id) :
    (s.run c).1.isClosed = false ∧
    ∃ b, (s.run c).1.get? id = some b ∧
      a.updateAll (c.accepted? id (s.run c).2).toList = .ok b ∧
      (s.run c).1.logOf id = s.logOf id ++ (c.accepted? id (s.run c).2).toList.flatten := by
  -- a command that changes nothing of the act has no batch accepted for it
  have hsame (answer : Answer) (hnone : c.accepted? id answer = none) :
      ∃ b, s.get? id = some b ∧ a.updateAll (c.accepted? id answer).toList = .ok b ∧
        s.logOf id = s.logOf id ++ (c.accepted? id answer).toList.flatten :=
    ⟨a, ha, by rw [hnone]; rfl, by simp [hnone]⟩
  cases c with
  | get key =>
    simp only [run, hopen]
    exact ⟨hopen, hsame _ rfl⟩
  | log key =>
    simp only [run, hopen]
    exact ⟨hopen, hsame _ rfl⟩
  | insert b =>
    have hne := hinsert b rfl
    simp only [run, hopen, Bool.false_eq_true, if_false]
    refine ⟨hopen, a, ?_, rfl, ?_⟩
    · exact (Table.get?_insert_of_ne hne).trans ha
    · simp [logOf, insert, Table.get?_insert_of_ne hne, Command.accepted?]
  | apply key patches =>
    simp only [run, hopen, Bool.false_eq_true, if_false]
    split
    · rename_i s' happly
      simp only [apply, hopen, Bool.false_eq_true, if_false] at happly
      split at happly
      · cases happly
      · rename_i old hold
        split at happly
        · cases happly
        · rename_i new hnew
          obtain rfl := Except.ok.inj happly
          refine ⟨rfl, ?_⟩
          by_cases hkey : key = id
          · subst hkey
            obtain rfl := Option.some.inj (hold.symm.trans ha)
            refine ⟨new, Table.get?_insert_self .., ?_, ?_⟩
            · simp [Command.accepted?, Act.updateAll, hnew, bind, Except.bind, pure, Except.pure]
            · simp [logOf, Command.accepted?]
          · refine ⟨a, (Table.get?_insert_of_ne hkey).trans ha, ?_, ?_⟩
            · simp [Command.accepted?, hkey, Act.updateAll, pure, Except.pure]
            · simp [logOf, Table.get?_insert_of_ne hkey, Command.accepted?, hkey]
    · exact ⟨hopen, hsame _ rfl⟩

/-- The act that is stored at the end, and its log, come of the batches that
were accepted. -/
theorem runAll_updates {commands : List Command} (hopen : s.isClosed = false)
    (ha : s.get? id = some a) (hinsert : ∀ b, .insert b ∈ commands → b.id ≠ id) :
    let batches := accepted id commands (s.runAll commands).2
    ∃ b, (s.runAll commands).1.get? id = some b ∧ a.updateAll batches = .ok b ∧
      (s.runAll commands).1.logOf id = s.logOf id ++ batches.flatten := by
  induction commands generalizing s a with
  | nil => exact ⟨a, ha, rfl, by simp [accepted, runAll]⟩
  | cons c rest ih =>
    obtain ⟨hopen', next, hnext, hupdate, hlog⟩ := run_updates hopen ha
      fun b hc => hinsert b (hc ▸ List.mem_cons_self)
    obtain ⟨b, hb, hall, hlogs⟩ := ih hopen' hnext
      fun b hc => hinsert b (List.mem_cons_of_mem c hc)
    simp only [runAll, accepted_cons]
    refine ⟨b, hb, ?_, ?_⟩
    · rw [Act.updateAll, List.foldlM_append]
      rw [Act.updateAll] at hupdate hall
      rw [hupdate]
      exact hall
    · rw [hlogs, hlog, List.flatten_append, List.append_assoc]

/-- **No update is lost.** After an act was inserted, its counters and its
annotations are what the accepted batches, as logged, make of the inserted
ones: each counter that none of them sets is exact as long as the running
total stays within the bound, and annotations that are only pushed to have
every push at their end. Nothing else that reaches the store counts. -/
theorem no_update_lost (hopen : s.isClosed = false) (a : Act) (commands : List Command)
    (hinsert : ∀ b, .insert b ∈ commands → b.id ≠ a.id) :
    let history := (s.run (.insert a)).1.runAll commands
    let patches := (accepted a.id commands history.2).flatten
    ∃ b, history.1.get? a.id = some b ∧ history.1.logOf a.id = patches ∧
      (∀ f n, a.count? f = some n → (∀ p ∈ patches, ¬ p.Overwrites f.segments) →
        (∀ qs, qs <+: patches → n.toNat + Patch.gains f.segments qs ≤ 2 ^ 63 - 1) →
        ∃ m, b.count? f = some m ∧
          (m.toNat : Int) = n.toNat + Patch.gains f.segments patches) ∧
      ((∀ p ∈ patches, p.PushesOnly Field.annotations.segments) →
        ∃ notes, decodeList .direct (Patch.pushes Field.annotations.segments patches) =
            some notes ∧ b.annotations = a.annotations ++ notes) := by
  have hinserted : (s.run (.insert a)).1 = s.insert a := by simp [run, hopen]
  have ha : (s.insert a).get? a.id = some a := Table.get?_insert_self ..
  have hlog : (s.insert a).logOf a.id = [] := by simp [logOf, insert]
  obtain ⟨b, hb, hupdate, hlogs⟩ := runAll_updates (s := s.insert a) hopen ha hinsert
  rw [hinserted]
  refine ⟨b, hb, by rw [hlogs, hlog, List.nil_append], ?_, ?_⟩
  · intro f n hn hset hbound
    exact Act.count_of_updateAll hupdate hn hset hbound
  · intro honly
    exact Act.annotations_of_updateAll hupdate honly

def sampleAct : Act := { (default : Act) with id := ⟨"act-1"⟩, steps := ⟨3, 0, 0, 0⟩ }

/-- What two clients send, by turns: the second batch is refused for its
second patch, and the third is for another act. -/
def sampleCommands : List Command :=
  let completed := Field.stepsCompleted
  [.apply sampleAct.id [completed.increment 2, Field.annotations.push [ Annotation.info "one"]],
    .apply sampleAct.id [completed.increment 5, Field.stepsFailed.decrement 1],
    .insert { sampleAct with id := ⟨"act-2"⟩ }, .apply ⟨"act-2"⟩ [completed.increment 7],
    .get sampleAct.id,
    .apply sampleAct.id [completed.decrement 1, Field.annotations.push [ Annotation.info "two"]],
    .log sampleAct.id]

theorem sample_no_update_lost :
    (empty.isClosed = false ∧ ∀ b, .insert b ∈ sampleCommands → b.id ≠ sampleAct.id) ∧
    ∃ b, ((empty.run (.insert sampleAct)).1.runAll sampleCommands).1.get? sampleAct.id = some b ∧
      b.steps.completed = 1 ∧ b.annotations = [ Annotation.info "one", Annotation.info "two"] := by
  have hinsert : ∀ b, .insert b ∈ sampleCommands → b.id ≠ sampleAct.id := by
    intro b hb
    simp only [sampleCommands, List.mem_cons, Command.insert.injEq, reduceCtorEq, false_or,
      or_false, List.not_mem_nil] at hb
    subst hb
    decide
  obtain ⟨b, hb, -, hcount, hnotes⟩ := no_update_lost (s := empty) rfl sampleAct sampleCommands
    hinsert
  refine ⟨⟨rfl, hinsert⟩, b, hb, ?_, ?_⟩
  · obtain ⟨m, hm, htotal⟩ := hcount .stepsCompleted 0 rfl (by decide +kernel) fun qs hqs => by
      have hall : ∀ qs ∈ (accepted sampleAct.id sampleCommands
          ((empty.run (.insert sampleAct)).1.runAll sampleCommands).2).flatten.inits,
          0 + Patch.gains Field.stepsCompleted.segments qs ≤ 2 ^ 63 - 1 := by decide +kernel
      exact hall qs ((List.mem_inits qs _).mpr hqs)
    obtain rfl : b.steps.completed = m := Option.some.inj hm
    have hone : (b.steps.completed.toNat : Int) = (1 : UInt64).toNat :=
      htotal.trans (by decide +kernel)
    exact UInt64.toNat_inj.mp (Int.ofNat_inj.mp hone)
  · obtain ⟨notes, hread, hall⟩ := hnotes (by decide +kernel)
    have hdecoded : decodeList .direct
        (Patch.pushes Field.annotations.segments (accepted sampleAct.id
          sampleCommands ((empty.run (.insert sampleAct)).1.runAll sampleCommands).2).flatten) =
        some [ Annotation.info "one", Annotation.info "two"] := by decide +kernel
    rw [hall, Option.some.inj (hread.symm.trans hdecoded)]
    rfl

end Store

end Workflow
