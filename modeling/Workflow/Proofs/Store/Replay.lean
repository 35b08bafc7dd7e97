/-
Workflow.Proofs.Store.Replay — the log of an act tells all there is to know.

The log of an act lists every patch that was accepted since the act was
inserted. Applied as one batch to the inserted act, it gives the stored one
(`Store.replay_log`). The store has read and written the act after each
batch, which the replay does not do, so in between the two documents only
stay alike (`Act.replay`).
-/
import Workflow.Proofs.Store.Likeness

namespace Workflow

namespace Act

variable {a b : Act} {batches : List (List Patch)}

/-- All batches as one, applied to a document that is like the form of the act. -/
theorem alike_of_updateAll {x : Json}
    (hfields : ∀ p ∈ batches.flatten, ∃ f : Field, p.path = f.path) (hx : Alike x (encode a))
    (h : a.updateAll batches = .ok b) :
    ∃ y, Patch.applyAll batches.flatten x = .ok y ∧ Alike y (encode b) := by
  induction batches generalizing a x with
  | nil =>
    obtain rfl := Except.ok.inj h
    exact ⟨x, rfl, hx⟩
  | cons patches rest ih =>
    obtain ⟨next, hnext, hrest⟩ := updateAll_cons_eq_ok h
    simp only [List.flatten_cons, List.mem_append] at hfields ⊢
    obtain ⟨x', hx', hlike⟩ := alike_of_update (fun p hp => hfields p (Or.inl hp)) hx hnext
    obtain ⟨y, hy, hlast⟩ := ih (fun p hp => hfields p (Or.inr hp)) hlike hrest
    refine ⟨y, ?_, hlast⟩
    rw [Patch.applyAll, List.foldlM_append, ← Patch.applyAll, hx']
    exact hy

/-- Batches after each other come to the same as all of them at once. -/
theorem replay (hfields : ∀ p ∈ batches.flatten, ∃ f : Field, p.path = f.path)
    (h : a.updateAll batches = .ok b) : a.update batches.flatten = .ok b := by
  obtain ⟨y, hy, hlike⟩ := alike_of_updateAll hfields (Likeness.refl a) h
  have hread : (decode y : Option Act) = some b :=
    (Likeness.read hlike).trans (decode_encode b)
  simp only [update, hy, hread, bind, Except.bind]

end Act

namespace Store

variable {s : Store} {id : ActId} {a : Act} {commands : List Command}

/-- The act that the last `insert` under an identifier put there. -/
def lastInserted (id : ActId) : List Command → Option Act
  | [] => none
  | .insert a :: rest => (lastInserted id rest).or (if a.id = id then some a else none)
  | _ :: rest => lastInserted id rest

/-- The last insertion of a history is the last of the rest, or else of the
first command. -/
theorem lastInserted_cons (c : Command) (rest : List Command) :
    lastInserted id (c :: rest) = (lastInserted id rest).or (lastInserted id [c]) := by
  cases c <;> simp [lastInserted]

/-- A history with no last insertion has none. -/
theorem lastInserted_eq_none (h : lastInserted id commands = none) :
    ∀ b, .insert b ∈ commands → b.id ≠ id := by
  induction commands with
  | nil => simp
  | cons c rest ih =>
    rw [lastInserted_cons, Option.or_eq_none_iff] at h
    intro b hb hid
    rcases List.mem_cons.mp hb with rfl | hb
    · simp [lastInserted, hid] at h
    · exact ih h.1 b hb hid

/-- A batch leaves no trace, or it changes a stored act. -/
theorem run_apply_eq (key : ActId) (patches : List Patch) :
    (s.run (.apply key patches)).1 = s ∨
      ∃ old new log, s.get? key = some old ∧ (s.run (.apply key patches)).1 =
        { s with acts := s.acts.insert key new, logs := s.logs.insert key log } := by
  cases hopen : s.isClosed with
  | true => exact Or.inl (by simp [run, hopen])
  | false =>
    cases happly : s.apply key patches with
    | error e => exact Or.inl (by simp [run, hopen, happly])
    | ok s' =>
      have hrun : (s.run (.apply key patches)).1 = s' := by simp [run, hopen, happly]
      simp only [apply, hopen, Bool.false_eq_true, if_false] at happly
      split at happly
      · cases happly
      · rename_i old hold
        split at happly
        · cases happly
        · rename_i new hnew
          exact Or.inr ⟨old, new, _, hold, hrun.trans (Except.ok.inj happly).symm⟩

/-- No command closes the store. -/
theorem isClosed_run (c : Command) (hopen : s.isClosed = false) :
    (s.run c).1.isClosed = false := by
  cases c with
  | insert | get | log => simp [run, hopen, insert]
  | apply key patches =>
    rcases s.run_apply_eq key patches with h | ⟨old, new, log, -, h⟩ <;> rw [h] <;> exact hopen

/-- Only insertion brings an act into the store. -/
theorem get?_run_eq_none (c : Command) (hs : s.get? id = none)
    (h : lastInserted id [c] = none) : (s.run c).1.get? id = none := by
  cases c with
  | get | log =>
    simp only [run]
    split <;> exact hs
  | insert a =>
    simp only [run]
    split
    · exact hs
    · have hne : a.id ≠ id := lastInserted_eq_none h a (by simp)
      exact (Table.get?_insert_of_ne hne).trans hs
  | apply key patches =>
    rcases s.run_apply_eq key patches with h | ⟨old, new, log, hold, h⟩
    · rw [h, hs]
    · have hne : key ≠ id := by
        rintro rfl
        cases hs.symm.trans hold
      rw [h]
      exact (Table.get?_insert_of_ne hne).trans hs

/-- Nothing is stored under an identifier under which nothing was inserted. -/
theorem get?_runAll_eq_none (hs : s.get? id = none) (h : lastInserted id commands = none) :
    (s.runAll commands).1.get? id = none := by
  induction commands generalizing s with
  | nil => exact hs
  | cons c rest ih =>
    rw [lastInserted_cons, Option.or_eq_none_iff] at h
    exact ih (get?_run_eq_none c hs h.2) h.1

/-- The log of an act holds what was accepted since the act was inserted. -/
theorem exists_batches (hopen : s.isClosed = false) (h : lastInserted id commands = some a) :
    ∃ batches b, (s.runAll commands).1.get? id = some b ∧ a.updateAll batches = .ok b ∧
      (s.runAll commands).1.logOf id = batches.flatten := by
  induction commands generalizing s with
  | nil => cases h
  | cons c rest ih =>
    rw [lastInserted_cons] at h
    cases hrest : lastInserted id rest with
    | some last =>
      rw [hrest] at h
      obtain rfl := Option.some.inj h
      exact ih (isClosed_run c hopen) hrest
    | none =>
      -- this is the last one of them: from here on the act is only updated
      rw [hrest, Option.none_or] at h
      obtain ⟨rfl, rfl⟩ : c = .insert a ∧ a.id = id := by
        cases c <;> simp [lastInserted] at h
        obtain ⟨hid, rfl⟩ := h
        exact ⟨rfl, hid⟩
      have hinserted : (s.run (.insert a)).1 = s.insert a := by simp [run, hopen]
      obtain ⟨b, hb, hupdate, hlog⟩ := runAll_updates (s := s.insert a) hopen
        (Table.get?_insert_self ..) (lastInserted_eq_none hrest)
      simp only [runAll, hinserted]
      refine ⟨_, b, hb, hupdate, hlog.trans ?_⟩
      simp [logOf, insert]

/-- **Replaying the log rebuilds the act.** Commands reach a store in some
order, whoever sends them. If every accepted patch of an act is one of a
place that a run writes to, whatever it does there, then the whole log as one
batch makes the stored act of the one that was inserted last. -/
theorem replay_log (commands : List Command) (id : ActId)
    (hfields : ∀ p ∈ (empty.runAll commands).1.logOf id, ∃ f : Field, p.path = f.path) :
    (∀ a, lastInserted id commands = some a →
      ∃ b, (empty.runAll commands).1.get? id = some b ∧
        a.update ((empty.runAll commands).1.logOf id) = .ok b) ∧
    (lastInserted id commands = none → (empty.runAll commands).1.get? id = none) := by
  refine ⟨fun a hlast => ?_, get?_runAll_eq_none rfl⟩
  obtain ⟨batches, b, hb, hupdate, hlog⟩ := exists_batches (s := empty) rfl hlast
  rw [hlog] at hfields ⊢
  exact ⟨b, hb, Act.replay hfields hupdate⟩

/-- The step of a small act. -/
def sampleStep : Step := { (default : Step) with id := ⟨"stp-1"⟩ }

/-- The act is inserted twice. Its second log has a status that is spelled at
length, a note with a key that nobody reads and a duration that is not known
after all; in between a batch is refused. -/
def sampleHistory : List Command :=
  let act := { sampleAct with sequences := [{ (default : Sequence) with steps := [sampleStep] }] }
  let note : Json := Json.object [("level", .str "info"), ("message", .str "one"), ("hue", .int 3)]
  [.insert sampleAct, .apply act.id [Field.stepsCompleted.increment 1], .insert act,
    .apply act.id [⟨Field.status.path, .set (Json.object [("running", .null)])⟩,
      ⟨(Field.stepDuration 0 0).path, .set .null⟩, ⟨Field.annotations.path, .push [note]⟩],
    .apply act.id [Field.stepsCompleted.increment 1, Field.status.increment 1],
    .apply act.id [(Field.stepDuration 0 0).increment 5, Field.stepsQueued.decrement 1]]

theorem replay_log_sample :
    (∀ p ∈ (empty.runAll sampleHistory).1.logOf sampleAct.id, ∃ f : Field, p.path = f.path) ∧
    ∃ a b, lastInserted sampleAct.id sampleHistory = some a ∧
      (empty.runAll sampleHistory).1.get? sampleAct.id = some b ∧
      a.update ((empty.runAll sampleHistory).1.logOf sampleAct.id) = .ok b ∧
      b.status = .running ∧ b.steps.queued = 2 := by
  have hfields : ∀ p ∈ (empty.runAll sampleHistory).1.logOf sampleAct.id,
      ∃ f : Field, p.path = f.path := by
    have hpaths : ((empty.runAll sampleHistory).1.logOf sampleAct.id).map (·.path) =
        [Field.status, .stepDuration 0 0, .annotations, .stepDuration 0 0, .stepsQueued].map
          Field.path := by decide +kernel
    intro p hp
    have hpath := List.mem_map_of_mem (f := (·.path)) hp
    rw [hpaths] at hpath
    obtain ⟨f, -, hf⟩ := List.mem_map.mp hpath
    exact ⟨f, hf.symm⟩
  obtain ⟨b, hb, hreplay⟩ := (replay_log sampleHistory sampleAct.id hfields).1 _ rfl
  have hstored : ((empty.runAll sampleHistory).1.get? sampleAct.id).map
      (fun b => (b.status, b.steps.queued)) = some (.running, 2) := by decide +kernel
  rw [hb, Option.map_some, Option.some.injEq, Prod.mk.injEq] at hstored
  exact ⟨hfields, _, b, rfl, hb, hreplay, hstored⟩

end Store

end Workflow
