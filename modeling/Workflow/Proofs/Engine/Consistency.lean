/-
Workflow.Proofs.Engine.Consistency — what a reader of the store can rely on
while a run goes on.

At every moment of every run the counters of the stored act agree with the
statuses and durations of its steps. As long as the store is open, all
batches of the run are accepted (`Run.Accepted`): what a batch does to the
act is known beforehand, so that no decrement can go below zero.
-/
import Workflow.Proofs.Engine.Dependencies
import Workflow.Proofs.Engine.Recorded

namespace Workflow

/-- No batch of the run was refused. -/
def Run.Accepted (r : Run) : Prop :=
  ∀ patches error, Entry.batch patches error ∈ r.journal → error = none

/-- Steps send no batches. -/
theorem Activity.Advanced.batch_not_mem {x x' : Executor} {clock : Nat} {isCancelled : Bool}
    {q : PlacedStep} {b b' : Activity} {entries : List Entry}
    (h : Advanced x clock isCancelled q b x' b' entries) (patches : List Patch)
    (error : Option PatchError) : Entry.batch patches error ∉ entries := by
  cases h with
  | settle hr =>
    rcases recordFailure_eq hr with ⟨-, rfl⟩ | ⟨failed, -, rfl⟩
    · simp
    · simp
  | _ => simp

namespace Run

variable {w w' : World} {r r' : Run} {a stored : Act}

/-! ## Journals without refusals -/

/-- What is recorded besides batches refuses nothing. -/
theorem Accepted.record (h : r.Accepted) {es : List Entry}
    (hes : ∀ patches error, Entry.batch patches error ∈ es → error = none) :
    (r.record es).Accepted := by
  intro patches error hmem
  rcases List.mem_append.mp hmem with hold | hnew
  · exact h patches error hold
  · exact hes patches error hnew

theorem Accepted.note (h : r.Accepted) (n : Notice) : (r.note n).Accepted :=
  h.record (by simp)

theorem Accepted.goto (h : r.Accepted) (c : Control) : (r.goto c).Accepted := h

/-- A batch whose update is known to succeed is accepted by an open store. -/
theorem send_of_update {patches : List Patch} {next : Run → Run} {new : Act} (hact : r.act = a)
    (hget : w.store.get? a.id = some stored) (hopen : w.store.isClosed = false)
    (hupdate : stored.update patches = .ok new) (h : send w r patches next = (w', r')) :
    w'.store.isClosed = false ∧ w'.store.get? a.id = some new ∧
      r' = next (r.record [.batch patches none]) := by
  rcases send_eq h with ⟨store, happly, rfl, hr⟩ | ⟨e, happly, -, -⟩
  · rw [hact] at happly
    obtain ⟨old, new', -, hold, hupdate', hnew, hclosed⟩ := Store.apply_eq happly
    obtain rfl := Option.some.inj (hget.symm.trans hold)
    obtain rfl := Except.ok.inj (hupdate.symm.trans hupdate')
    exact ⟨hclosed, hnew, hr⟩
  · obtain ⟨store, hstore⟩ := Store.exists_apply hopen hget hupdate
    rw [hact, hstore] at happly
    cases happly

theorem accepted_of_send {patches : List Patch} {next : Run → Run} {new : Act}
    (hact : r.act = a) (hget : w.store.get? a.id = some stored)
    (hopen : w.store.isClosed = false) (hupdate : stored.update patches = .ok new)
    (h : send w r patches next = (w', r')) (haccepted : r.Accepted)
    (hnext : ∀ q : Run, q.Accepted → (next q).Accepted) :
    w'.store.isClosed = false ∧ r'.Accepted := by
  obtain ⟨hopen', -, rfl⟩ := send_of_update hact hget hopen hupdate h
  exact ⟨hopen', hnext _ (haccepted.record (by simp))⟩

/-- Each batch that a run sends to an open store is accepted, if the steps
of the act can be counted and its sequences can be numbered. -/
theorem Led.accepted (h : Led w r w' r') (hfresh : a.IsFresh) (hact : r.act = a)
    (hget : w.store.get? a.id = some stored) (hrec : r.Recorded a stored)
    (hsteps : a.stepCount < 2 ^ 63) (hsequences : a.sequences.length ≤ 2 ^ 64)
    (hopen : w.store.isClosed = false) (haccepted : r.Accepted) :
    w'.store.isClosed = false ∧ r'.Accepted := by
  cases h with
  | begin hc hs hsend =>
    exact accepted_of_send hact hget hopen (Act.takes_begin stored).update_eq hsend haccepted
      fun q hq => (hq.note _).goto _
  | @«open» k records s w' r' hc hs hall hsend =>
    simp only [Recorded, hc] at hrec
    obtain ⟨⟨p, hpaused, -⟩, -⟩ := hrec
    rw [hact] at hs
    obtain ⟨hlt, -⟩ := List.getElem?_eq_some_iff.mp hs
    obtain ⟨rest, -, hupdate⟩ := hpaused.update_opening hfresh hs (by omega) hsteps
    exact accepted_of_send hact hget hopen hupdate hsend haccepted fun q hq => (hq.note _).goto _
  | @close k since steps s reports w' r' hc hs hreports hsend =>
    obtain ⟨p, hbusy, hlength⟩ := hrec.ended hc (hact ▸ hs) hreports
    exact accepted_of_send hact hget hopen (hbusy.update_closing hlength _) hsend haccepted
      fun q hq => (hq.note _).goto _
  | @finish status k outcome w' r' hc ho hsend =>
    -- what is told of skipped sequences is no batch
    have hskips : ∀ patches error, Entry.batch patches error ∈ (r.act.sequences.drop k).map
        (fun s => Entry.notice (.sequenceSkip s)) → error = none := by
      intro patches error hmem
      obtain ⟨s, -, hs⟩ := List.mem_map.mp hmem
      cases hs
    exact accepted_of_send (r := r.record _) hact hget hopen
      (Act.takes_final stored _ _).update_eq hsend (haccepted.record hskips)
      fun q hq => ((hq.note _).note _).goto _
  | abort hc hsend =>
    obtain ⟨hopen', haccepted'⟩ := accepted_of_send hact hget hopen
      (Act.takes_abort stored _ _).update_eq hsend haccepted fun q hq => hq
    exact ⟨hopen', (haccepted'.note _).goto _⟩
  -- the other moves send none
  | _ => exact ⟨hopen, haccepted⟩

/-- Steps send no batches. -/
theorem accepted_of_stepMove {j : Nat} (h : r.stepMove w j = some (w', r'))
    (haccepted : r.Accepted) : r'.Accepted := by
  obtain ⟨k, since, steps, s, step, b, x, b', entries, -, -, -, -, hadvance, rfl, rfl⟩ :=
    stepMove_eq h
  refine (haccepted.record fun patches error hmem => ?_).goto _
  exact absurd hmem ((Activity.advanced_of_advance hadvance).batch_not_mem patches error)

end Run

/-! ## Whole runs -/

/-- Others leave a stored act alone, and the store open. -/
def World.KeepsOpen (id : ActId) (w w' : World) : Prop :=
  w.KeepsAct id w' ∧ w'.store.isClosed = w.store.isClosed

namespace Scene

variable {c c' : Scene} {a : Act}

/-- Whatever happens, every batch was accepted. -/
theorem Next.accepted (h : Next (World.KeepsOpen a.id) c c') (hfresh : a.IsFresh)
    (hshows : c.Shows a) (hsteps : a.stepCount < 2 ^ 63)
    (hsequences : a.sequences.length ≤ 2 ^ 64) (hopen : c.world.store.isClosed = false)
    (haccepted : c.run.Accepted) : c'.world.store.isClosed = false ∧ c'.run.Accepted := by
  obtain ⟨hact, stored, hget, hrec⟩ := hshows
  cases h with
  | lead h =>
    exact (Run.led_of_lead h).accepted hfresh hact hget hrec hsteps hsequences hopen haccepted
  | step j h =>
    obtain ⟨hstore, -⟩ := Run.recorded_of_stepMove h hact hrec
    exact ⟨hstore ▸ hopen, Run.accepted_of_stepMove h haccepted⟩
  | cancel => exact ⟨hopen, haccepted⟩
  | others h => exact ⟨h.2.trans hopen, haccepted⟩

/-- At every moment of a run the counters of the stored act agree with its
statuses and durations, and no batch that was sent was refused. The bounds
are those of a counter and of a position in the path of a patch.

The agreement follows from what a run knows of the stored act (`Shows`), and
needs nothing but that others leave the act alone; that no batch was refused
needs the store to stay open as well. -/
theorem consistent_throughout {w : World} {isCancelled : Bool} (hfresh : a.IsFresh)
    (hsteps : a.stepCount < 2 ^ 63) (hsequences : a.sequences.length ≤ 2 ^ 64)
    (hget : w.store.get? a.id = some a) (hopen : w.store.isClosed = false)
    (hreach : Reaches (World.KeepsOpen a.id) (begin w a isCancelled) c) :
    (∃ b, c.world.store.get? a.id = some b ∧ a.Consistent b) ∧
      ∀ patches error, Entry.batch patches error ∈ c.run.journal → error = none := by
  have hbegin : (begin w a isCancelled).Shows a := shows_begin hget isCancelled
  obtain ⟨⟨hact, stored, hstored, hrec⟩, -, haccepted⟩ := hreach.induct
    (P := fun c => c.Shows a ∧ c.world.store.isClosed = false ∧ c.run.Accepted)
    ⟨hbegin, hopen, fun patches error hmem => by cases hmem⟩
    fun d d' hnext ⟨hshows, hopen, haccepted⟩ =>
      ⟨hnext.shows hfresh (fun _ _ h => h.1) hshows,
        hnext.accepted hfresh hshows hsteps hsequences hopen haccepted⟩
  exact ⟨⟨stored, hstored, (hrec.shown hfresh).consistent hfresh⟩, haccepted⟩

/-! ## A run whose second sequence runs -/

theorem sample_fresh : Sample.blueprint.act.IsFresh where
  status_eq := by decide +kernel
  sequence_status := by decide +kernel
  step_status := by decide +kernel
  queued_eq := by decide +kernel
  inProgress_eq := by decide +kernel
  completed_eq := by decide +kernel
  failed_eq := by decide +kernel
  totalTask_lt := by decide +kernel

theorem sample_consistent_throughout : Sample.blueprint.act.IsFresh ∧
    Sample.blueprint.act.stepCount < 2 ^ 63 ∧ Sample.blueprint.act.sequences.length ≤ 2 ^ 64 ∧
    sampleOpening.world.store.get? Sample.blueprint.act.id = some Sample.blueprint.act ∧
    sampleOpening.world.store.isClosed = false ∧
    ∃ c, Reaches (World.KeepsOpen Sample.blueprint.act.id) sampleOpening c ∧
      c.run.width = 1 ∧
      (∃ b, c.world.store.get? Sample.blueprint.act.id = some b ∧
        Sample.blueprint.act.Consistent b) ∧
      ∀ patches error, Entry.batch patches error ∈ c.run.journal → error = none := by
  have hfresh := sample_fresh
  have hsteps : Sample.blueprint.act.stepCount < 2 ^ 63 := by decide +kernel
  have hsequences : Sample.blueprint.act.sequences.length ≤ 2 ^ 64 := by decide +kernel
  have hget : sampleOpening.world.store.get? Sample.blueprint.act.id =
      some Sample.blueprint.act := by decide +kernel
  have hopen : sampleOpening.world.store.isClosed = false := by decide +kernel
  have hplayed : (sampleOpening.perform sampleSchedule).map (·.run.width) = some 1 := by
    decide +kernel
  obtain ⟨c, hc, hwidth⟩ := Option.map_eq_some_iff.mp hplayed
  have hdeeds : ∀ d, .deed d ∈ sampleSchedule → ∀ w : World,
      w.KeepsOpen Sample.blueprint.act.id (w.after d) := by
    intro d hd w
    simp only [sampleSchedule, List.mem_cons, reduceCtorEq, Happening.deed.injEq, List.not_mem_nil,
      or_false, false_or] at hd
    subst hd
    exact ⟨rfl, rfl⟩
  have hreach := reaches_of_perform hdeeds hc
  exact ⟨hfresh, hsteps, hsequences, hget, hopen, c, hreach, hwidth,
    consistent_throughout hfresh hsteps hsequences hget hopen hreach⟩

end Scene

end Workflow
