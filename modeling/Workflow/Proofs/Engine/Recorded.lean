/-
Workflow.Proofs.Engine.Recorded — what the store shows of a run, at every
moment of it.

`Run.Recorded` ties a run to the stored act, wherever it stands: the stored
act is the record of some `Progress` through the act that the run was given.
Each move of the run keeps this (`Led.recorded`, `recorded_of_stepMove`),
whether its batch is accepted or refused, and so does whatever others do
elsewhere (`Next.shows`).
-/
import Workflow.Proofs.Engine.Moves
import Workflow.Proofs.Engine.Progress
import Workflow.Proofs.Engine.Scene

namespace Workflow

/-! ## Stores -/

namespace Store

variable {s s' : Store} {id : ActId} {patches : List Patch}

/-- A batch that is accepted is an update of the stored act, and the store
stays open. -/
theorem apply_eq (h : s.apply id patches = .ok s') : ∃ old new, s.isClosed = false ∧
    s.get? id = some old ∧ old.update patches = .ok new ∧ s'.get? id = some new ∧
    s'.isClosed = false := by
  unfold apply at h
  split at h
  · cases h
  · rename_i hopen
    have hopen : s.isClosed = false := by simpa using hopen
    split at h
    · cases h
    · rename_i old hold
      split at h
      · cases h
      · rename_i new hnew
        cases h
        exact ⟨old, new, hopen, hold, hnew, Table.get?_insert_self .., hopen⟩

theorem exists_apply {old new : Act} (hopen : s.isClosed = false) (hget : s.get? id = some old)
    (hupdate : old.update patches = .ok new) : ∃ s', s.apply id patches = .ok s' := by
  simp [apply, hopen, hget, hupdate]

end Store

/-! ## Messages -/

/-- If the step failed, its failure was told with its message. -/
def Told (journal : List Entry) (k j : Nat) (step : Step) (r : StepReport) : Prop :=
  ∀ message, r.outcome = .failed message → Entry.notice (.stepError step k j message) ∈ journal

/-- All failures in a sequence that has run at position `k` were told. -/
def Finished.ToldAt (f : Finished) (journal : List Entry) (k : Nat) : Prop :=
  ∀ j step r, f.planned.steps[j]? = some step → f.reports[j]? = some r → Told journal k j step r

/-- All failures so far were told. -/
def Progress.Told (p : Progress) (journal : List Entry) : Prop :=
  ∀ (k : Nat) (f : Finished), p.past[k]? = some f → f.ToldAt journal k

theorem Told.mono {journal more : List Entry} {k j : Nat} {step : Step} {r : StepReport}
    (h : Told journal k j step r) : Told (journal ++ more) k j step r :=
  fun message hm => List.mem_append_left _ (h message hm)

theorem Progress.Told.mono {p : Progress} {journal : List Entry} (h : p.Told journal)
    (more : List Entry) : p.Told (journal ++ more) :=
  fun k f hf j step r hstep hr => (h k f hf j step r hstep hr).mono

/-! ## Where a run stands

While a run pauses, the stored act is the record of a progress; while a
sequence runs, of one that is in this sequence; at the end, of one that goes
no further. -/

/-- `k` sequences of the act have run, and none runs. -/
structure Paused (a stored : Act) (journal : List Entry) (tally : Tally) (p : Progress)
    (k : Nat) : Prop where
  of : p.Of a
  /-- No sequence is open. -/
  now_eq : p.now = []
  length_eq : p.past.length = k
  bound : p.past = [] ∨ a.stepCount < 2 ^ 63
  tally_eq : tally = p.tally
  told : p.Told journal
  /-- The stored act is what the progress makes of the act. -/
  stored_eq : stored = p.record a .running

/-- Sequence `k` runs, and its steps are in the given states. -/
structure Busy (a stored : Act) (journal : List Entry) (tally : Tally) (p : Progress)
    (k : Nat) (s : Sequence) (steps : List Activity) : Prop where
  of : p.Of a
  /-- The sequence is open. -/
  now_eq : p.now = [s]
  length_eq : p.past.length = k
  /-- The position fits into the path of a patch. -/
  index_lt : k < 2 ^ 64
  bound : a.stepCount < 2 ^ 63
  tally_eq : tally = p.tally
  told : p.Told journal
  stored_eq : stored = p.record a .running
  /-- A run goes on only after completed sequences. -/
  completed : ∀ f ∈ p.past, f.IsCompleted
  steps_length : steps.length = s.steps.length
  duration_lt : ∀ r, Activity.ended r ∈ steps → r.durationMs < 2 ^ 64
  /-- Of a step that has ended, a failure has been told already. -/
  told_now : ∀ j step r, s.steps[j]? = some step → steps[j]? = some (.ended r) →
    Told journal k j step r

/-- The status with which a run ends suits what has run. -/
inductive Progress.EndsAs (p : Progress) : Status → Prop
  | completed (hlater : p.later = []) (hall : ∀ f ∈ p.past, f.IsCompleted) :
    EndsAs p .completed
  | failed {f : Finished} (hlast : p.past.getLast? = some f) (hfailed : 0 < f.tally.failed)
    (hcancelled : f.tally.cancelled = 0) : EndsAs p .failed
  | cancelled : EndsAs p .cancelled

/-- The run is over, with an outcome. -/
structure Over (a stored : Act) (journal : List Entry) (o : Outcome) (p : Progress) : Prop where
  of : p.Of a
  now_eq : p.now = []
  told : p.Told journal
  /-- A run goes on only after completed sequences, so at most the last one
  ended otherwise. -/
  completed : ∀ f ∈ p.past.dropLast, f.IsCompleted
  ends : p.EndsAs o.status
  stored_eq : stored = (p.record a .running).finished o.status o.wallClockMs
    (if o.status = .cancelled then [Batch.cancelNote] else [])
  wallClock_lt : o.wallClockMs < 2 ^ 64
  /-- The outcome counts what the progress counts. -/
  totalTask_eq : o.totalTaskMs = p.tally.totalTaskMs
  completed_eq : o.completed = p.tally.completed
  failed_eq : o.failed = p.tally.failed
  cancelled_eq : o.cancelled = p.tally.cancelled
  skipped_eq : o.skippedSequences = p.later.length

/-- The stored act is a record of what has run, perhaps with a final status
and with notes. -/
inductive Shown (a : Act) : Act → Prop
  | record (p : Progress) (status : Status) (h : p.Of a) : Shown a (p.record a status)
  | finished (p : Progress) (status final : Status) (ms : Nat) (notes : List Annotation)
    (h : p.Of a) : Shown a ((p.record a status).finished final ms notes)

namespace Shown

variable {a stored : Act}

/-- Whatever a run stores is consistent. -/
theorem consistent (hfresh : a.IsFresh) (h : Shown a stored) : a.Consistent stored := by
  cases h with
  | record p status hof => exact Progress.record_consistent hfresh hof
  | finished p status final ms notes hof =>
    have hrecord : a.Consistent (p.record a status) := Progress.record_consistent hfresh hof
    exact ⟨hrecord.queued_eq, hrecord.inProgress_eq, hrecord.completed_eq, hrecord.failed_eq,
      hrecord.totalTask_eq⟩

/-- A final status may be overwritten by another one. -/
theorem refinished (h : Shown a stored) (final : Status) (ms : Nat) (notes : List Annotation) :
    Shown a (stored.finished final ms notes) := by
  cases h with
  | record p status hof => exact .finished p status final ms notes hof
  | finished p status before ms' notes' hof =>
    have hnotes : ((p.record a status).finished before ms' notes').finished final ms notes =
        (p.record a status).finished final ms (notes' ++ notes) := by
      simp [Act.finished]
    rw [hnotes]
    exact .finished p status final ms (notes' ++ notes) hof

end Shown

/-- A run that pauses, runs a sequence or is over shows a record of its
progress. -/
theorem Paused.shown {a stored : Act} {journal : List Entry} {tally : Tally} {p : Progress}
    {k : Nat} (h : Paused a stored journal tally p k) : Shown a stored := by
  rw [h.stored_eq]
  exact .record p .running h.of

/-- How many sequences there are before the next one. -/
theorem Paused.length_sequences {a stored : Act} {journal : List Entry} {tally : Tally}
    {p : Progress} {k : Nat} (h : Paused a stored journal tally p k) :
    a.sequences.length = k + p.later.length := by
  rw [← h.of.planned_eq, Progress.planned, h.now_eq, List.append_nil, List.length_append,
    List.length_map, h.length_eq]

theorem Busy.shown {a stored : Act} {journal : List Entry} {tally : Tally} {p : Progress}
    {k : Nat} {s : Sequence} {steps : List Activity}
    (h : Busy a stored journal tally p k s steps) : Shown a stored := by
  rw [h.stored_eq]
  exact .record p .running h.of

theorem Over.shown {a stored : Act} {journal : List Entry} {o : Outcome} {p : Progress}
    (h : Over a stored journal o p) : Shown a stored := by
  rw [h.stored_eq]
  exact .finished p .running o.status o.wallClockMs _ h.of

namespace Run

/-- The store shows what a run of `a` has come to. -/
def Recorded (a stored : Act) (r : Run) : Prop :=
  match r.control with
  | .ready => stored = a ∧ r.tally = .zero
  | .turn k => ∃ p, Paused a stored r.journal r.tally p k ∧ ∀ f ∈ p.past, f.IsCompleted
  | .opening k records =>
    (∃ p, Paused a stored r.journal r.tally p k ∧ ∀ f ∈ p.past, f.IsCompleted) ∧
      ∃ s, a.sequences[k]? = some s ∧ records.length ≤ s.steps.length
  | .running k _ steps => ∃ p s, Busy a stored r.journal r.tally p k s steps
  | .closed k tally => ∃ p f, Paused a stored r.journal (r.tally.add tally) p (k + 1) ∧
    p.past.getLast? = some f ∧ tally = f.tally ∧ ∀ g ∈ p.past.dropLast, g.IsCompleted
  | .winding status k => ∃ p, Paused a stored r.journal r.tally p k ∧
    (∀ f ∈ p.past.dropLast, f.IsCompleted) ∧ p.EndsAs status
  | .done (.ok o) => ∃ p, Over a stored r.journal o p
  | .aborting _ | .done (.error _) => Shown a stored

variable {w w' : World} {r r' : Run} {a stored : Act}

/-- Whatever the run does, the stored act shows some progress. -/
theorem Recorded.shown (hfresh : a.IsFresh) (h : r.Recorded a stored) : Shown a stored := by
  unfold Recorded at h
  split at h
  · obtain ⟨rfl, -⟩ := h
    have hstart := Shown.record (.start stored) .queued (Progress.of_start stored)
    rwa [Progress.record_start hfresh] at hstart
  · obtain ⟨p, hpaused, -⟩ := h
    exact hpaused.shown
  · obtain ⟨⟨p, hpaused, -⟩, -⟩ := h
    exact hpaused.shown
  · obtain ⟨p, s, hbusy⟩ := h
    exact hbusy.shown
  · obtain ⟨p, f, hpaused, -⟩ := h
    exact hpaused.shown
  · obtain ⟨p, hpaused, -⟩ := h
    exact hpaused.shown
  · obtain ⟨p, hover⟩ := h
    exact hover.shown
  · exact h
  · exact h

end Run

/-! ## The batches of a run are good ones

What a batch does to an act is known from the batch, and what it does to a
record is one more step of the progress. So it is accepted. -/

section Batches

variable {a stored : Act} {journal : List Entry} {tally : Tally} {p : Progress} {k : Nat}
  {s : Sequence} {steps : List Activity}

theorem head?_after_map {α β : Type} (f : α → β) (xs : List α) (ys : List β) :
    (xs.map f ++ ys)[xs.length]? = ys.head? := by
  rw [List.getElem?_append_right (Nat.le_of_eq (List.length_map f)), List.length_map,
    Nat.sub_self, List.head?_eq_getElem?]

/-- The sequence at the place that the run has come to is the first that
waits. -/
theorem Progress.later_of_getElem? (hof : p.Of a) (hnow : p.now = [])
    (hs : a.sequences[p.past.length]? = some s) : ∃ rest, p.later = s :: rest := by
  rw [← hof.planned_eq, planned, hnow, List.append_nil, head?_after_map] at hs
  exact List.head?_eq_some_iff.mp hs

/-- What waits is counted as it is, as long as it is no more than a counter
can hold. -/
theorem Progress.toNat_queued (hfresh : a.IsFresh) (hof : p.Of a) (status : Status) :
    (p.record a status).steps.queued.toNat = stepsIn p.later := by
  have hbound := a.steps.queued.toNat_lt
  have hcount := hof.stepCount_eq
  rw [hfresh.queued_eq] at hbound
  exact UInt64.toNat_ofNat_of_lt' (by show _ < 2 ^ 64; omega)

theorem Progress.inProgress_lt (hnow : p.now = []) (status : Status) :
    (p.record a status).steps.inProgress.toNat < 2 ^ 63 := by
  show (UInt64.ofNat (stepsIn p.now)).toNat < 2 ^ 63
  rw [hnow]
  decide

/-- The stored act takes the batch that opens the next sequence, and is the
record of the progress in which this one runs. -/
theorem Paused.update_opening (hfresh : a.IsFresh) (h : Paused a stored journal tally p k)
    (hs : a.sequences[k]? = some s) (hk : k < 2 ^ 64) (hbound : a.stepCount < 2 ^ 63) :
    ∃ rest, p.later = s :: rest ∧
      stored.update (Batch.opening k s) = .ok ((p.enter s rest).record a .running) := by
  obtain ⟨hof, hnow, rfl, -, -, -, rfl⟩ := h
  obtain ⟨rest, hlater⟩ := Progress.later_of_getElem? hof hnow hs
  have hcount := hof.stepCount_eq
  have hqueued := Progress.toNat_queued hfresh hof .running
  have hwidth := stepsIn_cons s rest
  have hseq : (p.record a .running).sequences[p.past.length]? = some s := by
    show p.sequences[p.past.length]? = some s
    rw [Progress.sequences, hnow, hlater, List.map_nil, List.append_nil, head?_after_map]
    rfl
  have hrunning := Progress.inProgress_lt (a := a) hnow .running
  rw [← hlater] at hwidth
  have htakes := Act.takes_opening hk hseq (by omega) (by omega) hrunning
  rw [Progress.opened_record hnow hlater (by omega)] at htakes
  exact ⟨rest, hlater, htakes.update_eq⟩

/-- A sequence that could be opened is one of an act whose steps can be
counted. -/
theorem Paused.bounds (hfresh : a.IsFresh) (h : Paused a stored journal tally p k)
    (hs : a.sequences[k]? = some s) {b : Act}
    (hupdate : stored.update (Batch.opening k s) = .ok b) :
    k < 2 ^ 64 ∧ a.stepCount < 2 ^ 63 := by
  obtain ⟨hof, hnow, rfl, hbound, -, -, rfl⟩ := h
  obtain ⟨rest, hlater⟩ := Progress.later_of_getElem? hof hnow hs
  have hqueued := Progress.toNat_queued hfresh hof .running
  have hwidth := stepsIn_cons s rest
  have hrunning := Progress.inProgress_lt (a := a) hnow .running
  rw [← hlater] at hwidth
  obtain ⟨hless, hk⟩ := Act.of_update_opening hupdate (by omega) hrunning
  refine ⟨hk, ?_⟩
  rcases hbound with hpast | hbound
  · have hcount := hof.stepCount_eq
    rw [hnow, Progress.reports, hpast] at hcount
    simp only [List.flatMap_nil, List.length_nil, stepsIn, List.map_nil, List.sum_nil] at hcount
    rw [hqueued, stepsIn] at hless
    omega
  · exact hbound

/-- The sequence that runs is the one at its position. -/
theorem Busy.getElem? (h : Busy a stored journal tally p k s steps) :
    a.sequences[k]? = some s := by
  rw [← h.of.planned_eq, Progress.planned, h.now_eq, List.append_assoc, ← h.length_eq,
    head?_after_map]
  rfl

/-- The stored act takes the batch that closes the sequence that runs, and is
the record of the progress in which it has run. -/
theorem Busy.update_closing
    (h : Busy a stored journal tally p k s steps) {reports : List StepReport}
    (hreports : reports.length = s.steps.length) (ms : Nat) :
    stored.update (Batch.closing k s reports ms) =
      .ok ((p.leave ⟨s, reports, ms⟩).record a .running) := by
  obtain ⟨hof, hnow, rfl, hk, hbound, -, -, rfl, -, -, -, -⟩ := h
  have hcount := hof.stepCount_eq
  have htally := Tally.count_eq p.reports
  -- all steps in progress are those of the sequence that runs
  have hwidth : stepsIn p.now = s.steps.length := by
    rw [hnow, stepsIn_cons]
    exact Nat.add_zero _
  -- no count is above the number of steps, which the bound keeps below 2 ^ 63
  have htoNat {n : Nat} (hn : n ≤ a.stepCount) : (UInt64.ofNat n).toNat = n :=
    Counter.toNat_ofNat (Nat.lt_of_le_of_lt hn hbound)
  have hseq : (p.record a .running).sequences[p.past.length]? = some s.opened := by
    show p.sequences[p.past.length]? = some s.opened
    rw [Progress.sequences, hnow, List.append_assoc, head?_after_map]
    rfl
  have hrunning : (p.record a .running).steps.inProgress.toNat = s.steps.length := by
    rw [← hwidth]
    exact htoNat (by omega)
  have hcompleted : (p.record a .running).steps.completed.toNat < 2 ^ 63 := by
    have hle : p.tally.completed ≤ a.stepCount := by
      rw [Progress.tally]
      omega
    show (UInt64.ofNat p.tally.completed).toNat < 2 ^ 63
    rw [htoNat hle]
    omega
  have hfailed : (p.record a .running).steps.failed.toNat < 2 ^ 63 := by
    have hle : p.tally.failed ≤ a.stepCount := by
      rw [Progress.tally]
      omega
    show (UInt64.ofNat p.tally.failed).toNat < 2 ^ 63
    rw [htoNat hle]
    omega
  have htotal : (p.record a .running).duration.totalTask.toNat < 2 ^ 63 := by
    show (Counter.raise _ _).toNat < 2 ^ 63
    rw [Counter.toNat_raise]
    omega
  have htakes := Act.takes_closing hk hseq (List.length_map _) hreports (by omega) (by omega)
    hcompleted hfailed htotal ms
  rw [Progress.closed_record (f := ⟨s, reports, ms⟩) hof hnow rfl hreports hbound] at htakes
  exact htakes.update_eq

end Batches

/-! ## Moves of the run -/

namespace Run

variable {w w' : World} {r r' : Run} {a stored : Act}

/-- What is stored after a batch is what the run has come to, if that is so
where the batch is accepted. -/
theorem recorded_of_send {patches : List Patch} {next : Run → Run} (hact : r.act = a)
    (hget : w.store.get? a.id = some stored) (hshown : Shown a stored)
    (h : send w r patches next = (w', r'))
    (hnext : ∀ new, stored.update patches = .ok new →
      (next (r.record [.batch patches none])).Recorded a new) :
    ∃ stored', w'.store.get? a.id = some stored' ∧ r'.Recorded a stored' := by
  rcases send_eq h with ⟨store, happly, rfl, rfl⟩ | ⟨e, -, rfl, rfl⟩
  · rw [hact] at happly
    obtain ⟨old, new, -, hold, hupdate, hnew, -⟩ := Store.apply_eq happly
    obtain rfl := Option.some.inj (hget.symm.trans hold)
    exact ⟨new, hnew, hnext new hupdate⟩
  · exact ⟨stored, hget, hshown⟩

/-- Once all steps have reports, the sequence that runs can be closed. -/
theorem Recorded.ended (hrec : r.Recorded a stored) {k since : Nat} {steps : List Activity}
    {s : Sequence} {reports : List StepReport} (hc : r.control = .running k since steps)
    (hs : a.sequences[k]? = some s) (hreports : steps.mapM (·.report?) = some reports) :
    ∃ p, Busy a stored r.journal r.tally p k s (reports.map .ended) ∧
      reports.length = s.steps.length := by
  simp only [Recorded, hc] at hrec
  obtain ⟨p, s', hbusy⟩ := hrec
  obtain rfl := Option.some.inj (hs.symm.trans hbusy.getElem?)
  rw [Activity.eq_map_ended hreports] at hbusy
  refine ⟨p, hbusy, ?_⟩
  simpa using hbusy.steps_length

/-- Once its status is set, a fresh act is the record of nothing having run. -/
theorem paused_begin (hfresh : a.IsFresh) {journal : List Entry} :
    Paused a { a with status := .running } journal .zero (.start a) 0 where
  of := Progress.of_start a
  now_eq := rfl
  length_eq := rfl
  bound := Or.inl rfl
  tally_eq := rfl
  told := fun k f hf => by cases hf
  stored_eq := congrArg (fun b : Act => { b with status := .running })
    (Progress.record_start hfresh).symm

/-- The next sequence is announced and runs. -/
theorem busy_open {journal more : List Entry} {tally : Tally} {p : Progress} {k : Nat}
    {s : Sequence} {rest : List Sequence} {records : List Generation}
    (h : Paused a stored journal tally p k) (hcompleted : ∀ f ∈ p.past, f.IsCompleted)
    (hk : k < 2 ^ 64) (hbound : a.stepCount < 2 ^ 63) (hlater : p.later = s :: rest)
    (hlength : records.length = s.steps.length) :
    Busy a ((p.enter s rest).record a .running) (journal ++ more) tally (p.enter s rest) k s
      (records.map .waiting) where
  of := h.of.enter h.now_eq hlater
  now_eq := rfl
  length_eq := h.length_eq
  index_lt := hk
  bound := hbound
  tally_eq := h.tally_eq
  told := h.told.mono more
  stored_eq := rfl
  completed := hcompleted
  steps_length := by rw [List.length_map, hlength]
  duration_lt := by simp
  told_now := by simp

/-- The sequence that ran has ended. -/
theorem paused_close {journal more : List Entry} {tally : Tally} {p : Progress} {k : Nat}
    {s : Sequence} {reports : List StepReport} (ms : Nat)
    (h : Busy a stored journal tally p k s (reports.map .ended)) :
    Paused a ((p.leave ⟨s, reports, ms⟩).record a .running) (journal ++ more)
      (tally.add (.ofReports reports)) (p.leave ⟨s, reports, ms⟩) (k + 1) where
  of := by
    refine h.of.leave h.now_eq ⟨?_, fun r hr => ?_⟩
    · simpa using h.steps_length
    · exact h.duration_lt r (List.mem_map_of_mem hr)
  now_eq := rfl
  length_eq := by simp [Progress.leave, h.length_eq]
  bound := Or.inr h.bound
  tally_eq := by
    rw [h.tally_eq, Progress.tally, Progress.tally, ← Tally.ofReports_append]
    simp [Progress.leave, Progress.reports]
  told := by
    intro i f hf
    rcases Nat.lt_or_ge i p.past.length with hi | hi
    · rw [Progress.leave, List.getElem?_append_left hi] at hf
      exact h.told.mono more i f hf
    · -- Only the sequence that ended stands this far back.
      rw [Progress.leave, List.getElem?_append_right hi, List.getElem?_singleton] at hf
      split at hf
      · cases hf
        have hik : i = k := by
          have hlength := h.length_eq
          omega
        rw [hik]
        intro j step r hstep hr
        refine (h.told_now j step r hstep ?_).mono
        rw [List.getElem?_map, hr]
        rfl
      · cases hf
  stored_eq := rfl

/-- A run that pauses may end: the final batch stores status, time and the note
of a cancellation. -/
theorem over_finish {more : List Entry} {p : Progress} {k : Nat} (status : Status)
    {ms : Nat} (hact : r.act = a) (h : Paused a stored r.journal r.tally p k)
    (hcompleted : ∀ f ∈ p.past.dropLast, f.IsCompleted) (hends : p.EndsAs status)
    (hms : ms < 2 ^ 64) :
    Over a (stored.finished status ms (if status = .cancelled then [Batch.cancelNote] else []))
      (r.journal ++ more) (r.outcome status k ms) p where
  of := h.of
  now_eq := h.now_eq
  told := h.told.mono more
  completed := hcompleted
  ends := hends
  stored_eq := by rw [h.stored_eq]; rfl
  wallClock_lt := hms
  totalTask_eq := congrArg (·.totalTaskMs) h.tally_eq
  completed_eq := congrArg (·.completed) h.tally_eq
  failed_eq := congrArg (·.failed) h.tally_eq
  cancelled_eq := congrArg (·.cancelled) h.tally_eq
  skipped_eq := by
    show (r.act.sequences.drop k).length = p.later.length
    rw [hact, List.length_drop, h.length_sequences, Nat.add_sub_cancel_left]

theorem elapsed_lt (since now : Nat) : elapsed since now < 2 ^ 64 := by
  unfold elapsed
  omega

/-- After an accepted opening the sequence runs. -/
theorem Recorded.opened (hrec : r.Recorded a stored) (hfresh : a.IsFresh) {k : Nat}
    {records : List Generation} {s : Sequence} {new : Act} {more : List Entry}
    (hc : r.control = .opening k records) (hs : a.sequences[k]? = some s)
    (hall : s.steps.length ≤ records.length)
    (hupdate : stored.update (Batch.opening k s) = .ok new) :
    ∃ p, Busy a new (r.journal ++ more) r.tally p k s (records.map .waiting) := by
  simp only [Recorded, hc] at hrec
  obtain ⟨⟨p, hpaused, hcompleted⟩, s', hs', hlength⟩ := hrec
  obtain rfl := Option.some.inj (hs.symm.trans hs')
  obtain ⟨hk, hbound⟩ := hpaused.bounds hfresh hs hupdate
  obtain ⟨rest, hlater, hopened⟩ := hpaused.update_opening hfresh hs hk hbound
  obtain rfl := Except.ok.inj (hupdate.symm.trans hopened)
  exact ⟨p.enter s rest,
    busy_open hpaused hcompleted hk hbound hlater (Nat.le_antisymm hlength hall)⟩

/-- After an accepted closing the sequence is the last one that has run. -/
theorem Recorded.closed (hrec : r.Recorded a stored) {k since ms : Nat} {steps : List Activity}
    {s : Sequence} {reports : List StepReport} {new : Act} {more : List Entry}
    (hc : r.control = .running k since steps) (hs : a.sequences[k]? = some s)
    (hreports : steps.mapM (·.report?) = some reports)
    (hupdate : stored.update (Batch.closing k s reports ms) = .ok new) :
    ∃ p f, Paused a new (r.journal ++ more) (r.tally.add (.ofReports reports)) p (k + 1) ∧
      p.past.getLast? = some f ∧ Tally.ofReports reports = f.tally ∧
      ∀ g ∈ p.past.dropLast, g.IsCompleted := by
  obtain ⟨p, hbusy, hlength⟩ := hrec.ended hc hs hreports
  obtain rfl := Except.ok.inj (hupdate.symm.trans (hbusy.update_closing hlength ms))
  refine ⟨p.leave ⟨s, reports, ms⟩, ⟨s, reports, ms⟩, paused_close ms hbusy,
    List.getLast?_concat, rfl, ?_⟩
  rw [Progress.leave, List.dropLast_concat]
  exact hbusy.completed

/-- Only after a sequence that is completed the next one has its turn. -/
theorem Recorded.judged (hrec : r.Recorded a stored) {k : Nat} {tally : Tally}
    (hc : r.control = .closed k tally) :
    ({ r with tally := r.tally.add tally }.goto (r.judge k tally)).Recorded a stored := by
  simp only [Recorded, hc] at hrec
  obtain ⟨p, f, hpaused, hlast, rfl, hcompleted⟩ := hrec
  simp only [Recorded, goto_control, goto_tally, goto_journal]
  rcases r.judge_eq k f.tally with ⟨hj, -⟩ | ⟨hj, hz, hf⟩ | ⟨hj, hz, hf⟩
  · rw [hj]
    exact ⟨p, hpaused, hcompleted, .cancelled⟩
  · rw [hj]
    exact ⟨p, hpaused, hcompleted, .failed hlast hf hz⟩
  · rw [hj]
    refine ⟨p, hpaused, ?_⟩
    intro g hg
    rw [← List.dropLast_append_getLast? f hlast] at hg
    rcases List.mem_append.mp hg with hbefore | hthis
    · exact hcompleted g hbefore
    · rw [List.mem_singleton.mp hthis]
      exact Tally.completed_of_ofReports hf hz

/-- Each move of the run is one from record to record. -/
theorem Led.recorded (h : Led w r w' r') (hfresh : a.IsFresh) (hact : r.act = a)
    (hget : w.store.get? a.id = some stored) (hrec : r.Recorded a stored) :
    ∃ stored', w'.store.get? a.id = some stored' ∧ r'.Recorded a stored' := by
  have hshown := hrec.shown hfresh
  cases h with
  | refuse hc hs => exact ⟨stored, hget, hshown⟩
  | begin hc hs hsend =>
    simp only [Recorded, hc] at hrec
    obtain ⟨rfl, htally⟩ := hrec
    refine recorded_of_send hact hget hshown hsend ?_
    intro new hupdate
    obtain rfl := Except.ok.inj (hupdate.symm.trans (Act.takes_begin stored).update_eq)
    -- nothing has run: the progress starts here
    refine ⟨.start stored, ?_, fun f hf => by cases hf⟩
    rw [goto_tally, note_tally, record_tally, htally]
    exact paused_begin hfresh
  | skip hc hk hi =>
    simp only [Recorded, hc] at hrec
    obtain ⟨p, hpaused, hcompleted⟩ := hrec
    exact ⟨stored, hget, p, hpaused, fun f hf => hcompleted f ((List.dropLast_sublist _).mem hf),
      .cancelled⟩
  | @enter k hc hk hi =>
    simp only [Recorded, hc] at hrec
    subst hact
    exact ⟨stored, hget, hrec, r.act.sequences[k], List.getElem?_eq_getElem hk, Nat.zero_le _⟩
  | complete hc hk =>
    simp only [Recorded, hc] at hrec
    obtain ⟨p, hpaused, hcompleted⟩ := hrec
    have hlength := hpaused.length_sequences
    rw [hact, hlength] at hk
    -- the turn is past the last sequence, so none waits
    have hlater : p.later = [] := List.length_eq_zero_iff.mp (by omega)
    exact ⟨stored, hget, p, hpaused, fun f hf => hcompleted f ((List.dropLast_sublist _).mem hf),
      .completed hlater hcompleted⟩
  | missing hc hs hstep hg => exact ⟨stored, hget, hshown⟩
  | unexpected hc hs hstep hg hstatus => exact ⟨stored, hget, hshown⟩
  | @found k records s step g hc hs hstep hg hstatus =>
    simp only [Recorded, hc] at hrec
    obtain ⟨hlt, -⟩ := List.getElem?_eq_some_iff.mp hstep
    refine ⟨stored, hget, hrec.1, s, hact ▸ hs, ?_⟩
    rw [List.length_append, List.length_singleton]
    exact hlt
  | @«open» k records s w' r' hc hs hall hsend =>
    refine recorded_of_send hact hget hshown hsend ?_
    intro new hupdate
    obtain ⟨p, hbusy⟩ := hrec.opened hfresh hc (hact ▸ hs) hall hupdate
    refine ⟨p, s, ?_⟩
    simp only [goto_tally, note_tally, record_tally, goto_journal, note_journal, record_journal,
      List.append_assoc]
    exact hbusy
  | @close k since steps s reports w' r' hc hs hreports hsend =>
    refine recorded_of_send hact hget hshown hsend ?_
    intro new hupdate
    obtain ⟨p, f, hpaused, hlast⟩ := hrec.closed hc (hact ▸ hs) hreports hupdate
    refine ⟨p, f, ?_, hlast⟩
    simp only [goto_tally, note_tally, record_tally, goto_journal, note_journal, record_journal,
      List.append_assoc]
    exact hpaused
  | judge hc => exact ⟨stored, hget, hrec.judged hc⟩
  | @finish status k outcome w' r' hc ho hsend =>
    subst ho
    simp only [Recorded, hc] at hrec
    obtain ⟨p, hpaused, hcompleted, hends⟩ := hrec
    refine recorded_of_send (r := r.record _) hact hget hshown hsend ?_
    intro new hupdate
    obtain rfl := Except.ok.inj (hupdate.symm.trans (Act.takes_final stored _ _).update_eq)
    refine ⟨p, ?_⟩
    simp only [goto_journal, note_journal, record_journal, List.append_assoc]
    exact over_finish status hact hpaused hcompleted hends (elapsed_lt _ _)
  | @abort e w' q hc hsend =>
    simp only [Recorded, hc] at hrec
    obtain ⟨stored', hget', hrec'⟩ := recorded_of_send hact hget hshown hsend (by
      intro new hupdate
      obtain rfl := Except.ok.inj (hupdate.symm.trans (Act.takes_abort stored _ _).update_eq)
      simp only [Recorded, id, record_control, hc]
      exact hrec.refinished _ _ _)
    exact ⟨stored', hget', hrec'.shown hfresh⟩

end Run

/-! ## Moves of steps -/

/-- A step that ends can be recorded, and if it failed, its failure is
told. -/
theorem Activity.Advanced.ended {x x' : Executor} {clock : Nat} {isCancelled : Bool}
    {q : PlacedStep} {b b' : Activity} {entries : List Entry}
    (h : Advanced x clock isCancelled q b x' b' entries) {report : StepReport}
    (hended : b' = .ended report) :
    report.durationMs < 2 ^ 64 ∧ Told entries q.sequence q.index q.step report := by
  cases h with
  | skip hi =>
    cases hended
    exact ⟨by decide, fun message hm => by cases hm⟩
  | complete hf hs =>
    cases hended
    exact ⟨Run.elapsed_lt _ _, fun message hm => by cases hm⟩
  | lose hf hs hopen =>
    cases hended
    exact ⟨Run.elapsed_lt _ _, fun message hm => by cases hm⟩
  | fail hf hs hm =>
    cases hended
    refine ⟨Run.elapsed_lt _ _, fun message hm => ?_⟩
    cases hm
    exact List.mem_singleton_self _
  | settle hr =>
    cases hended
    refine ⟨Run.elapsed_lt _ _, fun message hm => ?_⟩
    cases hm
    exact List.mem_append_right _ (List.mem_singleton_self _)
  | _ => cases hended

namespace Run

variable {w w' : World} {r r' : Run} {a stored : Act}

/-- Moves of steps are not seen in the store. -/
theorem recorded_of_stepMove {j : Nat} (h : r.stepMove w j = some (w', r')) (hact : r.act = a)
    (hrec : r.Recorded a stored) : w'.store = w.store ∧ r'.Recorded a stored := by
  obtain ⟨k, since, steps, s, step, b, x, b', entries, hc, hs, hstep, hb, hadvance, rfl, rfl⟩ :=
    stepMove_eq h
  simp only [Recorded, hc] at hrec
  obtain ⟨p, s', hbusy⟩ := hrec
  obtain rfl := Option.some.inj ((hact ▸ hs).symm.trans hbusy.getElem?)
  have hadvanced := Activity.advanced_of_advance hadvance
  refine ⟨rfl, p, s, { hbusy with
    told := hbusy.told.mono entries
    steps_length := ?_
    duration_lt := fun report hr => ?_
    told_now := fun i step' report hstep' hr => ?_ }⟩
  · rw [List.length_set]
    exact hbusy.steps_length
  · rcases List.mem_or_eq_of_mem_set hr with hold | hnew
    · exact hbusy.duration_lt report hold
    · exact (hadvanced.ended hnew.symm).1
  · -- only the step that moves can have ended by this move
    rw [List.getElem?_set] at hr
    split at hr
    · rename_i hij
      subst hij
      obtain rfl := Option.some.inj (hstep.symm.trans hstep')
      split at hr
      · have htold := (hadvanced.ended (Option.some.inj hr)).2
        exact fun message hm => List.mem_append_right _ (htold message hm)
      · cases hr
    · exact (hbusy.told_now i step' report hstep' hr).mono

end Run

/-! ## Whole runs -/

/-- Others leave a stored act alone. -/
def World.KeepsAct (id : ActId) (w w' : World) : Prop := w'.store.get? id = w.store.get? id

namespace Scene

variable {others : Interference} {c c' : Scene} {a : Act}

/-- The run is one of `a`, and the store shows what it has come to. -/
def Shows (a : Act) (c : Scene) : Prop :=
  c.run.act = a ∧ ∃ stored, c.world.store.get? a.id = some stored ∧ c.run.Recorded a stored

/-- Whatever happens, the store shows what the run has come to. -/
theorem Next.shows (h : Next others c c') (hfresh : a.IsFresh)
    (hothers : ∀ w w', others w w' → World.KeepsAct a.id w w') (hshows : c.Shows a) :
    c'.Shows a := by
  obtain ⟨hact, stored, hget, hrec⟩ := hshows
  cases h with
  | lead h =>
    have hled := Run.led_of_lead h
    exact ⟨hled.continues.act_eq.trans hact, hled.recorded hfresh hact hget hrec⟩
  | step j h =>
    obtain ⟨hstore, hrec'⟩ := Run.recorded_of_stepMove h hact hrec
    obtain ⟨_, _, _, _, _, _, _, _, _, -, -, -, -, -, -, rfl⟩ := Run.stepMove_eq h
    exact ⟨hact, stored, hstore ▸ hget, hrec'⟩
  | cancel => exact ⟨hact, stored, hget, hrec⟩
  | others h => exact ⟨hact, stored, (hothers _ _ h).trans hget, hrec⟩

theorem shows_begin {w : World} (hget : w.store.get? a.id = some a) (isCancelled : Bool) :
    (begin w a isCancelled).Shows a := ⟨rfl, a, hget, rfl, rfl⟩

end Scene

end Workflow
