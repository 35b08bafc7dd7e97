/-
Workflow.Proofs.Engine.Moves — all that a run can do in one move.

* `Led` lists the moves of the run itself, one constructor for each, with
  the conditions under which it is made; `led_of_lead` says that there are
  no others.
* `stepMove_eq` says what a move of a step consists of, and
  `Activity.Advanced` lists what a step can do.
* `send_eq` splits a batch into accepted and refused.

Proofs about runs go by cases on these and do not open the functions.
-/
import Workflow.Engine.Run

namespace Workflow

/-- Whether a notice is about one step. -/
def Notice.isOfStep : Notice → Bool
  | .stepStart .. | .stepDelta .. | .stepComplete .. | .stepError .. | .stepCancel .. => true
  | _ => false

/-- Whether an entry is by the run itself, and no call on the executor. -/
def Entry.isOfRun : Entry → Bool
  | .batch .. => true
  | .notice n => !n.isOfStep
  | .set .. | .start .. | .stop .. => false

namespace Run

variable {w w' : World} {r r' : Run}

/-! ## Small equations -/

/-- Going to another point changes the control only. The equations that follow
say of `goto`, `record` and `note` what they leave alone. -/
@[simp] theorem goto_control (r : Run) (c : Control) : (r.goto c).control = c := rfl
@[simp] theorem goto_act (r : Run) (c : Control) : (r.goto c).act = r.act := rfl
@[simp] theorem goto_isCancelled (r : Run) (c : Control) :
    (r.goto c).isCancelled = r.isCancelled := rfl
@[simp] theorem goto_tally (r : Run) (c : Control) : (r.goto c).tally = r.tally := rfl
@[simp] theorem goto_journal (r : Run) (c : Control) : (r.goto c).journal = r.journal := rfl
@[simp] theorem record_control (r : Run) (es : List Entry) :
    (r.record es).control = r.control := rfl
@[simp] theorem record_act (r : Run) (es : List Entry) : (r.record es).act = r.act := rfl
@[simp] theorem record_isCancelled (r : Run) (es : List Entry) :
    (r.record es).isCancelled = r.isCancelled := rfl
@[simp] theorem record_tally (r : Run) (es : List Entry) : (r.record es).tally = r.tally := rfl
@[simp] theorem record_journal (r : Run) (es : List Entry) :
    (r.record es).journal = r.journal ++ es := rfl
@[simp] theorem note_control (r : Run) (n : Notice) : (r.note n).control = r.control := rfl
@[simp] theorem note_act (r : Run) (n : Notice) : (r.note n).act = r.act := rfl
@[simp] theorem note_isCancelled (r : Run) (n : Notice) :
    (r.note n).isCancelled = r.isCancelled := rfl
@[simp] theorem note_tally (r : Run) (n : Notice) : (r.note n).tally = r.tally := rfl
@[simp] theorem note_journal (r : Run) (n : Notice) :
    (r.note n).journal = r.journal ++ [.notice n] := rfl

/-! ## Batches -/

/-- A batch is accepted, or refused without a trace in the store. -/
theorem send_eq {patches : List Patch} {next : Run → Run}
    (h : send w r patches next = (w', r')) :
    (∃ store, w.store.apply r.act.id patches = .ok store ∧ w' = { w with store } ∧
      r' = next (r.record [.batch patches none])) ∨
    (∃ e, w.store.apply r.act.id patches = .error e ∧ w' = w ∧
      r' = (r.record [.batch patches (some e)]).goto (.aborting (.patch e))) := by
  unfold send at h
  split at h
  · rename_i store hstore
    cases h
    exact Or.inl ⟨store, hstore, rfl, rfl⟩
  · rename_i e he
    cases h
    exact Or.inr ⟨e, he, rfl, rfl⟩

/-! ## Moves of the run itself -/

/-- A move of the run itself, with its conditions. -/
inductive Led (w : World) (r : Run) : World → Run → Prop
  | refuse (hc : r.control = .ready) (hs : r.act.status ≠ .queued) :
    Led w r w (r.goto (.done (.error (.actNotQueued r.act.id r.act.status))))
  | begin {w' : World} {r' : Run} (hc : r.control = .ready) (hs : r.act.status = .queued)
    (hsend : send w r Batch.begin (fun r => (r.note (.actStart r.act)).goto (.turn 0)) =
      (w', r')) : Led w r w' r'
  | skip {k} (hc : r.control = .turn k) (hk : k < r.act.sequences.length) (hi : r.isCancelled) :
    Led w r w (r.goto (.winding .cancelled k))
  | enter {k} (hc : r.control = .turn k) (hk : k < r.act.sequences.length)
    (hi : r.isCancelled = false) : Led w r w (r.goto (.opening k []))
  | complete {k} (hc : r.control = .turn k) (hk : r.act.sequences.length ≤ k) :
    Led w r w (r.goto (.winding .completed k))
  | missing {k records s step} (hc : r.control = .opening k records)
    (hs : r.act.sequences[k]? = some s) (hstep : s.steps[records.length]? = some step)
    (hg : w.executor.get? step.generation = none) :
    Led w r w (r.goto (.aborting (.missingGeneration step.generation)))
  | unexpected {k records s step g} (hc : r.control = .opening k records)
    (hs : r.act.sequences[k]? = some s) (hstep : s.steps[records.length]? = some step)
    (hg : w.executor.get? step.generation = some g) (hstatus : g.status ≠ .created) :
    Led w r w (r.goto (.aborting (.unexpectedState g.id g.status)))
  | found {k records s step g} (hc : r.control = .opening k records)
    (hs : r.act.sequences[k]? = some s) (hstep : s.steps[records.length]? = some step)
    (hg : w.executor.get? step.generation = some g) (hstatus : g.status = .created) :
    Led w r w (r.goto (.opening k (records ++ [g])))
  | open {k records s} {w' : World} {r' : Run} (hc : r.control = .opening k records)
    (hs : r.act.sequences[k]? = some s) (hall : s.steps.length ≤ records.length)
    (hsend : send w r (Batch.opening k s) (fun r =>
      (r.note (.sequenceStart k s)).goto (.running k w.clock (records.map .waiting))) =
      (w', r')) : Led w r w' r'
  | close {k since steps s reports} {w' : World} {r' : Run}
    (hc : r.control = .running k since steps)
    (hs : r.act.sequences[k]? = some s) (hreports : steps.mapM (·.report?) = some reports)
    (hsend : send w r (Batch.closing k s reports (elapsed since w.clock)) (fun r =>
      (r.note (.sequenceFinish k s (Tally.ofReports reports).status)).goto
        (.closed k (Tally.ofReports reports))) = (w', r')) : Led w r w' r'
  | judge {k tally} (hc : r.control = .closed k tally) :
    Led w r w ({ r with tally := r.tally.add tally }.goto (r.judge k tally))
  | finish {status k outcome} {w' : World} {r' : Run} (hc : r.control = .winding status k)
    (ho : outcome = r.outcome status k (elapsed r.startedAt w.clock))
    (hsend : send w (r.record ((r.act.sequences.drop k).map fun s => .notice (.sequenceSkip s)))
      (Batch.final status outcome.wallClockMs) (fun r =>
        ((r.note (.actComplete outcome.hasError outcome.wallClockMs)).note
          (.actFinish outcome)).goto (.done (.ok outcome))) = (w', r')) : Led w r w' r'
  | abort {e} {w' : World} {r' : Run} (hc : r.control = .aborting e)
    (hsend : send w r (Batch.abort e (elapsed r.startedAt w.clock)) id = (w', r')) :
    Led w r w' ((r'.note (.actComplete true (elapsed r.startedAt w.clock))).goto
      (.done (.error e)))

/-- Every move of the run itself is one of those in `Led`. -/
theorem led_of_lead (h : r.lead w = some (w', r')) : Led w r w' r' := by
  unfold lead at h
  cases hc : r.control with
  | ready =>
    simp only [hc] at h
    split at h
    · rename_i hs
      exact .begin hc hs (Option.some.inj h)
    · rename_i hs
      cases h
      exact .refuse hc hs
  | turn k =>
    simp only [hc] at h
    split at h
    · rename_i hk
      split at h
      · rename_i hi
        cases h
        exact .skip hc hk hi
      · rename_i hi
        cases h
        exact .enter hc hk (by simpa using hi)
    · rename_i hk
      cases h
      exact .complete hc (by omega)
  | opening k records =>
    simp only [hc, Option.map_eq_some_iff, lookUp] at h
    obtain ⟨s, hs, h⟩ := h
    split at h
    · rename_i step hstep
      split at h
      · rename_i hg
        cases h
        exact .missing hc hs hstep hg
      · rename_i g hg
        split at h
        · rename_i hstatus
          cases h
          exact .found hc hs hstep hg hstatus
        · rename_i hstatus
          cases h
          exact .unexpected hc hs hstep hg hstatus
    · rename_i hall
      exact .open hc hs (List.getElem?_eq_none_iff.mp hall) h
  | running k since steps =>
    simp only [hc, Option.bind_eq_bind, Option.bind_eq_some_iff] at h
    obtain ⟨s, hs, reports, hreports, h⟩ := h
    exact .close hc hs hreports (Option.some.inj h)
  | closed k tally =>
    simp only [hc] at h
    cases h
    exact .judge hc
  | winding status k =>
    simp only [hc] at h
    exact .finish hc rfl (Option.some.inj h)
  | aborting e =>
    simp only [hc] at h
    cases h
    exact .abort hc rfl
  | done result => simp [hc] at h

/-- Where a run goes after a sequence, with the reason. -/
theorem judge_eq (r : Run) (k : Nat) (tally : Tally) :
    (r.judge k tally = .winding .cancelled (k + 1) ∧ (r.isCancelled ∨ 0 < tally.cancelled)) ∨
    (r.judge k tally = .winding .failed (k + 1) ∧ tally.cancelled = 0 ∧ 0 < tally.failed) ∨
    (r.judge k tally = .turn (k + 1) ∧ tally.cancelled = 0 ∧ tally.failed = 0) := by
  unfold judge
  split
  · rename_i hcancel
    exact Or.inl ⟨rfl, by simpa using hcancel⟩
  · rename_i hcancel
    have hz : tally.cancelled = 0 := by
      simp only [Bool.or_eq_true, decide_eq_true_eq, not_or] at hcancel
      omega
    split
    · rename_i hfail
      exact Or.inr (Or.inl ⟨rfl, hz, hfail⟩)
    · rename_i hfail
      exact Or.inr (Or.inr ⟨rfl, hz, by omega⟩)

/-! ## What a move of the run leaves alone -/

/-- `r'` is what became of `r` without a call on the executor. -/
structure Continues (r r' : Run) : Prop where
  act_eq : r'.act = r.act
  startedAt_eq : r'.startedAt = r.startedAt
  isCancelled_eq : r'.isCancelled = r.isCancelled
  /-- Only batches were sent since, and notices about the run. -/
  journal : ∃ es, r'.journal = r.journal ++ es ∧ ∀ e ∈ es, e.isOfRun

namespace Continues

theorem goto (r : Run) (c : Control) : Continues r (r.goto c) :=
  ⟨rfl, rfl, rfl, [], by simp, by simp⟩

theorem record (r : Run) {es : List Entry} (h : ∀ e ∈ es, e.isOfRun) :
    Continues r (r.record es) := ⟨rfl, rfl, rfl, es, rfl, h⟩

theorem note (r : Run) {n : Notice} (h : n.isOfStep = false) : Continues r (r.note n) :=
  record r (by simp [Entry.isOfRun, h])

/-- A run says which sequences it has skipped. -/
theorem skip (r : Run) (k : Nat) : Continues r
    (r.record ((r.act.sequences.drop k).map fun s => .notice (.sequenceSkip s))) := by
  refine record r fun e he => ?_
  obtain ⟨s, -, rfl⟩ := List.mem_map.mp he
  rfl

/-- A run that is continued twice is continued. -/
theorem trans {q : Run} (h : Continues r r') (h' : Continues r' q) : Continues r q := by
  obtain ⟨es, hes, hrun⟩ := h.journal
  obtain ⟨es', hes', hrun'⟩ := h'.journal
  refine ⟨h'.act_eq.trans h.act_eq, h'.startedAt_eq.trans h.startedAt_eq,
    h'.isCancelled_eq.trans h.isCancelled_eq, es ++ es', by rw [hes', hes, List.append_assoc], ?_⟩
  exact fun e he => (List.mem_append.mp he).elim (hrun e) (hrun' e)

/-- A run says what it does, and goes on. -/
theorem note_goto (r : Run) {n : Notice} (h : n.isOfStep = false) (c : Control) :
    Continues r ((r.note n).goto c) :=
  (note r h).trans (.goto _ c)

/-- A batch that is sent is an entry of the run's own. -/
theorem of_send {patches : List Patch} {next : Run → Run}
    (h : send w r patches next = (w', r')) (hnext : ∀ q, Continues q (next q)) :
    Continues r r' := by
  rcases send_eq h with ⟨store, -, rfl, rfl⟩ | ⟨e, -, rfl, rfl⟩
  · exact (record r (by simp [Entry.isOfRun])).trans (hnext _)
  · exact (record r (by simp [Entry.isOfRun])).trans (goto _ _)

end Continues

theorem send_world {patches : List Patch} {next : Run → Run}
    (h : send w r patches next = (w', r')) : ∃ store, w' = { w with store } := by
  rcases send_eq h with ⟨store, -, rfl, -⟩ | ⟨e, -, rfl, -⟩
  · exact ⟨store, rfl⟩
  · exact ⟨w'.store, rfl⟩

/-- A move of the run itself makes no call on the executor. -/
theorem Led.continues (h : Led w r w' r') : Continues r r' := by
  cases h with
  | begin hc hs hsend => exact .of_send hsend fun q => .note_goto q rfl _
  | «open» hc hs hall hsend => exact .of_send hsend fun q => .note_goto q rfl _
  | close hc hs hreports hsend => exact .of_send hsend fun q => .note_goto q rfl _
  | @finish status k outcome _ _ hc ho hsend =>
    exact (Continues.skip r k).trans
      (.of_send hsend fun q => (Continues.note q rfl).trans (.note_goto _ rfl _))
  | abort hc hsend =>
    exact ((Continues.of_send hsend fun q => .goto q _).trans (.note _ rfl)).trans (.goto _ _)
  | judge hc => exact ⟨rfl, rfl, rfl, [], by simp, by simp⟩
  | _ => exact .goto r _

/-- Of what runs share, a move of the run itself changes the store only. -/
theorem Led.world_eq (h : Led w r w' r') : ∃ store, w' = { w with store } := by
  cases h with
  | begin hc hs hsend => exact send_world hsend
  | «open» hc hs hall hsend => exact send_world hsend
  | close hc hs hreports hsend => exact send_world hsend
  | finish hc ho hsend => exact send_world hsend
  | abort hc hsend => exact send_world hsend
  | _ => exact ⟨w.store, rfl⟩

theorem Led.executor_eq (h : Led w r w' r') : w'.executor = w.executor := by
  obtain ⟨store, rfl⟩ := h.world_eq
  rfl

theorem Led.clock_eq (h : Led w r w' r') : w'.clock = w.clock := by
  obtain ⟨store, rfl⟩ := h.world_eq
  rfl

/-! ## Moves of steps -/

/-- A move of a step changes the executor, the step's own activity and the
journal, and nothing else. -/
theorem stepMove_eq {j : Nat} (h : r.stepMove w j = some (w', r')) :
    ∃ k since steps s step activity x activity' entries, r.control = .running k since steps ∧
      r.act.sequences[k]? = some s ∧ s.steps[j]? = some step ∧ steps[j]? = some activity ∧
      activity.advance w.executor w.clock r.isCancelled ⟨k, j, step⟩ =
        some (x, activity', entries) ∧
      w' = w.withExecutor x ∧
      r' = (r.record entries).goto (.running k since (steps.set j activity')) := by
  unfold stepMove at h
  split at h
  · rename_i k since steps hc
    simp only [Option.bind_eq_bind, Option.bind_eq_some_iff, Option.pure_def,
      Option.some.injEq, Prod.mk.injEq, Prod.exists] at h
    obtain ⟨s, hs, step, hstep, activity, hactivity, x, activity', entries, hadvance, hw, hr⟩ := h
    exact ⟨k, since, steps, s, step, activity, x, activity', entries, hc, hs, hstep, hactivity,
      hadvance, hw.symm, hr.symm⟩
  · cases h

end Run

namespace Activity

variable {x : Executor} {clock : Nat} {isCancelled : Bool} {p : PlacedStep}

/-- A failure is recorded by at most one change of the registry. -/
theorem recordFailure_eq {x' : Executor} {id : GenerationId} {message : String} {now : Timestamp}
    {entries : List Entry} (h : recordFailure x id message now = (x', entries)) :
    (x' = x ∧ entries = []) ∨
    ∃ failed, x' = (x.set failed).toOption.getD x ∧ entries = [.set id failed.status] := by
  unfold recordFailure at h
  split at h
  · cases h
    exact Or.inl ⟨rfl, rfl⟩
  · split at h
    · cases h
      exact Or.inl ⟨rfl, rfl⟩
    · split at h
      · cases h
        exact Or.inl ⟨rfl, rfl⟩
      · rename_i failed _
        cases h
        exact Or.inr ⟨failed, rfl, rfl⟩

/-- A move of one step, with its conditions. -/
inductive Advanced (x : Executor) (clock : Nat) (isCancelled : Bool) (p : PlacedStep) :
    Activity → Executor → Activity → List Entry → Prop
  | skip {record} (hi : isCancelled) :
    Advanced x clock isCancelled p (.waiting record) x (.ended ⟨.cancelled, 0⟩)
      [.notice (.stepCancel p.step)]
  | unqueued {record} {e : TransitionError} (hi : isCancelled = false)
    (hq : record.queue (.ofMillis clock) = .error e) :
    Advanced x clock isCancelled p (.waiting record) x (.refused clock e.report.text) []
  | unset {record queued} {e : ExecutorError} (hi : isCancelled = false)
    (hq : record.queue (.ofMillis clock) = .ok queued) (hx : x.set queued = .error e) :
    Advanced x clock isCancelled p (.waiting record) x (.refused clock e.report.text)
      [.set queued.id queued.status]
  | announce {record queued x'} (hi : isCancelled = false)
    (hq : record.queue (.ofMillis clock) = .ok queued) (hx : x.set queued = .ok x') :
    Advanced x clock isCancelled p (.waiting record) x' (.announced clock)
      [.set queued.id queued.status, .notice (.stepStart p.step)]
  | unstarted {since} {e : ExecutorError}
    (hx : x.start p.step.generation p.step.operation.isStreaming (.ofMillis clock) = .error e) :
    Advanced x clock isCancelled p (.announced since) x (.refused since e.report.text)
      [.start p.step.generation p.step.operation.isStreaming]
  | start {since x' flight}
    (hx : x.start p.step.generation p.step.operation.isStreaming (.ofMillis clock) =
      .ok (x', flight)) :
    Advanced x clock isCancelled p (.announced since) x' (.flying since flight 0 false)
      [.start p.step.generation p.step.operation.isStreaming]
  | stop {since flight taken} (hi : isCancelled) :
    Advanced x clock isCancelled p (.flying since flight taken false)
      ((x.stop p.step.generation (.ofMillis clock)).toOption.getD x)
      (.flying since flight taken true) [.stop p.step.generation]
  | delta {since flight taken isStopped f text} (hf : x.registry.flights[flight]? = some f)
    (hs : f.heard[taken]? = some (.delta text)) :
    Advanced x clock isCancelled p (.flying since flight taken isStopped) x
      (.flying since flight (taken + 1) isStopped) [.notice (.stepDelta p.step text)]
  | complete {since flight taken isStopped f record}
    (hf : x.registry.flights[flight]? = some f)
    (hs : f.heard[taken]? = some (.completed record)) :
    Advanced x clock isCancelled p (.flying since flight taken isStopped) x
      (.ended ⟨.completed, elapsed since clock⟩) [.notice (.stepComplete p.step)]
  | fail {since flight taken isStopped f record message}
    (hf : x.registry.flights[flight]? = some f)
    (hs : f.heard[taken]? = some (.failed record))
    (hm : message = record.error.getD "generation failed") :
    Advanced x clock isCancelled p (.flying since flight taken isStopped) x
      (.ended ⟨.failed message, elapsed since clock⟩)
      [.notice (.stepError p.step p.sequence p.index message)]
  | break {since flight taken isStopped f message} (hf : x.registry.flights[flight]? = some f)
    (hs : f.heard[taken]? = some (.broken message)) :
    Advanced x clock isCancelled p (.flying since flight taken isStopped) x
      (.refused since message) []
  | lose {since flight taken isStopped f} (hf : x.registry.flights[flight]? = some f)
    (hs : f.heard[taken]? = none) (hopen : (f.isOpen && (f.isStreaming || !isStopped)) = false) :
    Advanced x clock isCancelled p (.flying since flight taken isStopped) x
      (.ended ⟨.cancelled, elapsed since clock⟩) [.notice (.stepCancel p.step)]
  | settle {since message x' entries}
    (hr : recordFailure x p.step.generation message (.ofMillis clock) = (x', entries)) :
    Advanced x clock isCancelled p (.refused since message) x'
      (.ended ⟨.failed message, elapsed since clock⟩)
      (entries ++ [.notice (.stepError p.step p.sequence p.index message)])

/-- What a step does when it looks at what its flight has heard. -/
theorem advanced_of_listen {since flight taken : Nat} {isStopped : Bool} {a' : Activity}
    {entries : List Entry}
    (h : listen x clock p since flight taken isStopped = some (a', entries)) :
    Advanced x clock isCancelled p (.flying since flight taken isStopped) x a' entries := by
  unfold listen at h
  simp only at h
  split at h
  · cases h
  · rename_i f hf
    split at h
    · rename_i text hs
      cases h
      exact .delta hf hs
    · rename_i record hs
      cases h
      exact .complete hf hs
    · rename_i record hs
      cases h
      exact .fail hf hs rfl
    · rename_i message hs
      cases h
      exact .break hf hs
    · rename_i hs
      split at h
      · cases h
      · rename_i hopen
        cases h
        exact .lose hf hs (by simpa using hopen)

/-- Every move of a step is one of those in `Advanced`. -/
theorem advanced_of_advance {a a' : Activity} {x' : Executor} {entries : List Entry}
    (h : advance x clock isCancelled p a = some (x', a', entries)) :
    Advanced x clock isCancelled p a x' a' entries := by
  cases a with
  | waiting record =>
    simp only [advance] at h
    split at h
    · rename_i hi
      cases h
      exact .skip hi
    · rename_i hi
      have hi : isCancelled = false := by simpa using hi
      split at h
      · rename_i e hq
        cases h
        exact .unqueued hi hq
      · rename_i queued hq
        split at h
        · rename_i e hx
          cases h
          exact .unset hi hq hx
        · rename_i y hx
          cases h
          exact .announce hi hq hx
  | announced since =>
    simp only [advance] at h
    split at h
    · rename_i e hx
      cases h
      exact .unstarted hx
    · rename_i y flight hx
      cases h
      exact .start hx
  | flying since flight taken isStopped =>
    simp only [advance] at h
    split at h
    · rename_i hi
      simp only [Bool.and_eq_true, Bool.not_eq_true'] at hi
      obtain ⟨hi, rfl⟩ := hi
      cases h
      exact .stop hi
    · simp only [Option.map_eq_some_iff, Prod.mk.injEq, Prod.exists] at h
      obtain ⟨b, es, hl, rfl, rfl, rfl⟩ := h
      exact advanced_of_listen hl
  | refused since message =>
    simp only [advance] at h
    cases h
    exact .settle rfl
  | ended report => simp [advance] at h

/-- If every step has a report, every step has ended. -/
theorem eq_map_ended {steps : List Activity} {reports : List StepReport}
    (h : steps.mapM (·.report?) = some reports) : steps = reports.map .ended := by
  induction steps generalizing reports with
  | nil =>
    simp only [List.mapM_nil, Option.pure_def, Option.some.injEq] at h
    rw [← h]
    rfl
  | cons a rest ih =>
    simp only [List.mapM_cons, Option.bind_eq_bind, Option.bind_eq_some_iff, Option.pure_def,
      Option.some.injEq] at h
    obtain ⟨r, hr, rs, hrs, rfl⟩ := h
    rw [ih hrs, List.map_cons]
    cases a with
    | ended report => rw [Option.some.inj hr]
    | _ => cases hr

end Activity

end Workflow
