/-
Workflow.Proofs.Engine.Abort — a run that finds a sequence it cannot start.

All generations of a sequence are looked up before anything is done to one
of them. If one is missing, or is not created any more, the run returns with
an error that tells of the first such step.

* `Run.Spares` — wherever a run stands, it has done nothing to the
  generations of later sequences.
* `Doomed` — from the first look-up on: how many moves the run has left, and
  what is stored and told meanwhile. `Doomed.move` and `Doomed.wait` are all
  that can happen.
* `aborted_before_sequence` — what is left behind: the sequences before are
  completed, all others are as they were planned, and so are their
  generations.
-/
import Workflow.Proofs.Engine.Alike
import Workflow.Proofs.Engine.Announcement
import Workflow.Proofs.Store.Replay

namespace Workflow

open Registry

/-! ## Stores stay open -/

/-- Nothing that others do closes the store. -/
theorem World.isClosed_after {w : World} (hopen : w.store.isClosed = false) (d : Deed) :
    (w.after d).store.isClosed = false := by
  cases d with
  | store command => exact Store.isClosed_run command hopen
  | executor command => exact hopen
  | wait ms => exact hopen

theorem World.isClosed_afterAll {w : World} (hopen : w.store.isClosed = false)
    (deeds : List Deed) : (w.afterAll deeds).store.isClosed = false := by
  induction deeds generalizing w with
  | nil => exact hopen
  | cons d rest ih => exact ih (isClosed_after hopen d)

theorem World.LeavesWork.isClosed {a : Act} {w w' : World} (h : w.LeavesWork a w')
    (hopen : w.store.isClosed = false) : w'.store.isClosed = false := by
  obtain ⟨-, d, rfl, -⟩ := h
  exact isClosed_after hopen d

theorem Run.Led.isClosed {w w' : World} {r r' : Run} (h : Led w r w' r')
    (hopen : w.store.isClosed = false) : w'.store.isClosed = false := by
  rcases h.store_eq with hsame | ⟨patches, happly⟩
  · rwa [hsame]
  · obtain ⟨-, -, -, -, -, -, hclosed⟩ := Store.apply_eq happly
    exact hclosed

/-! ## Generations of later sequences

Nobody but the run touches the generations of the act, and the run touches
those of one sequence at a time. So those of later sequences are as they were
loaded. -/

/-- The identifier is of no step from sequence `n` on. -/
def Act.IsBefore (a : Act) (n : Nat) (id : GenerationId) : Prop :=
  ∀ q, a.Has q → n ≤ q.sequence → id ≠ q.step.generation

/-- Where all generations are distinct, that of a step is of no later one. -/
theorem Act.Has.isBefore {a : Act} {p : PlacedStep} {n : Nat} (hp : a.Has p)
    (hdistinct : a.generations.Nodup) (hn : p.sequence < n) : a.IsBefore n p.step.generation := by
  intro q hq hle heq
  obtain rfl := Act.eq_of_generation hdistinct hp hq heq
  omega

/-- From sequence `n` on the run has done nothing to the generations, and
others have done no more than work on them. `loaded` is the registry before
the run. -/
structure Spared (loaded : Registry) (a : Act) (n : Nat) (x : Registry) (journal : List Entry) :
    Prop where
  works : ∀ q, a.Has q → n ≤ q.sequence → Works q.step.generation loaded x
  silent : ∀ q, a.Has q → n ≤ q.sequence → ∀ e ∈ journal, ¬ e.IsAbout q

namespace Spared

variable {loaded x x' : Registry} {a : Act} {n m : Nat} {journal es : List Entry}

/-- Before the run begins, all is as it was loaded. -/
theorem begin (x : Registry) (a : Act) : Spared x a 0 x [] where
  works := by
    intro q _ _
    exact .refl
  silent := by simp

/-- What only works on later generations, and tells nothing of their steps,
spares them. -/
theorem change (h : Spared loaded a n x journal)
    (hchange : ∀ q, a.Has q → n ≤ q.sequence →
      Works q.step.generation x x' ∧ ∀ e ∈ es, ¬ e.IsAbout q) :
    Spared loaded a n x' (journal ++ es) where
  works := by
    intro q hq hn
    exact (h.works q hq hn).trans (hchange q hq hn).1
  silent := by
    intro q hq hn e he
    rcases List.mem_append.mp he with hold | hnew
    · exact h.silent q hq hn e hold
    · exact (hchange q hq hn).2 e hnew

/-- Fewer sequences are spared as the run goes on. -/
theorem later (h : Spared loaded a n x journal) (hle : n ≤ m) : Spared loaded a m x journal where
  works := by
    intro q hq hm
    exact h.works q hq (Nat.le_trans hle hm)
  silent := by
    intro q hq hm
    exact h.silent q hq (Nat.le_trans hle hm)

/-- A generation of theirs is created if it was before the run. -/
theorem created_iff (h : Spared loaded a n x journal) {q : PlacedStep} (hq : a.Has q)
    (hn : n ≤ q.sequence) :
    x.HasStatus q.step.generation .created ↔ loaded.HasStatus q.step.generation .created :=
  (h.works q hq hn).created_iff

end Spared

/-- What a run writes by itself is about no step. -/
theorem Run.Continues.spared {loaded x : Registry} {a : Act} {n : Nat} {r r' : Run}
    (h : Continues r r') (hspared : Spared loaded a n x r.journal) :
    Spared loaded a n x r'.journal := by
  obtain ⟨es, hes, hrun⟩ := h.journal
  rw [hes]
  refine hspared.change ?_
  intro q _ _
  exact ⟨.refl, fun e he => Entry.isAbout_of_isOfRun (hrun e he) q⟩

/-- What others do spares the generations of an act whose work they leave
to the run. -/
theorem World.LeavesWork.spared {loaded : Registry} {a : Act} {n : Nat} {journal : List Entry}
    {w w' : World} (h : w.LeavesWork a w') (hs : w.executor.registry.Sound)
    (hspared : Spared loaded a n w.executor.registry journal) :
    Spared loaded a n w'.executor.registry journal := by
  rw [← List.append_nil journal]
  refine hspared.change ?_
  intro q hq _
  exact ⟨h.works hs _ hq.mem_generations, by simp⟩

namespace Run

variable {w w' : World} {r r' : Run} {a : Act} {loaded x : Registry}

/-- Wherever the run stands, it has spared the generations of all sequences
that it has not opened. The records that it holds on to are of none of
them. -/
def Spares (loaded : Registry) (a : Act) (x : Registry) (r : Run) : Prop :=
  match r.control with
  | .ready => Spared loaded a 0 x r.journal
  | .turn k | .winding _ k => Spared loaded a k x r.journal
  | .opening k records => Spared loaded a k x r.journal ∧
    ∀ g ∈ records, a.IsBefore (k + 1) g.id
  | .running k _ steps => Spared loaded a (k + 1) x r.journal ∧
    ∀ g, .waiting g ∈ steps → a.IsBefore (k + 1) g.id
  | .closed k _ => Spared loaded a (k + 1) x r.journal
  | .aborting _ | .done _ => True

/-- A batch that is refused leaves nothing to show. -/
theorem spares_of_send {patches : List Patch} {next : Run → Run}
    (h : send w r patches next = (w', r'))
    (hnext : r' = next (r.record [.batch patches none]) → r'.Spares loaded a x) :
    r'.Spares loaded a x := by
  rcases send_eq h with ⟨store, -, -, heq⟩ | ⟨e, -, -, rfl⟩
  · exact hnext heq
  · exact trivial

/-- What spares the generations of later sequences from a change of the
registry does so for the run. -/
theorem Spares.change {x' : Registry} (h : r.Spares loaded a x)
    (hx : ∀ n, Spared loaded a n x r.journal → Spared loaded a n x' r.journal) :
    r.Spares loaded a x' := by
  unfold Spares at h ⊢
  split at h
  · exact hx _ h
  · exact hx _ h
  · exact hx _ h
  · exact ⟨hx _ h.1, h.2⟩
  · exact ⟨hx _ h.1, h.2⟩
  · exact hx _ h
  · exact trivial
  · exact trivial

/-- The run itself calls on generations of the sequence that it opens only. -/
theorem Led.spares (h : Led w r w' r') (hs : w.executor.registry.Sound)
    (hdistinct : a.generations.Nodup) (hact : r.act = a)
    (hr : r.Spares loaded a w.executor.registry) : r'.Spares loaded a w'.executor.registry := by
  rw [h.executor_eq]
  have hcontinues := h.continues
  cases h with
  | refuse hc hstatus => exact trivial
  | begin hc hstatus hsend =>
    simp only [Spares, hc] at hr
    refine spares_of_send hsend ?_
    rintro rfl
    exact hcontinues.spared hr
  | skip hc hk hi =>
    simp only [Spares, hc] at hr
    exact hr
  | enter hc hk hi =>
    simp only [Spares, hc] at hr
    exact ⟨hr, by simp⟩
  | complete hc hk =>
    simp only [Spares, hc] at hr
    exact hr
  | missing hc hseq hstep hg => exact trivial
  | unexpected hc hseq hstep hg hstatus => exact trivial
  | @found k records s step g hc hseq hstep hg hstatus =>
    simp only [Spares, hc] at hr
    obtain ⟨hspared, hrecords⟩ := hr
    -- the record that was found is of a step of the sequence that opens
    have hhas : a.Has ⟨k, records.length, step⟩ := by
      rw [Act.Has, Act.step?, ← hact, hseq]
      exact hstep
    refine ⟨hspared, ?_⟩
    intro g' hg'
    rcases List.mem_append.mp hg' with hold | hnew
    · exact hrecords g' hold
    · rw [List.mem_singleton.mp hnew, hs.key_eq _ _ hg]
      exact hhas.isBefore hdistinct (Nat.lt_succ_self k)
  | @«open» k records s w' r' hc hseq hall hsend =>
    simp only [Spares, hc] at hr
    obtain ⟨hspared, hrecords⟩ := hr
    refine spares_of_send hsend ?_
    rintro rfl
    refine ⟨hcontinues.spared (hspared.later (Nat.le_succ k)), ?_⟩
    intro g hg
    obtain ⟨g', hg', heq⟩ := List.mem_map.mp hg
    cases heq
    exact hrecords g hg'
  | close hc hseq hreports hsend =>
    simp only [Spares, hc] at hr
    refine spares_of_send hsend ?_
    rintro rfl
    exact hcontinues.spared hr.1
  | @judge k tally hc =>
    simp only [Spares, hc] at hr
    simp only [Spares, goto_control]
    rcases r.judge_eq k tally with ⟨hj, -⟩ | ⟨hj, -⟩ | ⟨hj, -⟩ <;> rw [hj] <;> exact hr
  | finish hc ho hsend =>
    refine spares_of_send hsend ?_
    rintro rfl
    exact trivial
  | abort hc hsend => exact trivial

/-- A step calls on its own generation only, and this is one of the sequence
that is running. -/
theorem spares_of_stepMove {j : Nat} (h : r.stepMove w j = some (w', r'))
    (hs : w.executor.registry.Sound) (hdistinct : a.generations.Nodup) (hact : r.act = a)
    (hr : r.Spares loaded a w.executor.registry) : r'.Spares loaded a w'.executor.registry := by
  obtain ⟨k, since, steps, s, step, b, y, b', es, hc, hseq, hstep, hb, hadvance, rfl, rfl⟩ :=
    stepMove_eq h
  have hadvanced := Activity.advanced_of_advance hadvance
  have hp : a.Has ⟨k, j, step⟩ := by
    rw [Act.Has, Act.step?, ← hact, hseq]
    exact hstep
  simp only [Spares, hc] at hr
  obtain ⟨hspared, hwaiting⟩ := hr
  refine ⟨hspared.change ?_, ?_⟩
  · intro q hq hk
    have hrecord : ∀ record, b = .waiting record → record.id ≠ q.step.generation := by
      rintro record rfl
      exact hwaiting record (List.mem_of_getElem? hb) q hq hk
    have hid : step.generation ≠ q.step.generation :=
      hp.isBefore hdistinct (Nat.lt_succ_self k) q hq hk
    have hplace : ¬ (k = q.sequence ∧ j = q.index) := by omega
    obtain ⟨hapart, hes⟩ := hadvanced.spares hs hrecord hid hplace
    exact ⟨.of_apart hapart, hes⟩
  · intro g hg
    rcases List.mem_or_eq_of_mem_set hg with hold | rfl
    · exact hwaiting g hold
    · -- a step that has moved waits no more
      cases record?_of_advanced hadvanced

end Run

/-! ## Ends that are told -/

/-- Whether an observer is told by it that the act is over. -/
def Entry.isEnd : Entry → Bool
  | .notice (.actComplete ..) | .notice (.actFinish _) => true
  | _ => false

namespace Run

/-- All that an observer was told of the end of the act. -/
def endings (r : Run) : List Entry := r.journal.filter (·.isEnd)

@[simp] theorem endings_goto (r : Run) (c : Control) : (r.goto c).endings = r.endings := rfl

@[simp] theorem endings_record (r : Run) (es : List Entry) :
    (r.record es).endings = r.endings ++ es.filter (·.isEnd) := List.filter_append ..

@[simp] theorem endings_note (r : Run) (n : Notice) :
    (r.note n).endings = r.endings ++ [Entry.notice n].filter (·.isEnd) := List.filter_append ..

end Run

/-- A step tells nothing of the end of the act. -/
theorem Activity.Advanced.isEnd_filter {x x' : Executor} {clock : Nat} {isCancelled : Bool}
    {p : PlacedStep} {b b' : Activity} {es : List Entry}
    (h : Advanced x clock isCancelled p b x' b' es) : es.filter (·.isEnd) = [] := by
  cases h with
  | settle hr =>
    rcases recordFailure_eq hr with ⟨-, rfl⟩ | ⟨failed, -, rfl⟩ <;> simp [Entry.isEnd]
  | _ => simp [Entry.isEnd]

namespace Run

variable {w w' : World} {r r' : Run}

/-- A batch does not tell of the end of the act. -/
theorem endings_of_send {patches : List Patch} {next : Run → Run}
    (h : send w r patches next = (w', r')) (hr : r.endings = [])
    (hnext : ∀ q : Run, q.endings = [] → (next q).endings = [] ∨ (next q).result?.isSome) :
    r'.endings = [] ∨ r'.result?.isSome := by
  rcases send_eq h with ⟨store, -, -, rfl⟩ | ⟨e, -, -, rfl⟩
  · exact hnext _ (by simp [hr, Entry.isEnd])
  · exact Or.inl (by simp [hr, Entry.isEnd])

/-- As long as the run goes on, nothing of the end of the act is told. -/
theorem Led.endings (h : Led w r w' r') (hr : r.endings = []) :
    r'.endings = [] ∨ r'.result?.isSome := by
  cases h with
  | refuse hc hs => exact Or.inr rfl
  | begin hc hs hsend =>
    refine endings_of_send hsend hr ?_
    intro q hq
    exact Or.inl (by simp [hq, Entry.isEnd])
  | «open» hc hs hall hsend =>
    refine endings_of_send hsend hr ?_
    intro q hq
    exact Or.inl (by simp [hq, Entry.isEnd])
  | close hc hs hreports hsend =>
    refine endings_of_send hsend hr ?_
    intro q hq
    exact Or.inl (by simp [hq, Entry.isEnd])
  | finish hc ho hsend =>
    refine endings_of_send hsend ?_ fun q _ => Or.inr rfl
    rw [endings_record, hr, List.nil_append]
    refine List.filter_eq_nil_iff.mpr ?_
    intro entry hentry
    obtain ⟨s, -, rfl⟩ := List.mem_map.mp hentry
    exact Bool.false_ne_true
  | abort hc hsend => exact Or.inr rfl
  | _ => exact Or.inl hr

theorem endings_of_stepMove {j : Nat} (h : r.stepMove w j = some (w', r')) :
    r'.endings = r.endings := by
  obtain ⟨_, _, _, _, _, _, _, _, es, -, -, -, -, hadvance, -, rfl⟩ := stepMove_eq h
  simp [(Activity.advanced_of_advance hadvance).isEnd_filter]

end Run

/-! ## The first step that cannot be started -/

/-- `p` is the first step of its sequence whose generation is missing, or not
created any more. -/
structure FirstUnready (a : Act) (x : Registry) (p : PlacedStep) : Prop where
  has : a.Has p
  unready : ¬ x.HasStatus p.step.generation .created
  /-- The records are checked in order, so those before it were found
  ready. -/
  ready_before : ∀ q, a.Has q → q.sequence = p.sequence → q.index < p.index →
    x.HasStatus q.step.generation .created

/-- Where some step is not ready, one is the first. -/
theorem exists_firstUnready {a : Act} {x : Registry} {k : Nat}
    (h : ∃ p, a.Has p ∧ p.sequence = k ∧ ¬ x.HasStatus p.step.generation .created) :
    ∃ p, p.sequence = k ∧ FirstUnready a x p := by
  have hex : ∃ j p, a.Has p ∧ p.sequence = k ∧ p.index = j ∧
      ¬ x.HasStatus p.step.generation .created := by
    obtain ⟨p, hp, hk, hunready⟩ := h
    exact ⟨p.index, p, hp, hk, rfl, hunready⟩
  classical
  obtain ⟨p, hp, hk, hj, hunready⟩ := Nat.find_spec hex
  refine ⟨p, hk, hp, hunready, ?_⟩
  intro q hq hsame hlt
  by_contra hnot
  rw [hj] at hlt
  exact Nat.find_min hex hlt ⟨q, hq, hsame.trans hk, rfl, hnot⟩

/-- The error tells what is wrong with the generation of a step. -/
inductive Blames (x : Registry) (step : Step) : EngineError → Prop
  | missing (hg : x.get? step.generation = none) :
    Blames x step (.missingGeneration step.generation)
  | unexpected {g : Generation} (hg : x.get? step.generation = some g)
    (hstatus : g.status ≠ .created) : Blames x step (.unexpectedState step.generation g.status)

/-- What a look-up finds: every step before `p` has a generation that is
created, `p` has none. -/
theorem FirstUnready.looked_up {a : Act} {loaded x : Registry} {p : PlacedStep}
    {journal : List Entry} (h : FirstUnready a loaded p)
    (hspared : Spared loaded a p.sequence x journal) {s : Sequence} {step : Step} {j : Nat}
    (hs : a.sequences[p.sequence]? = some s) (hstep : s.steps[j]? = some step)
    (hle : j ≤ p.index) :
    (j < p.index ∧ x.HasStatus step.generation .created) ∨
      (j = p.index ∧ step = p.step ∧ ¬ x.HasStatus step.generation .created) := by
  have hhas : a.Has ⟨p.sequence, j, step⟩ := by
    rw [Act.Has, Act.step?, hs]
    exact hstep
  have hiff : x.HasStatus step.generation .created ↔ loaded.HasStatus step.generation .created :=
    hspared.created_iff hhas (Nat.le_refl p.sequence)
  rcases Nat.lt_or_eq_of_le hle with hlt | rfl
  · exact Or.inl ⟨hlt, hiff.mpr (h.ready_before _ hhas rfl hlt)⟩
  · obtain rfl : step = p.step := Option.some.inj (hhas.symm.trans h.has)
    exact Or.inr ⟨rfl, rfl, fun hcreated => h.unready (hiff.mp hcreated)⟩

namespace Run

variable {w w' : World} {r r' : Run} {a stored : Act} {loaded : Registry}

/-- A run that looks up the sequence of `p` goes on to the next record, up to
`p`, and there it fails. -/
theorem Led.of_opening {p : PlacedStep} {records : List Generation} (h : Led w r w' r')
    (hp : FirstUnready a loaded p) (hs : w.executor.registry.Sound) (hact : r.act = a)
    (hspared : Spared loaded a p.sequence w.executor.registry r.journal)
    (hc : r.control = .opening p.sequence records) (hle : records.length ≤ p.index) :
    (∃ g, records.length < p.index ∧ w' = w ∧
      r' = r.goto (.opening p.sequence (records ++ [g]))) ∨
    (∃ e, records.length = p.index ∧ Blames w.executor.registry p.step e ∧ w' = w ∧
      r' = r.goto (.aborting e)) := by
  cases h with
  | missing hc' hseq hstep hg =>
    cases hc.symm.trans hc'
    rcases hp.looked_up hspared (hact ▸ hseq) hstep hle with
      ⟨-, g, hg', -⟩ | ⟨hlen, rfl, -⟩
    · cases hg.symm.trans hg'
    · exact Or.inr ⟨_, hlen, .missing hg, rfl, rfl⟩
  | @unexpected _ _ _ _ g hc' hseq hstep hg hstatus =>
    cases hc.symm.trans hc'
    rcases hp.looked_up hspared (hact ▸ hseq) hstep hle with
      ⟨-, g', hg', hcreated⟩ | ⟨hlen, rfl, -⟩
    · obtain rfl := Option.some.inj (hg.symm.trans hg')
      exact absurd hcreated hstatus
    · have hid : g.id = p.step.generation := hs.key_eq _ _ hg
      rw [hid]
      exact Or.inr ⟨_, hlen, .unexpected hg hstatus, rfl, rfl⟩
  | @found _ _ _ _ g hc' hseq hstep hg hstatus =>
    cases hc.symm.trans hc'
    rcases hp.looked_up hspared (hact ▸ hseq) hstep hle with ⟨hlt, -⟩ | ⟨-, -, hunready⟩
    · exact Or.inl ⟨g, hlt, rfl, rfl⟩
    · exact absurd ⟨g, hg, hstatus⟩ hunready
  | «open» hc' hseq hall hsend =>
    cases hc.symm.trans hc'
    -- all steps were found, and `p` is one of them
    obtain ⟨hlt, -⟩ := List.getElem?_eq_some_iff.mp (hp.has.getElem? (hact ▸ hseq))
    omega
  | _ => cases hc.symm.trans ‹r.control = _›

/-- An open store takes the batch by which a run is aborted. -/
theorem Led.of_aborting {e : EngineError} (h : Led w r w' r') (hc : r.control = .aborting e)
    (hact : r.act = a) (hget : w.store.get? a.id = some stored)
    (hopen : w.store.isClosed = false) : ∃ ms < 2 ^ 64,
      w'.store.get? a.id = some (stored.finished .failed ms [Batch.abortNote e]) ∧
      r'.control = .done (.error e) ∧
      r'.endings = r.endings ++ [.notice (.actComplete true ms)] := by
  cases h with
  | abort hc' hsend =>
    cases hc.symm.trans hc'
    obtain ⟨-, hnew, rfl⟩ := send_of_update hact hget hopen
      (Act.takes_abort stored e (elapsed r.startedAt w.clock)).update_eq hsend
    refine ⟨elapsed r.startedAt w.clock, elapsed_lt _ _, hnew, rfl, ?_⟩
    simp [Entry.isEnd]
  | _ => cases hc.symm.trans ‹r.control = _›

end Run

/-! ## What is stored in the end -/

/-- Steps that were completed leave no annotation of a failure. -/
theorem Batch.failures_of_completed {s : Sequence} {reports : List (Step × StepReport)}
    (h : ∀ x ∈ reports, x.2.outcome = .completed) : Batch.failures s reports = [] := by
  induction reports with
  | nil => rfl
  | cons x rest ih =>
    have hhead : x.2.outcome = .completed := h x List.mem_cons_self
    rw [Batch.failures, hhead]
    exact ih fun y hy => h y (List.mem_cons_of_mem _ hy)

/-- Nothing is noted of sequences that are completed. -/
theorem Progress.notes_of_completed {p : Progress} (h : ∀ f ∈ p.past, f.IsCompleted) :
    p.notes = [] := by
  refine List.flatMap_eq_nil_iff.mpr ?_
  intro f hf
  refine Batch.failures_of_completed ?_
  intro x hx
  exact h f hf x.2 (List.of_mem_zip hx).2

/-- What is stored of an act `a` whose run was aborted after `ms`
milliseconds, before sequence `k`: it is still the same plan, of which `k`
sequences are completed and the others have not begun. -/
structure AbortedRecord (a stored : Act) (k : Nat) (e : EngineError) (ms : Nat) : Prop where
  status_eq : stored.status = .failed
  plan_eq : stored.sequences.map (·.plan) = a.sequences.map (·.plan)
  /-- The run comes to a sequence only if all before it are completed. -/
  completed : ∀ s ∈ stored.sequences.take k, s.IsCompleted
  /-- The sequence that could not start is as it was, and all after it are. -/
  rest_eq : stored.sequences.drop k = a.sequences.drop k
  queued_eq : stored.steps.queued.toNat = stepsIn (a.sequences.drop k)
  inProgress_eq : stored.steps.inProgress = 0
  /-- The other counters, too, tell the truth. -/
  consistent : a.Consistent stored
  wallClock_eq : stored.duration.wallClock.toNat = ms
  /-- One note tells of the abort, and nothing else is noted. -/
  annotations_eq : stored.annotations = a.annotations ++ [.error e.report.text]

/-- What an abort stores between two sequences, if all steps so far were
completed. -/
theorem Paused.aborted {a stored : Act} {journal : List Entry} {tally : Tally} {p : Progress}
    {k : Nat} (h : Paused a stored journal tally p k) (hfresh : a.IsFresh)
    (hcompleted : ∀ f ∈ p.past, f.IsCompleted) (e : EngineError) {ms : Nat} (hms : ms < 2 ^ 64) :
    AbortedRecord a (stored.finished .failed ms [Batch.abortNote e]) k e ms := by
  have hconsistent := (h.shown.refinished .failed ms [Batch.abortNote e]).consistent hfresh
  obtain ⟨hof, hnow, rfl, -, -, -, rfl⟩ := h
  refine ⟨rfl, Progress.map_plan hof hnow, Progress.isCompleted_of_mem_take hnow hcompleted, ?_,
    ?_, ?_, hconsistent, UInt64.toNat_ofNat_of_lt' hms, ?_⟩
  · exact (Progress.drop_sequences hnow).trans (Progress.drop_planned hof hnow).symm
  · rw [Progress.drop_planned hof hnow]
    exact Progress.toNat_queued hfresh hof .running
  · show UInt64.ofNat (stepsIn p.now) = 0
    rw [hnow]
    rfl
  · show (a.annotations ++ p.notes) ++ [Batch.abortNote e] = _
    rw [Progress.notes_of_completed hcompleted, List.append_nil]
    rfl

/-! ## Moves and what happens between them

Only moves of the run lead on. What happens between them, moves of steps
included, may happen any number of times without saving a doomed run. -/

namespace Run

variable {w w' : World} {r r' : Run}

theorem Led.result?_eq_none (h : Led w r w' r') : r.result? = none := by
  cases h <;> simp [result?, *]

/-- A run that looks up generations can always go on. -/
theorem lead_of_opening {k : Nat} {records : List Generation} {s : Sequence}
    (hc : r.control = .opening k records) (hs : r.act.sequences[k]? = some s) :
    (r.lead w).isSome := by
  simp [lead, hc, hs]

theorem lead_of_aborting {e : EngineError} (hc : r.control = .aborting e) :
    (r.lead w).isSome := by
  simp [lead, hc]

/-- The sequence whose generations the run is about to look up, if it is. -/
def nextUp? (r : Run) : Option Nat :=
  match r.control with
  | .opening k [] => some k
  | _ => none

/-- What it means that the look-ups of a sequence are next. -/
theorem control_of_nextUp? {k : Nat} (h : r.nextUp? = some k) : r.control = .opening k [] := by
  unfold nextUp? at h
  split at h
  · rename_i hc
    rw [hc, Option.some.inj h]
  · cases h

end Run

namespace Scene

/-- The run moves, or one of its steps. -/
inductive Moves : Scene → Scene → Prop
  | lead {w w' r r'} (h : Run.lead r w = some (w', r')) : Moves ⟨w, r⟩ ⟨w', r'⟩
  | step {w w' r r'} (j : Nat) (h : Run.stepMove r w j = some (w', r')) : Moves ⟨w, r⟩ ⟨w', r'⟩

/-- Something else happens. -/
inductive Waits (others : Interference) : Scene → Scene → Prop
  | cancel {w r} : Waits others ⟨w, r⟩ ⟨w, r.cancel⟩
  | others {w w' r} (h : others w w') : Waits others ⟨w, r⟩ ⟨w', r⟩

/-- Whatever happens, the run is over after at most `n` moves, and each of
them can be made until then. -/
def ReturnsWithin (others : Interference) : Nat → Scene → Prop
  | 0, c => c.run.result?.isSome
  | n + 1, c => c.run.result?.isSome ∨ ∀ d, Relation.ReflTransGen (Waits others) c d →
      (∃ d', Moves d d') ∧ ∀ d', Moves d d' → ReturnsWithin others n d'

variable {others : Interference} {a stored : Act} {loaded : Registry} {c c' d d' : Scene}
  {p : PlacedStep} {n : Nat} {journal : List Entry}

/-- The engine's own moves are things that can happen. -/
theorem Moves.next (h : Moves c c') : Next others c c' := by
  cases h with
  | lead h => exact .lead h
  | step j h => exact .step j h

theorem Waits.next (h : Waits others c c') : Next others c c' := by
  cases h with
  | cancel => exact .cancel
  | others h => exact .others h

/-- Whatever happens is one or the other. -/
theorem Next.moves_or_waits (h : Next others c c') : Moves c c' ∨ Waits others c c' := by
  cases h with
  | lead h => exact Or.inl (.lead h)
  | step j h => exact Or.inl (.step j h)
  | cancel => exact Or.inr .cancel
  | others h => exact Or.inr (.others h)

/-! ## Up to the sequence that cannot start -/

/-- All that is known of a run on the way: the store is open and shows what
has run, later generations were spared, and no end was told. -/
structure Spares (loaded : Registry) (a : Act) (c : Scene) : Prop where
  sound : c.world.executor.registry.Sound
  backed : c.run.Backed c.world.executor.registry
  isOpen : c.world.store.isClosed = false
  shows : c.Shows a
  spares : c.run.Spares loaded a c.world.executor.registry
  /-- The observer hears of no end before there is one. -/
  endings_eq : c.run.result? = none → c.run.endings = []

/-- Whatever happens, what is known of a run on the way stays true. -/
theorem Next.spares (h : Next (World.LeavesWork a) c c') (hfresh : a.IsFresh)
    (hdistinct : a.generations.Nodup) (hc : c.Spares loaded a) : c'.Spares loaded a := by
  -- what holds of all runs may be used of this one
  have hany : Next World.AnyDeed c c' := h.mono fun _ _ ⟨_, d, hd, _⟩ => ⟨d, hd⟩
  obtain ⟨hsound, hbacked, -⟩ := hany.backed hc.sound hc.backed
  have hshows : c'.Shows a := h.shows hfresh (fun _ _ h => h.1) hc.shows
  obtain ⟨hact, stored, -, hrec⟩ := hc.shows
  cases h with
  | lead h =>
    have hled := Run.led_of_lead h
    refine ⟨hsound, hbacked, hled.isClosed hc.isOpen, hshows,
      hled.spares hc.sound hdistinct hact hc.spares, ?_⟩
    intro hruns
    refine (hled.endings (hc.endings_eq hled.result?_eq_none)).resolve_right ?_
    simp [hruns]
  | step j h =>
    obtain ⟨hstore, -⟩ := Run.recorded_of_stepMove h hact hrec
    refine ⟨hsound, hbacked, ?_, hshows,
      Run.spares_of_stepMove h hc.sound hdistinct hact hc.spares, ?_⟩
    · rw [hstore]
      exact hc.isOpen
    · -- a move of a step leaves the run inside its sequence, where nothing has ended
      intro _
      rw [Run.endings_of_stepMove h]
      obtain ⟨_, _, _, _, _, _, _, _, _, hrunning, -⟩ := Run.stepMove_eq h
      exact hc.endings_eq (by simp [Run.result?, hrunning])
  | cancel => exact ⟨hsound, hbacked, hc.isOpen, hshows, hc.spares, hc.endings_eq⟩
  | others h =>
    exact ⟨hsound, hbacked, h.isClosed hc.isOpen, hshows,
      hc.spares.change fun _ => h.spared hc.sound, hc.endings_eq⟩

/-- It is true at the beginning. -/
theorem spares_begin {staff : Staff} {before : List Deed} {w : World}
    (hw : w = (World.fresh staff).afterAll before) (hget : w.store.get? a.id = some a)
    (isCancelled : Bool) : (begin w a isCancelled).Spares w.executor.registry a where
  sound := hw ▸ World.afterAll_sound Registry.sound_empty before
  backed := trivial
  isOpen := hw ▸ World.isClosed_afterAll rfl before
  shows := shows_begin hget isCancelled
  spares := Spared.begin w.executor.registry a
  endings_eq := by
    intro _
    rfl

/-! ## From the look-up on -/

/-- In between, the generation of the step was looked up, and the error tells
what was wrong with it then. -/
def Blamed (others : Interference) (c d : Scene) (step : Step) (e : EngineError) : Prop :=
  ∃ m, Reaches others c m ∧ Reaches others m d ∧ Blames m.world.executor.registry step e

/-- How far a run has come that will be aborted because of step `p`, with the
number of moves that it has left. `stored` is the act before sequence
`p.sequence`, and `c` the scene in which its look-up began. -/
inductive Stage (a stored : Act) (p : PlacedStep) (c d : Scene) : Nat → Prop
  | looking {records : List Generation} (hc : d.run.control = .opening p.sequence records)
    (hle : records.length ≤ p.index) (hget : d.world.store.get? a.id = some stored)
    (hend : d.run.endings = []) : Stage a stored p c d (p.index - records.length + 2)
  | aborting {e : EngineError} (hc : d.run.control = .aborting e)
    (hblamed : Blamed (World.LeavesWork a) c d p.step e)
    (hget : d.world.store.get? a.id = some stored) (hend : d.run.endings = []) :
    Stage a stored p c d 1
  | returned {e : EngineError} {ms : Nat} (hc : d.run.control = .done (.error e))
    (hblamed : Blamed (World.LeavesWork a) c d p.step e) (hms : ms < 2 ^ 64)
    (hget : d.world.store.get? a.id = some (stored.finished .failed ms [Batch.abortNote e]))
    (hend : d.run.endings = [.notice (.actComplete true ms)]) : Stage a stored p c d 0

/-- A run that will be aborted because of step `p`. -/
structure Doomed (loaded : Registry) (a stored : Act) (p : PlacedStep) (c d : Scene) (n : Nat) :
    Prop where
  reaches : Reaches (World.LeavesWork a) c d
  sound : d.world.executor.registry.Sound
  isOpen : d.world.store.isClosed = false
  act_eq : d.run.act = a
  spared : Spared loaded a p.sequence d.world.executor.registry d.run.journal
  /-- How far the run has come, with the number of moves that it has left. -/
  stage : Stage a stored p c d n

theorem Blamed.tail {step : Step} {e : EngineError} (h : Blamed others c d step e)
    (hnext : Next others d d') : Blamed others c d' step e := by
  obtain ⟨m, hm, hd, hblames⟩ := h
  exact ⟨m, hm, hd.tail hnext, hblames⟩

/-- What neither moves the run nor touches its act changes nothing. -/
theorem Stage.keep (h : Stage a stored p c d n) (hnext : Next (World.LeavesWork a) d d')
    (hcontrol : d'.run.control = d.run.control)
    (hget : d'.world.store.get? a.id = d.world.store.get? a.id)
    (hend : d'.run.endings = d.run.endings) : Stage a stored p c d' n := by
  cases h with
  | looking hc hle hstored hnone =>
    exact .looking (hcontrol.trans hc) hle (hget.trans hstored) (hend.trans hnone)
  | aborting hc hblamed hstored hnone =>
    exact .aborting (hcontrol.trans hc) (hblamed.tail hnext) (hget.trans hstored)
      (hend.trans hnone)
  | returned hc hblamed hms hstored hended =>
    exact .returned (hcontrol.trans hc) (hblamed.tail hnext) hms (hget.trans hstored)
      (hend.trans hended)

/-- Between the moves nothing saves a run that is doomed: generations that are
missing or not created stay so. -/
theorem Doomed.wait (h : Doomed loaded a stored p c d n) (hw : Waits (World.LeavesWork a) d d') :
    Doomed loaded a stored p c d' n := by
  have hnext : Next (World.LeavesWork a) d d' := hw.next
  cases hw with
  | cancel =>
    exact ⟨h.reaches.tail hnext, h.sound, h.isOpen, h.act_eq, h.spared,
      h.stage.keep hnext rfl rfl rfl⟩
  | others hothers =>
    refine ⟨h.reaches.tail hnext, ?_, hothers.isClosed h.isOpen, h.act_eq,
      hothers.spared h.sound h.spared, h.stage.keep hnext rfl hothers.1 rfl⟩
    obtain ⟨-, deed, rfl, -⟩ := hothers
    exact (World.after_sound h.sound deed).1

/-- A move of the run brings it closer to its end. -/
theorem Doomed.move (h : Doomed loaded a stored p c d n) (hp : FirstUnready a loaded p)
    (hm : Moves d d') : ∃ m, n = m + 1 ∧ Doomed loaded a stored p c d' m := by
  have hnext : Next (World.LeavesWork a) d d' := hm.next
  obtain ⟨hreaches, hsound, hopen, hact, hspared, hstage⟩ := h
  cases hm with
  | step j hmove =>
    obtain ⟨k, since, steps, _, _, _, _, _, _, hrunning, -⟩ := Run.stepMove_eq hmove
    cases hstage with
    | looking hc => cases hc.symm.trans hrunning
    | aborting hc => cases hc.symm.trans hrunning
    | returned hc => cases hc.symm.trans hrunning
  | @lead w w' r r' hmove =>
    have hled := Run.led_of_lead hmove
    -- all but the stage is as after any move
    have hdoomed : ∀ m, Stage a stored p c ⟨w', r'⟩ m →
        Doomed loaded a stored p c ⟨w', r'⟩ m := by
      intro m hstage'
      refine ⟨hreaches.tail hnext, ?_, hled.isClosed hopen, hled.continues.act_eq.trans hact, ?_,
        hstage'⟩
      · rw [hled.executor_eq]
        exact hsound
      · rw [hled.executor_eq]
        exact hled.continues.spared hspared
    cases hstage with
    | @looking records hc hle hget hend =>
      rcases hled.of_opening hp hsound hact hspared hc hle with
        ⟨g, hlt, rfl, rfl⟩ | ⟨e, hlen, hblames, rfl, rfl⟩
      · have hlen : (records ++ [g]).length = records.length + 1 := List.length_append
        refine ⟨p.index - (records ++ [g]).length + 2, by omega, hdoomed _ ?_⟩
        exact .looking rfl (by omega) hget hend
      · refine ⟨1, by omega, hdoomed 1 ?_⟩
        exact .aborting rfl ⟨_, hreaches, .single hnext, hblames⟩ hget hend
    | aborting hc hblamed hget hend =>
      obtain ⟨ms, hms, hget', hc', hend'⟩ := hled.of_aborting hc hact hget hopen
      refine ⟨0, rfl, hdoomed 0 ?_⟩
      refine .returned hc' (hblamed.tail hnext) hms hget' ?_
      rw [hend', hend]
      rfl
    | returned hc =>
      have hruns := hled.result?_eq_none
      rw [Run.result?, hc] at hruns
      cases hruns

/-- Until it is over the run can move. -/
theorem Doomed.exists_move (h : Doomed loaded a stored p c d (n + 1))
    (hp : FirstUnready a loaded p) : ∃ d', Moves d d' := by
  have hlead : (d.run.lead d.world).isSome := by
    generalize hn : n + 1 = m at h
    cases h.stage with
    | looking hc =>
      have hhas := hp.has
      rw [Act.Has, Act.step?, Option.bind_eq_some_iff] at hhas
      obtain ⟨s, hs, -⟩ := hhas
      exact Run.lead_of_opening hc (h.act_eq ▸ hs)
    | aborting hc => exact Run.lead_of_aborting hc
    | returned hc => cases hn
  obtain ⟨⟨w', r'⟩, hlead⟩ := Option.isSome_iff_exists.mp hlead
  exact ⟨⟨w', r'⟩, .lead hlead⟩

/-- A doomed run is over after the moves that it has left, by induction on
their number. -/
theorem Doomed.returnsWithin (h : Doomed loaded a stored p c d n) (hp : FirstUnready a loaded p) :
    ReturnsWithin (World.LeavesWork a) n d := by
  induction n generalizing d with
  | zero =>
    generalize hn : 0 = m at h
    cases h.stage with
    | looking hc => cases hn
    | aborting hc => cases hn
    | returned hc => simp [ReturnsWithin, Run.result?, hc]
  | succ n ih =>
    refine Or.inr ?_
    intro d' hwaits
    have hd' : Doomed loaded a stored p c d' (n + 1) := by
      induction hwaits with
      | refl => exact h
      | tail _ hlast ih => exact ih.wait hlast
    refine ⟨hd'.exists_move hp, ?_⟩
    intro d'' hmove
    obtain ⟨m, hm, hd''⟩ := hd'.move hp hmove
    cases hm
    exact ih hd''

/-! ## Whole runs -/

/-- A run that was looking up generations since `c` is over in `d`: it was
aborted with an error because of step `p`. `loaded` is the registry before
the run. -/
structure AbortedBy (loaded : Registry) (a : Act) (p : PlacedStep) (c d : Scene) (e : EngineError) :
    Prop where
  blamed : Blamed (World.LeavesWork a) c d p.step e
  /-- The observer was told of one end, that of an act that has failed. -/
  recorded : ∃ stored ms, d.world.store.get? a.id = some stored ∧
    AbortedRecord a stored p.sequence e ms ∧ d.run.endings = [.notice (.actComplete true ms)]
  spared : Spared loaded a p.sequence d.world.executor.registry d.run.journal
  /-- Nor did anything else change, but for work that went on already. -/
  unchanged : ∀ q, a.Has q → p.sequence ≤ q.sequence →
    loaded.inFlight.get? q.step.generation = none →
    d.world.executor.registry.get? q.step.generation = loaded.get? q.step.generation ∧
      d.world.executor.registry.inFlight.get? q.step.generation = none

/-- A doomed run that is over was aborted because of its step. -/
theorem Doomed.abortedBy {journal : List Entry} {tally : Tally} {progress : Progress}
    {result : Except EngineError Outcome} (h : Doomed loaded a stored p c d n)
    (hfresh : a.IsFresh) (hpaused : Paused a stored journal tally progress p.sequence)
    (hcompleted : ∀ f ∈ progress.past, f.IsCompleted) (hover : d.run.result? = some result) :
    ∃ e, result = .error e ∧ AbortedBy loaded a p c d e := by
  have hdone := Run.done_of_result? hover
  cases h.stage with
  | looking hc => cases hc.symm.trans hdone
  | aborting hc => cases hc.symm.trans hdone
  | @returned e ms hc hblamed hms hget hend =>
    cases hc.symm.trans hdone
    refine ⟨e, rfl, hblamed, ?_, h.spared, ?_⟩
    · exact ⟨_, ms, hget, hpaused.aborted hfresh hcompleted e hms, hend⟩
    · intro q hq hle hfree
      exact (h.spared.works q hq hle).idle hfree

/-- **A sequence that cannot start.** A run of a fresh act with distinct
generations has come to sequence `k`, and the generation of one of its steps
is missing or not created. Then the run returns, with an error that tells of
the first such step; `k` sequences are stored as completed and the others as
they were, with the text of the error as the one new note; no generation of
theirs was touched; and the observer was told of one end, with an error. -/
theorem aborted_before_sequence {staff : Staff} {before : List Deed} {w : World}
    {isCancelled : Bool} {k : Nat} (hw : w = (World.fresh staff).afterAll before)
    (hfresh : a.IsFresh) (hdistinct : a.generations.Nodup) (hget : w.store.get? a.id = some a)
    (hreach : Reaches (World.LeavesWork a) (begin w a isCancelled) c)
    (hc : c.run.control = .opening k [])
    (hunready : ∃ q, a.Has q ∧ q.sequence = k ∧
      ¬ c.world.executor.registry.HasStatus q.step.generation .created) :
    ∃ p, p.sequence = k ∧ FirstUnready a c.world.executor.registry p ∧
      ReturnsWithin (World.LeavesWork a) (p.index + 2) c ∧
      ∀ d result, Reaches (World.LeavesWork a) c d → d.run.result? = some result →
        ∃ e, result = .error e ∧ AbortedBy w.executor.registry a p c d e := by
  have hspares := hreach.induct (spares_begin hw hget isCancelled)
    fun _ _ hnext => hnext.spares hfresh hdistinct
  obtain ⟨hsound, -, hopen, ⟨hact, stored, hstored, hrec⟩, hspared, hend⟩ := hspares
  simp only [Run.Spares, hc] at hspared
  simp only [Run.Recorded, hc] at hrec
  obtain ⟨⟨progress, hpaused, hcompleted⟩, -⟩ := hrec
  obtain ⟨p, rfl, hp⟩ := exists_firstUnready hunready
  -- what is not created now was not created before the run
  have hloaded : FirstUnready a w.executor.registry p := by
    have hiff {q : PlacedStep} (hq : a.Has q) (hsame : q.sequence = p.sequence) :=
      hspared.1.created_iff hq (Nat.le_of_eq hsame.symm)
    refine ⟨hp.has, fun hcreated => hp.unready ((hiff hp.has rfl).mpr hcreated), ?_⟩
    intro q hq hsame hlt
    exact (hiff hq hsame).mp (hp.ready_before q hq hsame hlt)
  have hdoomed : Doomed w.executor.registry a stored p c c (p.index + 2) :=
    ⟨.refl, hsound, hopen, hact, hspared.1,
      .looking hc (Nat.zero_le _) hstored (hend (by rw [Run.result?, hc]))⟩
  refine ⟨p, rfl, hp, hdoomed.returnsWithin hloaded, ?_⟩
  intro d result hd hover
  obtain ⟨n, hdoomed'⟩ : ∃ n, Doomed w.executor.registry a stored p c d n := by
    refine hd.induct (P := fun d => ∃ n, Doomed w.executor.registry a stored p c d n)
      ⟨_, hdoomed⟩ ?_
    rintro d₁ d₂ hnext ⟨n, hd₁⟩
    rcases hnext.moves_or_waits with hmove | hwait
    · obtain ⟨m, -, hd₂⟩ := hd₁.move hloaded hmove
      exact ⟨m, hd₂⟩
    · exact ⟨n, hd₁.wait hwait⟩
  exact hdoomed'.abortedBy hfresh hpaused hcompleted hover

/-! ## The sample without its second generation -/

/-- The act is loaded, with the generation of its first step only. -/
def sampleShort : List Deed :=
  .store (.insert Sample.blueprint.act) ::
    (Sample.blueprint.generations.take 1).map fun g => .executor (.set g)

def sampleShortened : World := (World.fresh (.workers Operation.all)).afterAll sampleShort

/-- The first sequence runs and is completed, and the second one has its
turn. -/
def sampleFirst : List Happening :=
  [.lead, .lead, .lead, .lead, .step 0, .step 0, .deed (.executor (.report 0 (.ok []))), .step 0,
    .lead, .lead, .lead]

theorem sample_aborted_before_sequence :
    sampleShortened = (World.fresh (.workers Operation.all)).afterAll sampleShort ∧
    Sample.blueprint.act.IsFresh ∧ Sample.blueprint.act.generations.Nodup ∧
    sampleShortened.store.get? Sample.blueprint.act.id = some Sample.blueprint.act ∧
    ∃ c, Reaches (World.LeavesWork Sample.blueprint.act)
        (begin sampleShortened Sample.blueprint.act false) c ∧
      c.run.control = .opening 1 [] ∧
      (∃ q, Sample.blueprint.act.Has q ∧ q.sequence = 1 ∧
        ¬ c.world.executor.registry.HasStatus q.step.generation .created) ∧
      ∃ p, p.sequence = 1 ∧
        FirstUnready Sample.blueprint.act c.world.executor.registry p ∧
        ReturnsWithin (World.LeavesWork Sample.blueprint.act) (p.index + 2) c ∧
        ∀ d result, Reaches (World.LeavesWork Sample.blueprint.act) c d →
          d.run.result? = some result → ∃ e, result = .error e ∧
            AbortedBy sampleShortened.executor.registry Sample.blueprint.act p c d e := by
  have hdistinct : Sample.blueprint.act.generations.Nodup := sample_holds.nodup
  have hget : sampleShortened.store.get? Sample.blueprint.act.id = some Sample.blueprint.act := by
    decide +kernel
  have hstep : (Sample.blueprint.act.step? 1 0).isSome := by decide +kernel
  obtain ⟨step, hstep⟩ := Option.isSome_iff_exists.mp hstep
  have hplayed : ((begin sampleShortened Sample.blueprint.act false).perform sampleFirst).map
      (fun c => (c.run.nextUp?, (Sample.blueprint.act.step? 1 0).map fun step =>
        decide (c.world.executor.registry.HasStatus step.generation .created))) =
      some (some 1, some false) := by
    decide +kernel
  rw [hstep] at hplayed
  obtain ⟨c, hc, hnow⟩ := Option.map_eq_some_iff.mp hplayed
  simp only [Option.map_some, Prod.mk.injEq, Option.some.injEq, decide_eq_false_iff_not] at hnow
  obtain ⟨hnext, hmissing⟩ := hnow
  have hopening := Run.control_of_nextUp? hnext
  have hdeeds : ∀ d, .deed d ∈ sampleFirst → ∀ w : World,
      w.LeavesWork Sample.blueprint.act (w.after d) := by
    intro d hd w
    simp only [sampleFirst, List.mem_cons, reduceCtorEq, Happening.deed.injEq, List.not_mem_nil,
      or_false, false_or] at hd
    subst hd
    refine ⟨rfl, _, rfl, ?_⟩
    intro command hcommand
    cases hcommand
    exact fun _ _ => trivial
  have hreach := reaches_of_perform hdeeds hc
  have hunready : ∃ q, Sample.blueprint.act.Has q ∧ q.sequence = 1 ∧
      ¬ c.world.executor.registry.HasStatus q.step.generation .created :=
    ⟨⟨1, 0, step⟩, hstep, rfl, hmissing⟩
  exact ⟨rfl, sample_fresh, hdistinct, hget, c, hreach, hopening, hunready,
    aborted_before_sequence rfl sample_fresh hdistinct hget hreach hopening hunready⟩

end Scene

end Workflow
