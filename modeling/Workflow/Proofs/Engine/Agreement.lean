/-
Workflow.Proofs.Engine.Agreement — the stored act and the records of its
generations say the same once a run has given back an outcome.

`Split` is the invariant between two sequences: of those that have run, each
step is stored with a status that the record of its generation bears out,
and of the others no generation was touched. While a sequence runs, each of
its steps agrees with its generation on its own (`Activity.Agrees`).

* `Led.agrees`, `agrees_of_stepMove` — each move of the run keeps this.
* `records_agree` — whole runs.
-/
import Workflow.Proofs.Engine.FinalRecord
import Workflow.Proofs.Engine.StepAgreement

namespace Workflow

open Registry

/-! ## Steps of an act -/

/-- The generations of all steps. -/
def Act.generations (a : Act) : List GenerationId :=
  (a.sequences.flatMap (·.steps)).map (·.generation)

/-- The step stands at this place in the act. -/
def Act.Has (a : Act) (p : PlacedStep) : Prop := a.step? p.sequence p.index = some p.step

namespace Act

variable {a : Act} {p q : PlacedStep}

theorem Has.getElem? {s : Sequence} (h : a.Has p) (hs : a.sequences[p.sequence]? = some s) :
    s.steps[p.index]? = some p.step := by
  rwa [Has, step?, hs, Option.bind_some] at h

/-- At one place there is one step. -/
theorem Has.eq {q : PlacedStep} (hp : a.Has p) (hq : a.Has q) (hsequence : p.sequence = q.sequence)
    (hindex : p.index = q.index) : p = q := by
  obtain ⟨k, j, step⟩ := p
  obtain ⟨k', j', step'⟩ := q
  obtain rfl : k = k' := hsequence
  obtain rfl : j = j' := hindex
  exact congrArg (PlacedStep.mk k j) (Option.some.inj (hp.symm.trans hq))

/-- The generations of an act are those of its steps. -/
theorem mem_generations {id : GenerationId} :
    id ∈ a.generations ↔ ∃ p, a.Has p ∧ p.step.generation = id := by
  rw [generations, ← positions_map_step]
  simp only [List.mem_map, Prod.exists]
  constructor
  · rintro ⟨_, ⟨k, j, step, hmem, rfl⟩, rfl⟩
    exact ⟨⟨k, j, step⟩, mem_positions.mp hmem, rfl⟩
  · rintro ⟨p, hp, rfl⟩
    exact ⟨p.step, ⟨p.sequence, p.index, p.step, mem_positions.mpr hp, rfl⟩, rfl⟩

theorem Has.mem_generations (h : a.Has p) : p.step.generation ∈ a.generations :=
  Act.mem_generations.mpr ⟨p, h, rfl⟩

/-- Where all generations are distinct, they tell the places of their steps. -/
theorem eq_of_generation (h : a.generations.Nodup) (hp : a.Has p) (hq : a.Has q)
    (heq : p.step.generation = q.step.generation) : p = q := by
  rw [generations, ← positions_map_step, List.map_map] at h
  have hsame := List.inj_on_of_nodup_map h (mem_positions.mpr hp) (mem_positions.mpr hq) heq
  obtain ⟨k, j, step⟩ := p
  obtain ⟨k', j', step'⟩ := q
  cases hsame
  rfl

end Act

/-- The generations of an act are loaded: each step has one of its own,
that is created and not in flight. -/
structure Registry.Holds (x : Registry) (a : Act) : Prop where
  nodup : a.generations.Nodup
  /-- All generations of the act are loaded, and none has been queued. -/
  created : ∀ id ∈ a.generations, x.HasStatus id .created
  entry_eq : ∀ id ∈ a.generations, x.inFlight.get? id = none

/-! ## Between two sequences

Steps of sequences that have run are settled, those of later ones were not
touched. The place between the two is the only thing that a run moves. -/

/-- The first `m` sequences have run, and nothing was done from sequence `n`
on. `loaded` is the registry before the run. -/
structure Split (loaded : Registry) (a stored : Act) (x : Registry) (journal : List Entry)
    (m n : Nat) : Prop where
  ran : ∀ p g, a.Has p → p.sequence < m → loaded.get? p.step.generation = some g →
    ∃ step, stored.step? p.sequence p.index = some step ∧ Settled x g journal p step.status
  rest : ∀ p g, a.Has p → n ≤ p.sequence → loaded.get? p.step.generation = some g →
    Untouched x g journal p

namespace Split

variable {loaded x x' : Registry} {a stored stored' : Act} {journal es : List Entry} {m n : Nat}

/-- What happens to other steps, and the work of those that have ended, is
of no effect. -/
theorem change (h : Split loaded a stored x journal m n)
    (hchange : ∀ p, a.Has p → p.sequence < m ∨ n ≤ p.sequence →
      Works p.step.generation x x' ∧ ∀ e ∈ es, ¬ e.IsAbout p) :
    Split loaded a stored x' (journal ++ es) m n where
  ran := fun p g hp hm hg => by
    obtain ⟨hworks, hes⟩ := hchange p hp (Or.inl hm)
    obtain ⟨step, hstep, hsettled⟩ := h.ran p g hp hm hg
    exact ⟨step, hstep, (hsettled.works hworks).mono hes⟩
  rest := fun p g hp hn hg => by
    obtain ⟨hworks, hes⟩ := hchange p hp (Or.inr hn)
    exact ((h.rest p g hp hn hg).works hworks).mono hes

/-- The store may change from sequence `m` on. -/
theorem store (h : Split loaded a stored x journal m n)
    (hstored : ∀ i < m, ∀ j, stored'.step? i j = stored.step? i j) :
    Split loaded a stored' x journal m n where
  ran := fun p g hp hm hg => by
    rw [hstored p.sequence hm]
    exact h.ran p g hp hm hg
  rest := h.rest

theorem later (h : Split loaded a stored x journal m n) :
    Split loaded a stored x journal m (n + 1) :=
  { h with rest := fun p g hp hn => h.rest p g hp (Nat.le_of_succ_le hn) }

end Split

/-- The entries that a run makes by itself are about no step. -/
theorem Entry.isAbout_of_isOfRun {e : Entry} (h : e.isOfRun) (p : PlacedStep) : ¬ e.IsAbout p := by
  unfold IsAbout
  split
  · cases h
  · cases h
  · cases h
  · cases h
  · exact id

/-! ## What is stored of the steps that have run -/

/-- A step that has run is found in its finished sequence. -/
theorem Progress.step?_of_lt {p : Progress} {a : Act} {status : Status} {i : Nat}
    (hi : i < p.past.length) (j : Nat) :
    (p.record a status).step? i j = (p.past[i]?).bind fun f => f.record.steps[j]? := by
  show p.sequences[i]?.bind _ = _
  rw [Progress.sequences, List.append_assoc,
    List.getElem?_append_left (by rwa [List.length_map]), List.getElem?_map]
  cases p.past[i]? <;> rfl

namespace Run

variable {w w' : World} {r r' : Run} {a stored new : Act} {k : Nat} {s : Sequence}

/-- The beginning of a sequence is not seen of those before it. -/
theorem Recorded.step?_opened (hrec : r.Recorded a stored) (hfresh : a.IsFresh)
    {records : List Generation} (hc : r.control = .opening k records)
    (hs : a.sequences[k]? = some s) (hupdate : stored.update (Batch.opening k s) = .ok new) :
    ∀ i < k, ∀ j, new.step? i j = stored.step? i j := by
  simp only [Recorded, hc] at hrec
  obtain ⟨⟨p, hpaused, -⟩, -⟩ := hrec
  obtain ⟨hk, hbound⟩ := hpaused.bounds hfresh hs hupdate
  obtain ⟨rest, -, hopened⟩ := hpaused.update_opening hfresh hs hk hbound
  obtain rfl := Except.ok.inj (hupdate.symm.trans hopened)
  intro i hi j
  have hlt : i < p.past.length := hpaused.length_eq ▸ hi
  have hlt' : i < (p.enter s rest).past.length := hlt
  rw [hpaused.stored_eq, Progress.step?_of_lt hlt, Progress.step?_of_lt hlt']
  rfl

/-- The end of a sequence puts the reports of its steps into the store. -/
theorem Recorded.step?_closed (hrec : r.Recorded a stored) {since ms : Nat}
    {steps : List Activity} {reports : List StepReport} (hc : r.control = .running k since steps)
    (hs : a.sequences[k]? = some s) (hreports : steps.mapM (·.report?) = some reports)
    (hupdate : stored.update (Batch.closing k s reports ms) = .ok new) :
    (∀ i < k, ∀ j, new.step? i j = stored.step? i j) ∧
      ∀ j step report, s.steps[j]? = some step → reports[j]? = some report →
        new.step? k j = some (step.closed report) := by
  obtain ⟨p, hbusy, hlength⟩ := hrec.ended hc hs hreports
  obtain rfl := Except.ok.inj (hupdate.symm.trans (hbusy.update_closing hlength ms))
  have hpast : (p.leave ⟨s, reports, ms⟩).past.length = k + 1 := by
    simp [Progress.leave, hbusy.length_eq]
  refine ⟨fun i hi j => ?_, fun j step report hstep hreport => ?_⟩
  · have hlt : i < p.past.length := hbusy.length_eq ▸ hi
    rw [hbusy.stored_eq, Progress.step?_of_lt hlt, Progress.step?_of_lt (by omega),
      Progress.leave, List.getElem?_append_left hlt]
  · rw [Progress.step?_of_lt (by omega), Progress.leave, ← hbusy.length_eq,
      List.getElem?_concat_length, Option.bind_some]
    exact List.getElem?_zipWith_eq_some.mpr ⟨step, report, hstep, hreport, rfl⟩

/-! ## Where a run stands

While a sequence runs, each of its steps is between the two: what its own
activity says is what its generation shows. -/

/-- The records and the stored act agree with where the run stands. -/
def Agrees (loaded : Registry) (a stored : Act) (x : Registry) (r : Run) : Prop :=
  match r.control with
  | .ready => Split loaded a stored x r.journal 0 0
  | .turn k | .winding _ k => Split loaded a stored x r.journal k k
  | .opening k records => Split loaded a stored x r.journal k k ∧
    ∀ p g, a.Has p → p.sequence = k → loaded.get? p.step.generation = some g →
      p.index < records.length → records[p.index]? = some g
  | .running k _ steps => Split loaded a stored x r.journal k (k + 1) ∧
    ∀ p g b, a.Has p → p.sequence = k → loaded.get? p.step.generation = some g →
      steps[p.index]? = some b → b.Agrees x g r.journal p
  | .closed k _ => Split loaded a stored x r.journal (k + 1) (k + 1)
  | .done (.ok o) => ∃ n, n + o.skippedSequences = a.sequences.length ∧
    Split loaded a stored x r.journal n n
  | .aborting _ | .done (.error _) => True

variable {loaded x : Registry}

/-- A batch that is refused leads to the end of the run; else what is stored
is its update. -/
theorem agrees_of_send {patches : List Patch} {next : Run → Run} {stored' : Act}
    (hact : r.act = a) (hget : w.store.get? a.id = some stored)
    (h : send w r patches next = (w', r')) (hget' : w'.store.get? a.id = some stored')
    (hcontinues : ∀ q, Continues q (next q))
    (hnext : stored.update patches = .ok stored' →
      Continues r (next (r.record [.batch patches none])) →
      (next (r.record [.batch patches none])).Agrees loaded a stored' x) :
    r'.Agrees loaded a stored' x := by
  rcases send_eq h with ⟨store, happly, rfl, rfl⟩ | ⟨e, -, rfl, rfl⟩
  · rw [hact] at happly
    obtain ⟨old, new, -, hold, hupdate, hnew, -⟩ := Store.apply_eq happly
    obtain rfl := Option.some.inj (hget.symm.trans hold)
    obtain rfl := Option.some.inj (hget'.symm.trans hnew)
    exact hnext hupdate ((Continues.record r (by simp [Entry.isOfRun])).trans (hcontinues _))
  · exact trivial

/-- What the run writes by itself is about no step. -/
theorem Continues.split {m n : Nat} (h : Continues r r')
    (hsplit : Split loaded a stored x r.journal m n) :
    Split loaded a stored x r'.journal m n := by
  obtain ⟨es, hes, hrun⟩ := h.journal
  rw [hes]
  exact hsplit.change fun p _ _ => ⟨.refl, fun e he => Entry.isAbout_of_isOfRun (hrun e he) p⟩

/-- Each move of the run keeps it in agreement. -/
theorem Led.agrees (h : Led w r w' r') (hfresh : a.IsFresh) (hact : r.act = a) {stored' : Act}
    (hget : w.store.get? a.id = some stored) (hget' : w'.store.get? a.id = some stored')
    (hrec : r.Recorded a stored) (hag : r.Agrees loaded a stored w.executor.registry) :
    r'.Agrees loaded a stored' w.executor.registry := by
  cases h with
  | refuse hc hs => exact trivial
  | begin hc hs hsend =>
    simp only [Agrees, hc] at hag
    refine agrees_of_send hact hget hsend hget'
      (fun q => .note_goto q rfl _) fun _ hcontinues => ?_
    exact (hcontinues.split hag).store fun i hi => absurd hi (Nat.not_lt_zero i)
  | skip hc hk hi =>
    simp only [Agrees, hc] at hag
    obtain rfl := Option.some.inj (hget.symm.trans hget')
    exact hag
  | enter hc hk hi =>
    simp only [Agrees, hc] at hag
    obtain rfl := Option.some.inj (hget.symm.trans hget')
    exact ⟨hag, fun p g _ _ _ hlt => absurd hlt (Nat.not_lt_zero p.index)⟩
  | complete hc hk =>
    simp only [Agrees, hc] at hag
    obtain rfl := Option.some.inj (hget.symm.trans hget')
    exact hag
  | missing hc hs hstep hg => exact trivial
  | unexpected hc hs hstep hg hstatus => exact trivial
  | @found k records s step record hc hs hstep hrecord hstatus =>
    simp only [Agrees, hc] at hag
    obtain ⟨hsplit, hrecords⟩ := hag
    obtain rfl := Option.some.inj (hget.symm.trans hget')
    refine ⟨hsplit, fun p g hp hk hg hlt => ?_⟩
    rw [List.length_append, List.length_singleton] at hlt
    rcases Nat.lt_succ_iff_lt_or_eq.mp hlt with hold | hnew
    · rw [List.getElem?_append_left hold]
      exact hrecords p g hp hk hg hold
    · -- the record that was found is the one that was loaded, as no work was done on it
      subst hk
      obtain rfl := Option.some.inj ((hnew ▸ hstep).symm.trans (hp.getElem? (hact ▸ hs)))
      have hu := hsplit.rest p g hp (Nat.le_refl _) hg
      obtain rfl := Option.some.inj (hu.record_eq.symm.trans hrecord)
      rw [hnew, List.getElem?_concat_length]
  | @«open» k records s w' r' hc hs hall hsend =>
    have hag' := hag
    simp only [Agrees, hc] at hag'
    obtain ⟨hsplit, hrecords⟩ := hag'
    refine agrees_of_send hact hget hsend hget'
      (fun q => .note_goto q rfl _) fun hupdate hcontinues => ?_
    have hsplit' := hcontinues.split hsplit
    refine ⟨hsplit'.later.store (hrec.step?_opened hfresh hc (hact ▸ hs) hupdate), ?_⟩
    intro p g b hp hk hg hb
    obtain ⟨record, hrecord, rfl⟩ := Option.map_eq_some_iff.mp (List.getElem?_map ▸ hb)
    have hlt := (List.getElem?_eq_some_iff.mp hrecord).1
    obtain rfl := Option.some.inj ((hrecords p g hp hk hg hlt).symm.trans hrecord)
    exact ⟨rfl, hsplit'.rest p g hp (Nat.le_of_eq hk.symm) hg⟩
  | @close k since steps s reports w' r' hc hs hreports hsend =>
    have hag' := hag
    simp only [Agrees, hc] at hag'
    obtain ⟨hsplit, hsteps⟩ := hag'
    refine agrees_of_send hact hget hsend hget'
      (fun q => .note_goto q rfl _) fun hupdate hcontinues => ?_
    obtain ⟨hbefore, hreported⟩ := hrec.step?_closed hc (hact ▸ hs) hreports hupdate
    obtain ⟨-, -, hlength⟩ := hrec.ended hc (hact ▸ hs) hreports
    have hsplit' := hcontinues.split (hsplit.store hbefore)
    -- the sequence joins those that have run; its steps were settled while it ran
    refine ⟨fun p g hp hlt hg => ?_, hsplit'.rest⟩
    rcases Nat.lt_succ_iff_lt_or_eq.mp hlt with hold | rfl
    · exact hsplit'.ran p g hp hold hg
    · have hstep := hp.getElem? (hact ▸ hs)
      obtain ⟨report, hreport⟩ : ∃ report, reports[p.index]? = some report :=
        ⟨_, List.getElem?_eq_getElem (hlength ▸ (List.getElem?_eq_some_iff.mp hstep).1)⟩
      have hended : steps[p.index]? = some (.ended report) := by
        rw [Activity.eq_map_ended hreports, List.getElem?_map, hreport]
        rfl
      have hsettled : Settled w.executor.registry g r.journal p report.outcome.status :=
        hsteps p g _ hp rfl hg hended
      obtain ⟨es, hes, hrun⟩ := hcontinues.journal
      refine ⟨_, hreported p.index p.step report hstep hreport, ?_⟩
      rw [hes]
      exact hsettled.mono fun e he => Entry.isAbout_of_isOfRun (hrun e he) p
  | @judge k tally hc =>
    simp only [Agrees, hc] at hag
    obtain rfl := Option.some.inj (hget.symm.trans hget')
    simp only [Agrees, goto_control, goto_journal]
    rcases r.judge_eq k tally with ⟨hj, -⟩ | ⟨hj, -⟩ | ⟨hj, -⟩
    · rw [hj]
      exact hag
    · rw [hj]
      exact hag
    · rw [hj]
      exact hag
  | @finish status k outcome w' r' hc ho hsend =>
    subst ho
    simp only [Agrees, hc] at hag
    simp only [Recorded, hc] at hrec
    obtain ⟨p, hpaused, -⟩ := hrec
    refine agrees_of_send (r := r.record _) hact hget hsend hget'
      (fun q => (Continues.note q rfl).trans (.note_goto _ rfl _))
      fun hupdate hcontinues => ?_
    obtain rfl := Except.ok.inj (hupdate.symm.trans (Act.takes_final stored _ _).update_eq)
    refine ⟨k, ?_, ?_⟩
    · show k + (r.act.sequences.drop k).length = a.sequences.length
      rw [hact, List.length_drop, hpaused.length_sequences, Nat.add_sub_cancel_left]
    · exact (((Continues.skip r k).trans hcontinues).split hag).store fun _ _ _ => rfl
  | abort hc hsend => exact trivial

/-- What work does to the generations of the act is no disagreement. -/
theorem Agrees.works {x' : Registry} (h : r.Agrees loaded a stored x)
    (hw : ∀ id ∈ a.generations, Works id x x') : r.Agrees loaded a stored x' := by
  -- work that goes on adds nothing to the journal
  have hsplit {m n : Nat} (h : Split loaded a stored x r.journal m n) :
      Split loaded a stored x' r.journal m n := by
    have hchange : Split loaded a stored x' (r.journal ++ []) m n := h.change fun p hp _ =>
      ⟨hw _ hp.mem_generations, fun e he => by cases he⟩
    rwa [List.append_nil] at hchange
  unfold Agrees at h ⊢
  cases hc : r.control with
  | ready | turn k | winding status k | closed k tally =>
    simp only [hc] at h ⊢
    exact hsplit h
  | opening k records =>
    simp only [hc] at h ⊢
    exact ⟨hsplit h.1, h.2⟩
  | running k since steps =>
    simp only [hc] at h ⊢
    exact ⟨hsplit h.1, fun p g b hp hk hg hb =>
      (h.2 p g b hp hk hg hb).works (hw _ hp.mem_generations)⟩
  | aborting e => trivial
  | done result =>
    cases result with
    | ok o =>
      simp only [hc] at h ⊢
      obtain ⟨n, hn, h⟩ := h
      exact ⟨n, hn, hsplit h⟩
    | error e => trivial

/-- Each move of a step keeps the run in agreement: that step by what the
move does, all others as it does nothing to them. -/
theorem agrees_of_stepMove {j : Nat} (h : r.stepMove w j = some (w', r')) (hact : r.act = a)
    (hs : w.executor.registry.Sound) (hholds : loaded.Holds a)
    (hag : r.Agrees loaded a stored w.executor.registry) :
    r'.Agrees loaded a stored w'.executor.registry := by
  obtain ⟨k, since, steps, s, step, b, y, b', entries, hc, hseq, hstep, hb, hadvance, rfl, rfl⟩ :=
    stepMove_eq h
  have hadvanced := Activity.advanced_of_advance hadvance
  simp only [Agrees, hc] at hag
  obtain ⟨hsplit, hsteps⟩ := hag
  have hp : a.Has ⟨k, j, step⟩ := by
    rw [Act.Has, Act.step?, ← hact, hseq]
    exact hstep
  obtain ⟨g, hg, hcreated⟩ := hholds.created _ hp.mem_generations
  have hthis := hsteps _ g b hp rfl hg hb
  -- another step has another generation, so for it the move is no more than work
  have helsewhere : ∀ q, a.Has q → ¬ (k = q.sequence ∧ j = q.index) →
      Works q.step.generation w.executor.registry y.registry ∧ ∀ e ∈ entries, ¬ e.IsAbout q := by
    intro q hq hplace
    have hid : step.generation ≠ q.step.generation := by
      intro heq
      obtain rfl := Act.eq_of_generation hholds.nodup hp hq heq
      exact hplace ⟨rfl, rfl⟩
    obtain ⟨hapart, hentries⟩ := hadvanced.elsewhere hs hthis hid hplace
    exact ⟨.of_apart hapart, hentries⟩
  refine ⟨hsplit.change fun q hq hk => helsewhere q hq fun hplace => ?_, ?_⟩
  · have := hplace.1
    omega
  · intro q gq bq hq hk hgq hbq
    by_cases hj : j = q.index
    · -- it is the step that has moved
      obtain rfl : q = ⟨k, j, step⟩ := hq.eq hp hk hj.symm
      obtain rfl := Option.some.inj (hg.symm.trans hgq)
      rw [List.getElem?_set_self (List.getElem?_eq_some_iff.mp hb).1] at hbq
      obtain rfl := Option.some.inj hbq
      exact hadvanced.agrees hs hcreated hthis
    · rw [List.getElem?_set_ne hj] at hbq
      obtain ⟨hworks, hentries⟩ := helsewhere q hq fun hplace => hj hplace.2
      exact ((hsteps q gq bq hq hk hgq hbq).works hworks).mono hentries

end Run

/-! ## Whole runs -/

/-- Others leave the stored act alone, and the setting, starting and
stopping of its generations to the run. Work on these goes on. -/
def World.LeavesWork (a : Act) (w w' : World) : Prop :=
  w.KeepsAct a.id w' ∧ ∃ d, w' = w.after d ∧
    ∀ command, d = .executor command → ∀ id ∈ a.generations, command.Leaves id

/-- Those who leave the work alone do no more than work on the generations of
an act. -/
theorem World.LeavesWork.works {a : Act} {w w' : World} (h : w.LeavesWork a w')
    (hs : w.executor.registry.Sound) :
    ∀ id ∈ a.generations, Works id w.executor.registry w'.executor.registry := by
  obtain ⟨-, d, rfl, hleaves⟩ := h
  intro id hid
  cases d with
  | store command => exact .refl
  | executor command => exact Executor.run_works hs (hleaves command rfl id hid) w.now
  | wait ms => exact .refl

/-- The status of a step and the record of its generation say the same. -/
structure Agreement (x : Registry) (journal : List Entry) (p : PlacedStep) (status : Status) :
    Prop where
  completed_iff : status = .completed ↔ x.HasStatus p.step.generation .completed
  failed_iff : status = .failed ↔ ∃ record message, x.get? p.step.generation = some record ∧
    record.status = .failed ∧ record.error = some message ∧ FailedWith journal p message
  /-- A generation that is still created was never dispatched. -/
  cancelled_iff : status = .cancelled ↔ x.HasStatus p.step.generation .cancelled ∨
    x.HasStatus p.step.generation .created ∧ ∀ e ∈ journal, ¬ e.IsAbout p

/-- A step that is settled agrees with its generation. -/
theorem Settled.agreement {x : Registry} {g : Generation} {journal : List Entry} {p : PlacedStep}
    {status : Status} (h : Settled x g journal p status) (hg : g.status = .created) :
    Agreement x journal p status := by
  cases h with
  | completed hentry hrecord =>
    obtain ⟨record, hrecord, hstatus⟩ := hrecord
    constructor <;> simp [HasStatus, hrecord, hstatus]
  | failed hentry hrecord hstatus herror htold =>
    constructor <;> simp [HasStatus, hrecord, hstatus, herror, htold]
  | stopped hentry hrecord =>
    obtain ⟨record, hrecord, hstatus⟩ := hrecord
    constructor <;> simp [HasStatus, hrecord, hstatus]
  | skipped hu =>
    refine ⟨by simp [HasStatus, hu.record_eq, hg], by simp [hu.record_eq, hg], ?_⟩
    simpa [HasStatus, hu.record_eq, hg] using hu.silent

/-- A generation that is settled is not in flight. -/
theorem Settled.entry_eq {x : Registry} {g : Generation} {journal : List Entry} {p : PlacedStep}
    {status : Status} (h : Settled x g journal p status) :
    x.inFlight.get? p.step.generation = none := by
  cases h with
  | completed hentry hrecord => exact hentry
  | failed hentry hrecord hstatus herror htold => exact hentry
  | stopped hentry hrecord => exact hentry
  | skipped hu => exact hu.entry_eq

/-- The stored act, of which `n` sequences have run, and the records of its
generations agree. -/
structure RecordsAgree (a stored : Act) (loaded x : Registry) (journal : List Entry) (n : Nat) :
    Prop where
  /-- Nothing is left in flight. -/
  entry_eq : ∀ id ∈ a.generations, x.inFlight.get? id = none
  /-- Where the sequence has run, status and record agree, and each failure
  has its note. -/
  ran : ∀ p, a.Has p → p.sequence < n → ∃ step, stored.step? p.sequence p.index = some step ∧
    Agreement x journal p step.status ∧
    (step.status = .failed →
      ∃ note ∈ stored.annotations, IsFailureNote a journal p.sequence p.index note)
  /-- Where it has not, the record is the one that was loaded. -/
  skipped : ∀ p, a.Has p → n ≤ p.sequence →
    x.get? p.step.generation = loaded.get? p.step.generation

namespace Scene

variable {a : Act} {loaded : Registry} {c c' : Scene}

/-- The run, the store and the registry agree. -/
structure Agrees (loaded : Registry) (a : Act) (c : Scene) : Prop where
  sound : c.world.executor.registry.Sound
  backed : c.run.Backed c.world.executor.registry
  shows : c.Shows a
  agrees : ∀ stored, c.world.store.get? a.id = some stored →
    c.run.Agrees loaded a stored c.world.executor.registry

/-- Whatever happens, records and generations agree as far as the run has
come. -/
theorem Next.agrees (h : Next (World.LeavesWork a) c c') (hfresh : a.IsFresh)
    (hholds : loaded.Holds a) (hag : c.Agrees loaded a) : c'.Agrees loaded a := by
  have hany : Next World.AnyDeed c c' := h.mono fun _ _ ⟨_, d, hd, _⟩ => ⟨d, hd⟩
  obtain ⟨hsound, hbacked, -⟩ := hany.backed hag.sound hag.backed
  refine ⟨hsound, hbacked, h.shows hfresh (fun _ _ h => h.1) hag.shows, fun stored' hget' => ?_⟩
  obtain ⟨hact, stored, hget, hrec⟩ := hag.shows
  cases h with
  | lead h =>
    have hled := Run.led_of_lead h
    rw [hled.executor_eq]
    exact hled.agrees hfresh hact hget hget' hrec (hag.agrees stored hget)
  | step j h =>
    obtain ⟨hstore, -⟩ := Run.recorded_of_stepMove h hact hrec
    exact Run.agrees_of_stepMove h hact hag.sound hholds (hag.agrees stored' (hstore ▸ hget'))
  | cancel => exact hag.agrees stored' hget'
  | others h => exact (hag.agrees stored' (h.1 ▸ hget')).works (h.works hag.sound)

/-- Before the run, all generations are as they were loaded. -/
theorem agrees_begin {w : World} (hs : w.executor.registry.Sound)
    (hholds : w.executor.registry.Holds a) (hget : w.store.get? a.id = some a)
    (isCancelled : Bool) : (begin w a isCancelled).Agrees w.executor.registry a where
  sound := hs
  backed := trivial
  shows := shows_begin hget isCancelled
  agrees := fun stored _ =>
    { ran := fun p g _ hlt => absurd hlt (Nat.not_lt_zero _)
      rest := fun p g hp _ hg =>
        ⟨hg, hholds.entry_eq _ hp.mem_generations, fun e he => by cases he⟩ }

/-- Once a run has given back an outcome, the stored act and the records of
its generations agree, if nobody else sets, starts or stops these.

`Agrees` is the invariant. It is about the moment between a record and the
batch that tells of it as well, where the two are apart by what the run
still holds in its hands; at an outcome it holds nothing. -/
theorem records_agree {staff : Staff} {before : List Deed} {w : World} {isCancelled : Bool}
    {o : Outcome} (hw : w = (World.fresh staff).afterAll before) (hfresh : a.IsFresh)
    (hholds : w.executor.registry.Holds a) (hget : w.store.get? a.id = some a)
    (hreach : Reaches (World.LeavesWork a) (begin w a isCancelled) c)
    (hdone : c.run.control = .done (.ok o)) :
    ∃ stored n, c.world.store.get? a.id = some stored ∧
      n + o.skippedSequences = a.sequences.length ∧
      RecordsAgree a stored w.executor.registry c.world.executor.registry c.run.journal n := by
  have hsound : w.executor.registry.Sound :=
    hw ▸ World.afterAll_sound Registry.sound_empty before
  -- the run is in agreement throughout; at the end its steps have run or are as they
  -- were loaded
  have hag := hreach.induct (agrees_begin hsound hholds hget isCancelled)
    fun _ _ hnext => hnext.agrees hfresh hholds
  obtain ⟨-, stored, hstored, hrec⟩ := hag.shows
  have hagrees := hag.agrees stored hstored
  simp only [Run.Agrees, hdone] at hagrees
  simp only [Run.Recorded, hdone] at hrec
  obtain ⟨n, hn, hsplit⟩ := hagrees
  obtain ⟨progress, hover⟩ := hrec
  have hloaded (p : PlacedStep) (hp : a.Has p) :
      ∃ g, w.executor.registry.get? p.step.generation = some g ∧ g.status = .created :=
    hholds.created _ hp.mem_generations
  refine ⟨stored, n, hstored, hn, ?_, ?_, ?_⟩
  · intro id hid
    obtain ⟨p, hp, rfl⟩ := Act.mem_generations.mp hid
    obtain ⟨g, hg, -⟩ := hloaded p hp
    rcases Nat.lt_or_ge p.sequence n with hlt | hge
    · obtain ⟨step, -, hsettled⟩ := hsplit.ran p g hp hlt hg
      exact hsettled.entry_eq
    · exact (hsplit.rest p g hp hge hg).entry_eq
  · intro p hp hlt
    obtain ⟨g, hg, hcreated⟩ := hloaded p hp
    obtain ⟨step, hstep, hsettled⟩ := hsplit.ran p g hp hlt hg
    exact ⟨step, hstep, hsettled.agreement hcreated, hover.exists_note hfresh hstep⟩
  · intro p hp hge
    obtain ⟨g, hg, -⟩ := hloaded p hp
    exact (hsplit.rest p g hp hge hg).record_eq.trans hg.symm

/-! ## The failure of a loaded sample -/

/-- The sample's act and its generations are loaded. -/
def sampleLoading : List Deed :=
  .store (.insert Sample.blueprint.act) ::
    Sample.blueprint.generations.map fun g => .executor (.set g)

def sampleLoaded : World := (World.fresh (.workers Operation.all)).afterAll sampleLoading

theorem sample_holds : sampleLoaded.executor.registry.Holds Sample.blueprint.act where
  nodup := by decide +kernel
  created := by decide +kernel
  entry_eq := by decide +kernel

theorem sample_records_agree :
    sampleLoaded = (World.fresh (.workers Operation.all)).afterAll sampleLoading ∧
    Sample.blueprint.act.IsFresh ∧
    sampleLoaded.executor.registry.Holds Sample.blueprint.act ∧
    sampleLoaded.store.get? Sample.blueprint.act.id = some Sample.blueprint.act ∧
    ∃ c o, Reaches (World.LeavesWork Sample.blueprint.act)
        (begin sampleLoaded Sample.blueprint.act false) c ∧
      c.run.control = .done (.ok o) ∧ (o.failed = 1 ∧ o.skippedSequences = 1) ∧
      ∃ stored n, c.world.store.get? Sample.blueprint.act.id = some stored ∧
        n + o.skippedSequences = Sample.blueprint.act.sequences.length ∧
        RecordsAgree Sample.blueprint.act stored sampleLoaded.executor.registry
          c.world.executor.registry c.run.journal n := by
  have hget : sampleLoaded.store.get? Sample.blueprint.act.id = some Sample.blueprint.act := by
    decide +kernel
  have hplayed : (((begin sampleLoaded Sample.blueprint.act false).perform sampleFailure).bind
      (·.run.outcome?)) = some ⟨Sample.blueprint.act.id, .failed, 2, 2, 0, 1, 0, 1⟩ := by
    decide +kernel
  obtain ⟨c, hc, houtcome⟩ := Option.bind_eq_some_iff.mp hplayed
  have hdeeds : ∀ d, .deed d ∈ sampleFailure → ∀ w : World,
      w.LeavesWork Sample.blueprint.act (w.after d) := by
    intro d hd w
    simp only [sampleFailure, List.mem_cons, reduceCtorEq, Happening.deed.injEq,
      List.not_mem_nil, or_false, false_or] at hd
    rcases hd with rfl | rfl
    · exact ⟨rfl, _, rfl, fun command h => by cases h⟩
    · refine ⟨rfl, _, rfl, fun command h => ?_⟩
      cases h
      exact fun _ _ => trivial
  have hreach := reaches_of_perform hdeeds hc
  have hdone := Run.done_of_outcome? houtcome
  exact ⟨rfl, sample_fresh, sample_holds, hget, c, _, hreach, hdone, ⟨rfl, rfl⟩,
    records_agree rfl sample_fresh sample_holds hget hreach hdone⟩

end Scene

end Workflow
