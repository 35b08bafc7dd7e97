/-
Workflow.Proofs.Engine.Dependencies — no work starts before the work that
it depends on is completed.

`Run.Backed` is the invariant: the registry backs up what a run has come
to. All steps of the sequences behind it are completed on record; a step
that flies has a flight of its own generation; a step that ended completed
is completed on record. A registry only grows, so that others cannot take
this back (`Backed.grows`), and each move of the run keeps it.
-/
import Mathlib.Data.List.Forall2
import Workflow.Proofs.Engine.Moves
import Workflow.Proofs.Engine.Outcome
import Workflow.Proofs.Engine.Scene
import Workflow.Proofs.Executor.Sound
import Workflow.Proofs.Plan.Blueprint

namespace Workflow

/-! ## Steps -/

namespace Activity

/-- The registry backs up how far a step has come. -/
def Backed (x : Registry) (step : Step) : Activity → Prop
  | .flying _ n _ _ => x.target? n = some step.generation
  | .ended report => report.outcome = .completed → x.HasStatus step.generation .completed
  | .waiting _ | .announced _ | .refused _ _ => True

/-- What backs a step is never taken back. -/
theorem Backed.grows {x x' : Registry} {step : Step} {a : Activity} (h : a.Backed x step)
    (hg : x.Grows x') : a.Backed x' step := by
  cases a with
  | flying since n taken isStopped => exact hg.target n _ h
  | ended report => exact fun hc => hg.status _ _ rfl (h hc)
  | _ => trivial

variable {x x' : Executor} {clock : Nat} {isCancelled : Bool} {p : PlacedStep}

/-- Recording a failure starts nothing. -/
theorem recordFailure_sound (hs : x.registry.Sound) {id : GenerationId} {message : String}
    {now : Timestamp} {entries : List Entry}
    (h : recordFailure x id message now = (x', entries)) :
    x'.registry.Sound ∧ x.registry.Grows x'.registry ∧
      ∀ g isStreaming, Entry.start g isStreaming ∉ entries := by
  rcases recordFailure_eq h with ⟨rfl, rfl⟩ | ⟨failed, rfl, rfl⟩
  · exact ⟨hs, .refl _, by simp⟩
  · cases hset : x.set failed with
    | error e => exact ⟨hs, .refl _, by simp⟩
    | ok y =>
      obtain ⟨hsound, hgrows⟩ := Executor.set_sound hs hset
      exact ⟨hsound, hgrows, by simp⟩

/-- A move of a step leaves a sound registry, which backs up what became of
the step. -/
theorem Advanced.backed {a a' : Activity} {entries : List Entry}
    (h : Advanced x clock isCancelled p a x' a' entries) (hs : x.registry.Sound)
    (hb : a.Backed x.registry p.step) :
    x'.registry.Sound ∧ x.registry.Grows x'.registry ∧ a'.Backed x'.registry p.step := by
  cases h with
  | skip hi => exact ⟨hs, .refl _, fun hc => by cases hc⟩
  | unqueued hi hq => exact ⟨hs, .refl _, trivial⟩
  | unset hi hq hx => exact ⟨hs, .refl _, trivial⟩
  | announce hi hq hx =>
    obtain ⟨hsound, hgrows⟩ := Executor.set_sound hs hx
    exact ⟨hsound, hgrows, trivial⟩
  | unstarted hx => exact ⟨hs, .refl _, trivial⟩
  | start hx => exact Executor.start_sound hs hx
  | @stop since flight taken hi =>
    cases hstop : x.stop p.step.generation (.ofMillis clock) with
    | error e => exact ⟨hs, .refl _, hb⟩
    | ok y =>
      obtain ⟨hsound, hgrows⟩ := Executor.stop_sound hs hstop
      exact ⟨hsound, hgrows, hgrows.target flight _ hb⟩
  | delta hf hsignal => exact ⟨hs, .refl _, hb⟩
  | @complete since flight taken isStopped f record hf hsignal =>
    -- a completion that was heard is on record
    exact ⟨hs, .refl _, fun _ =>
      hs.heard flight _ hb ⟨f, record, hf, List.mem_of_getElem? hsignal⟩⟩
  | fail hf hsignal hm => exact ⟨hs, .refl _, fun hc => by cases hc⟩
  | «break» hf hsignal => exact ⟨hs, .refl _, trivial⟩
  | lose hf hsignal hopen => exact ⟨hs, .refl _, fun hc => by cases hc⟩
  | settle hr =>
    obtain ⟨hsound, hgrows, -⟩ := recordFailure_sound hs hr
    exact ⟨hsound, hgrows, fun hc => by cases hc⟩

/-- A step starts its own generation only. -/
theorem Advanced.start_mem {a a' : Activity} {entries : List Entry}
    (h : Advanced x clock isCancelled p a x' a' entries) (hs : x.registry.Sound)
    {g : GenerationId} {isStreaming : Bool} (hmem : Entry.start g isStreaming ∈ entries) :
    p.step.generation = g := by
  cases h with
  | unstarted hx =>
    simp only [List.mem_singleton, Entry.start.injEq] at hmem
    exact hmem.1.symm
  | start hx =>
    simp only [List.mem_singleton, Entry.start.injEq] at hmem
    exact hmem.1.symm
  | settle hr =>
    obtain ⟨-, -, hnot⟩ := recordFailure_sound hs hr
    simp [hnot] at hmem
  | _ => simp at hmem

end Activity

/-! ## Sequences -/

/-- The steps of the first `k` sequences are completed. -/
def Registry.DoneBefore (x : Registry) (a : Act) (k : Nat) : Prop :=
  ∀ i < k, ∀ j step, a.step? i j = some step → x.HasStatus step.generation .completed

theorem Registry.DoneBefore.grows {x x' : Registry} {a : Act} {k : Nat}
    (h : x.DoneBefore a k) (hg : x.Grows x') : x'.DoneBefore a k :=
  fun i hi j step hstep => hg.status _ _ rfl (h i hi j step hstep)

/-- The elements at one position are replaced by others that are related. -/
theorem forall₂_set {α β : Type} {R : α → β → Prop} {as : List α} {bs : List β}
    (h : List.Forall₂ R as bs) {a : α} {b : β} (hab : R a b) (j : Nat) :
    List.Forall₂ R (as.set j a) (bs.set j b) := by
  induction h generalizing j with
  | nil => exact .nil
  | cons hhead htail ih =>
    cases j with
    | zero => exact .cons hab htail
    | succ j => exact .cons hhead (ih j)

/-- Related lists have related elements at the same positions. -/
theorem forall₂_getElem? {α β : Type} {R : α → β → Prop} {as : List α} {bs : List β}
    (h : List.Forall₂ R as bs) {j : Nat} {a : α} (ha : as[j]? = some a) :
    ∃ b, bs[j]? = some b ∧ R a b := by
  induction h generalizing j with
  | nil => cases ha
  | cons hhead htail ih =>
    cases j with
    | zero =>
      cases ha
      exact ⟨_, rfl, hhead⟩
    | succ j => exact ih ha

/-! ## Runs -/

namespace Run

/-- The registry backs up what a run has come to. -/
def Backed (x : Registry) (r : Run) : Prop :=
  match r.control with
  | .turn k => x.DoneBefore r.act k
  | .opening k records => x.DoneBefore r.act k ∧
    ∃ s, r.act.sequences[k]? = some s ∧ records.length ≤ s.steps.length
  | .running k _ steps => x.DoneBefore r.act k ∧
    ∃ s, r.act.sequences[k]? = some s ∧ List.Forall₂ (Activity.Backed x) s.steps steps
  | .closed k tally => x.DoneBefore r.act k ∧
    (tally.failed = 0 → tally.cancelled = 0 → x.DoneBefore r.act (k + 1))
  | .ready | .winding _ _ | .aborting _ | .done _ => True

variable {w w' : World} {r r' : Run} {x x' : Registry}

theorem Backed.grows (h : r.Backed x) (hg : x.Grows x') : r.Backed x' := by
  unfold Backed at h ⊢
  cases hc : r.control with
  | turn k =>
    simp only [hc] at h ⊢
    exact h.grows hg
  | opening k records =>
    simp only [hc] at h ⊢
    exact ⟨h.1.grows hg, h.2⟩
  | running k since steps =>
    simp only [hc] at h ⊢
    obtain ⟨hbefore, s, hs, hsteps⟩ := h
    exact ⟨hbefore.grows hg, s, hs, hsteps.imp fun _ _ ha => ha.grows hg⟩
  | closed k tally =>
    simp only [hc] at h ⊢
    exact ⟨h.1.grows hg, fun hf hz => (h.2 hf hz).grows hg⟩
  | _ => trivial

/-- What a batch leads to is backed up if it is where the batch is
accepted. -/
theorem backed_of_send {patches : List Patch} {next : Run → Run}
    (h : send w r patches next = (w', r'))
    (hnext : (next (r.record [.batch patches none])).Backed x) : r'.Backed x := by
  rcases send_eq h with ⟨store, -, -, rfl⟩ | ⟨e, -, -, rfl⟩
  · exact hnext
  · exact trivial

/-- If the steps of a sequence came to neither a failure nor a
cancellation, they are all completed on record. -/
theorem doneBefore_succ {k : Nat} {s : Sequence} {steps : List Activity}
    {reports : List StepReport} (hbefore : x.DoneBefore r.act k)
    (hs : r.act.sequences[k]? = some s) (hsteps : List.Forall₂ (Activity.Backed x) s.steps steps)
    (hreports : steps.mapM (·.report?) = some reports)
    (hf : (Tally.ofReports reports).failed = 0) (hz : (Tally.ofReports reports).cancelled = 0) :
    x.DoneBefore r.act (k + 1) := by
  intro i hi j step hstep
  rcases Nat.lt_succ_iff_lt_or_eq.mp hi with hlt | rfl
  · exact hbefore i hlt j step hstep
  · rw [Act.step?, hs, Option.bind_some] at hstep
    obtain ⟨a, ha, hbacked⟩ := forall₂_getElem? hsteps hstep
    rw [Activity.eq_map_ended hreports, List.getElem?_map, Option.map_eq_some_iff] at ha
    obtain ⟨report, hreport, rfl⟩ := ha
    exact hbacked (Tally.completed_of_ofReports hf hz report (List.mem_of_getElem? hreport))

/-- A move of the run itself starts nothing, and goes to the next sequence only
if all steps are done. -/
theorem Led.backed (h : Led w r w' r') (hb : r.Backed x) : r'.Backed x := by
  cases h with
  | begin hc hs hsend =>
    exact backed_of_send hsend fun i hi => absurd hi (Nat.not_lt_zero i)
  | @enter k hc hk hi =>
    simp only [Backed, hc] at hb
    exact ⟨hb, r.act.sequences[k], List.getElem?_eq_getElem hk, Nat.zero_le _⟩
  | @found k records s step g hc hs hstep hg hstatus =>
    simp only [Backed, hc] at hb
    obtain ⟨hlt, -⟩ := List.getElem?_eq_some_iff.mp hstep
    refine ⟨hb.1, s, hs, ?_⟩
    rw [List.length_append, List.length_singleton]
    exact hlt
  | @«open» k records s w' r' hc hs hall hsend =>
    simp only [Backed, hc] at hb
    obtain ⟨hbefore, s', hs', hlength⟩ := hb
    obtain rfl : s = s' := Option.some.inj (hs.symm.trans hs')
    refine backed_of_send hsend ⟨hbefore, s, hs, ?_⟩
    -- a step that waits has nothing that would have to be backed
    refine List.forall₂_iff_get.mpr ⟨by rw [List.length_map]; omega, fun i _ _ => ?_⟩
    simp [Activity.Backed]
  | close hc hs hreports hsend =>
    simp only [Backed, hc] at hb
    obtain ⟨hbefore, s', hs', hsteps⟩ := hb
    obtain rfl := Option.some.inj (hs.symm.trans hs')
    exact backed_of_send hsend ⟨hbefore, doneBefore_succ hbefore hs hsteps hreports⟩
  | @judge k tally hc =>
    simp only [Backed, hc] at hb
    simp only [Backed, goto_control, goto_act]
    rcases r.judge_eq k tally with ⟨hj, -⟩ | ⟨hj, -⟩ | ⟨hj, hz, hf⟩
    · rw [hj]
      trivial
    · rw [hj]
      trivial
    · rw [hj]
      -- only a sequence without failed and cancelled steps is followed by another
      exact hb.2 hf hz
  | finish hc ho hsend => exact backed_of_send hsend trivial
  | _ => exact trivial

/-- A step moves on its own, and what it reports as completed is on record. -/
theorem backed_of_stepMove {j : Nat} (h : r.stepMove w j = some (w', r'))
    (hs : w.executor.registry.Sound) (hb : r.Backed w.executor.registry) :
    w'.executor.registry.Sound ∧ r'.Backed w'.executor.registry := by
  obtain ⟨k, since, steps, s, step, a, y, a', entries, hc, hs', hstep, ha, hadvance, rfl, rfl⟩ :=
    stepMove_eq h
  simp only [Backed, hc] at hb
  obtain ⟨hbefore, s', hseq, hsteps⟩ := hb
  obtain rfl := Option.some.inj (hs'.symm.trans hseq)
  obtain ⟨b, hb, hbacked⟩ := forall₂_getElem? hsteps hstep
  obtain rfl := Option.some.inj (ha.symm.trans hb)
  obtain ⟨hsound, hgrows, hbacked'⟩ :=
    (Activity.advanced_of_advance hadvance).backed hs hbacked
  refine ⟨hsound, hbefore.grows hgrows, s, hs', ?_⟩
  have hset := forall₂_set (hsteps.imp fun _ _ h => h.grows hgrows) hbacked' j
  obtain ⟨hj, rfl⟩ := List.getElem?_eq_some_iff.mp hstep
  rwa [List.set_getElem_self] at hset

end Run

/-! ## Anything may happen -/

/-- Others may do whatever anybody can. -/
def World.AnyDeed (w w' : World) : Prop := ∃ d : Deed, w' = w.after d

namespace World

/-- Whatever is done to a world keeps its registry sound. -/
theorem after_sound {w : World} (hs : w.executor.registry.Sound) (d : Deed) :
    (w.after d).executor.registry.Sound ∧
      w.executor.registry.Grows (w.after d).executor.registry := by
  cases d with
  | executor command => exact Executor.run_sound hs w.now command
  | _ => exact ⟨hs, .refl _⟩

theorem afterAll_sound {w : World} (hs : w.executor.registry.Sound) (deeds : List Deed) :
    (w.afterAll deeds).executor.registry.Sound := by
  induction deeds generalizing w with
  | nil => exact hs
  | cons d rest ih => exact ih (after_sound hs d).1

/-- A world before anything has happened. -/
def fresh (staff : Staff) : World := ⟨.empty, ⟨.empty, staff⟩, 0⟩

/-- The world once the act and the generations of a blueprint are
loaded. -/
def load (w : World) (b : Blueprint) : World :=
  { w with store := w.store.insert b.act, executor := (w.executor.insertAll b.generations).1 }

end World

namespace Scene

variable {c c' : Scene}

/-- Whatever happens, all that a run has come to is on record. -/
theorem Next.backed (h : Next World.AnyDeed c c') (hs : c.world.executor.registry.Sound)
    (hb : c.run.Backed c.world.executor.registry) :
    c'.world.executor.registry.Sound ∧ c'.run.Backed c'.world.executor.registry ∧
      c'.run.act = c.run.act := by
  cases h with
  | lead h =>
    have hled := Run.led_of_lead h
    rw [hled.executor_eq]
    exact ⟨hs, hled.backed hb, hled.continues.act_eq⟩
  | step j h =>
    obtain ⟨hs', hb'⟩ := Run.backed_of_stepMove h hs hb
    obtain ⟨_, _, _, _, _, _, _, _, _, -, -, -, -, -, -, rfl⟩ := Run.stepMove_eq h
    exact ⟨hs', hb', rfl⟩
  | cancel => exact ⟨hs, hb, rfl⟩
  | others h =>
    obtain ⟨d, rfl⟩ := h
    obtain ⟨hs', hgrows⟩ := World.after_sound hs d
    exact ⟨hs', hb.grows hgrows, rfl⟩

theorem Reaches.backed {w : World} {act : Act} {isCancelled : Bool}
    (h : Reaches World.AnyDeed (begin w act isCancelled) c) (hs : w.executor.registry.Sound) :
    c.world.executor.registry.Sound ∧ c.run.Backed c.world.executor.registry ∧
      c.run.act = act := by
  refine h.induct (P := fun c => c.world.executor.registry.Sound ∧
    c.run.Backed c.world.executor.registry ∧ c.run.act = act) ⟨hs, trivial, rfl⟩ ?_
  rintro d d' hnext ⟨hs, hb, hact⟩
  obtain ⟨hs', hb', hact'⟩ := hnext.backed hs hb
  exact ⟨hs', hb', hact'.trans hact⟩

/-- A start is the move of a step of the running sequence. -/
theorem Next.start_eq {others : Interference} (h : Next others c c')
    (hs : c.world.executor.registry.Sound) {g : GenerationId} {isStreaming : Bool}
    (hmem : Entry.start g isStreaming ∈ c'.run.journal.drop c.run.journal.length) :
    ∃ k since steps j step, c.run.control = .running k since steps ∧
      c.run.act.step? k j = some step ∧ step.generation = g := by
  cases h with
  | lead h =>
    obtain ⟨es, hes, hrun⟩ := (Run.led_of_lead h).continues.journal
    rw [hes, List.drop_left] at hmem
    exact absurd (hrun _ hmem) (by simp [Entry.isOfRun])
  | step j h =>
    obtain ⟨k, since, steps, s, step, a, y, a', entries, hc, hseq, hstep, -, hadvance, rfl, rfl⟩ :=
      Run.stepMove_eq h
    rw [Run.goto_journal, Run.record_journal, List.drop_left] at hmem
    refine ⟨k, since, steps, j, step, hc, ?_, ?_⟩
    · rw [Act.step?, hseq]
      exact hstep
    · exact (Activity.advanced_of_advance hadvance).start_mem hs hmem
  | cancel => simp [Run.cancel] at hmem
  | others h => simp at hmem

/-- At every call by which a run starts work on a step, all operations of
the workspace that are connected to the step's node have steps of their own
in earlier sequences, and the work on these is completed on record.

Two halves meet here. `Blueprint.compile_earlier` puts the dependency into
an earlier sequence, and `Run.Backed`, which every move keeps, says that the
sequences before the running one have completed records. Everybody else may
do anything meanwhile: a final record is not lost to them. -/
theorem start_after_dependencies {ids : IdSource} {now : Timestamp} {w : Workspace}
    {start : NodeId} {b : Blueprint} (hv : w.validate = .ok ())
    (hb : Blueprint.compile ids now w start = .ok b) (staff : Staff) (before : List Deed)
    (isCancelled : Bool)
    (hreach : Reaches World.AnyDeed
      (begin (((World.fresh staff).afterAll before).load b) b.act isCancelled) c)
    (hnext : Next World.AnyDeed c c') {g : GenerationId} {isStreaming : Bool}
    (hstart : Entry.start g isStreaming ∈ c'.run.journal.drop c.run.journal.length) :
    ∃ k since steps j step, c.run.control = .running k since steps ∧
      b.act.step? k j = some step ∧ step.generation = g ∧
      ∀ u ∈ w.nodes, u.isOperation →
        (∃ e ∈ w.connections, e.source = u.id ∧ e.target = step.node) →
        ∃ i < k, ∃ l dep record, b.act.step? i l = some dep ∧ dep.node = u.id ∧
          c.world.executor.get? dep.generation = some record ∧ record.status = .completed := by
  have hsound : (((World.fresh staff).afterAll before).load b).executor.registry.Sound :=
    Executor.insertAll_sound (World.afterAll_sound Registry.sound_empty before) b.generations
  obtain ⟨hs, hbacked, hact⟩ := hreach.backed hsound
  obtain ⟨k, since, steps, j, step, hc, hstep, hg⟩ := hnext.start_eq hs hstart
  rw [hact] at hstep
  refine ⟨k, since, steps, j, step, hc, hstep, hg, ?_⟩
  rintro u hu hop ⟨e, he, hsource, htarget⟩
  obtain ⟨i, hi, l, dep, hdep, hnode⟩ := Blueprint.compile_earlier
    (Workspace.wellFormed_of_validate hv) hb hstep he htarget hu hsource hop
  simp only [Run.Backed, hc] at hbacked
  obtain ⟨record, hrecord, hstatus⟩ := hbacked.1 i hi l dep (hact ▸ hdep)
  exact ⟨i, hi, l, dep, record, hdep, hnode, hrecord, hstatus⟩

/-! ## A run up to its second start -/

/-- The sample's run is about to begin, with workers for everything. -/
def sampleOpening : Scene :=
  begin (((World.fresh (.workers Operation.all)).afterAll []).load Sample.blueprint)
    Sample.blueprint.act false

/-- The search is started and done, and the text is announced. -/
def sampleSchedule : List Happening :=
  [.lead, .lead, .lead, .lead, .step 0, .step 0, .deed (.executor (.report 0 (.ok []))), .step 0,
    .lead, .lead, .lead, .lead, .lead, .step 0]

theorem sample_start_after_dependencies : Sample.workspace.validate = .ok () ∧
    Blueprint.compile .numbered .epoch Sample.workspace ⟨"write"⟩ = .ok Sample.blueprint ∧
    ∃ c c', Reaches World.AnyDeed sampleOpening c ∧ Next World.AnyDeed c c' ∧
      Entry.start ⟨"gnr-2"⟩ true ∈ c'.run.journal.drop c.run.journal.length ∧
      ∃ k since steps j step, c.run.control = .running k since steps ∧
        Sample.blueprint.act.step? k j = some step ∧ step.generation = ⟨"gnr-2"⟩ ∧
        ∀ u ∈ Sample.workspace.nodes, u.isOperation →
          (∃ e ∈ Sample.workspace.connections, e.source = u.id ∧ e.target = step.node) →
          ∃ i < k, ∃ l dep record, Sample.blueprint.act.step? i l = some dep ∧ dep.node = u.id ∧
            c.world.executor.get? dep.generation = some record ∧
            record.status = .completed := by
  have hplayed : ((sampleOpening.perform sampleSchedule).bind fun c =>
      (c.happen (.step 0)).map fun c' =>
        decide (Entry.start ⟨"gnr-2"⟩ true ∈ c'.run.journal.drop c.run.journal.length)) =
      some true := by
    decide +kernel
  obtain ⟨c, hc, hplayed⟩ := Option.bind_eq_some_iff.mp hplayed
  obtain ⟨c', hc', hstart⟩ := Option.map_eq_some_iff.mp hplayed
  have hreach : Reaches World.AnyDeed sampleOpening c :=
    reaches_of_perform (fun d _ w => ⟨d, rfl⟩) hc
  have hnext : Next World.AnyDeed c c' := next_of_happen (fun d _ w => ⟨d, rfl⟩) hc'
  have hstart := of_decide_eq_true hstart
  exact ⟨Sample.workspace_valid, Sample.blueprint_eq, c, c', hreach, hnext, hstart,
    start_after_dependencies Sample.workspace_valid Sample.blueprint_eq _ [] false hreach hnext
      hstart⟩

end Scene

end Workflow
