/-
Workflow.Proofs.Engine.StepView — what a run means for one of its steps.

A `StepView` is all of a scene that concerns one step: its `Place` in the
run, what is stored of it, the journal and the executor. Of everything that
can happen in a scene, few things change it (`StepView.Next`): the step is
let in when its sequence begins, makes its own moves, and is put into the
store when its sequence is over; whatever else happens is elsewhere.

* `Next.view` — a scene that changes changes the view of each step so.
* `Reaches.view_induct` — what each such change keeps holds throughout a run
  that does not fail.
-/
import Workflow.Proofs.Engine.Agreement

namespace Workflow

open Registry

/-- Where a step stands in a run. -/
inductive Place where
  /-- Its sequence has not begun. -/
  | ahead
  /-- Its sequence runs. -/
  | inside (activity : Activity)
  /-- Its sequence has run, and the store knows. -/
  | past

namespace Run

/-- The run ends, or has ended, without an outcome. -/
def HasFailed (r : Run) : Prop :=
  match r.control with
  | .aborting _ | .done (.error _) => True
  | _ => False

/-- How many sequences have run. -/
def ran (r : Run) : Nat :=
  match r.control with
  | .turn k | .opening k _ | .running k _ _ | .winding _ k => k
  | .closed k _ => k + 1
  | .done (.ok o) => r.act.sequences.length - o.skippedSequences
  | .ready | .aborting _ | .done (.error _) => 0

/-- The place of a step, going by the sequences alone. -/
def outside (p : PlacedStep) (n : Nat) : Place := if p.sequence < n then .past else .ahead

def place (r : Run) (p : PlacedStep) : Place :=
  match r.control with
  | .running k _ steps =>
    if p.sequence = k then (steps[p.index]?).elim .ahead .inside else outside p k
  | _ => outside p r.ran

variable {r r' : Run} {p : PlacedStep} {k since : Nat} {steps : List Activity} {b : Activity}

theorem outside_of_lt {n : Nat} (h : p.sequence < n) : outside p n = .past := if_pos h

theorem outside_of_le {n : Nat} (h : n ≤ p.sequence) : outside p n = .ahead :=
  if_neg (Nat.not_lt.mpr h)

theorem outside_eq (p : PlacedStep) (n : Nat) : outside p n = .past ∨ outside p n = .ahead := by
  rcases Nat.lt_or_ge p.sequence n with h | h
  · exact Or.inl (outside_of_lt h)
  · exact Or.inr (outside_of_le h)

theorem lt_of_past {n : Nat} (h : outside p n = .past) : p.sequence < n := by
  unfold outside at h
  split at h
  · assumption
  · cases h

/-- One more sequence that has run is past for its own steps only. -/
theorem outside_succ {n : Nat} (h : p.sequence ≠ n) : outside p (n + 1) = outside p n := by
  have hiff : p.sequence < n + 1 ↔ p.sequence < n := by omega
  simp only [outside, hiff]

theorem place_running (hc : r.control = .running k since steps) (hk : p.sequence = k)
    (hb : steps[p.index]? = some b) : r.place p = .inside b := by
  simp [place, hc, hk, hb]

theorem place_running_of_ne (hc : r.control = .running k since steps) (hk : p.sequence ≠ k) :
    r.place p = outside p k := by
  simp [place, hc, hk]

end Run

/-- All of a scene that concerns one step. -/
structure StepView where
  executor : Executor
  journal : List Entry
  stored : Option Step
  place : Place

/-- The view of a step of the act in a scene. -/
def Scene.view (c : Scene) (a : Act) (p : PlacedStep) : StepView where
  executor := c.world.executor
  journal := c.run.journal
  stored := (c.world.store.get? a.id).bind (·.step? p.sequence p.index)
  place := c.run.place p

@[simp] theorem Scene.view_executor (c : Scene) (a : Act) (p : PlacedStep) :
    (c.view a p).executor = c.world.executor := rfl
@[simp] theorem Scene.view_journal (c : Scene) (a : Act) (p : PlacedStep) :
    (c.view a p).journal = c.run.journal := rfl
@[simp] theorem Scene.view_place (c : Scene) (a : Act) (p : PlacedStep) :
    (c.view a p).place = c.run.place p := rfl

namespace StepView

/-- The records agree with what the step has come to. -/
def Agrees (g : Generation) (p : PlacedStep) (v : StepView) : Prop :=
  match v.place with
  | .ahead => Untouched v.executor.registry g v.journal p
  | .inside b => b.Agrees v.executor.registry g v.journal p
  | .past => ∃ step, v.stored = some step ∧ Settled v.executor.registry g v.journal p step.status

/-- What can happen to a step, in a run that may have been cancelled. -/
inductive Next (p : PlacedStep) (isCancelled : Bool) (v v' : StepView) : Prop where
  /-- Something happened elsewhere, or in the work of the step. -/
  | stay {es : List Entry}
      (hworks : Works p.step.generation v.executor.registry v'.executor.registry)
      (hjournal : v'.journal = v.journal ++ es) (hes : ∀ e ∈ es, ¬ e.IsAbout p)
      (hplace : v'.place = v.place) (hstored : v.place = .past → v'.stored = v.stored)
  /-- The sequence of the step is begun, and it waits with its record. -/
  | enter {g : Generation} {es : List Entry} (hexecutor : v'.executor = v.executor)
      (hjournal : v'.journal = v.journal ++ es) (hes : ∀ e ∈ es, ¬ e.IsAbout p)
      (hplace : v.place = .ahead) (hplace' : v'.place = .inside (.waiting g))
  /-- The step itself moves. -/
  | advance {b b' : Activity} {clock : Nat} {es : List Entry}
      (hadvance : b.advance v.executor clock isCancelled p = some (v'.executor, b', es))
      (hjournal : v'.journal = v.journal ++ es) (hplace : v.place = .inside b)
      (hplace' : v'.place = .inside b')
  /-- The sequence is closed, and the store knows what the step came to. -/
  | leave {report : StepReport} {es : List Entry} (hexecutor : v'.executor = v.executor)
      (hjournal : v'.journal = v.journal ++ es) (hes : ∀ e ∈ es, ¬ e.IsAbout p)
      (hplace : v.place = .inside (.ended report)) (hplace' : v'.place = .past)
      (hstored : v'.stored = some (p.step.closed report))

/-- Only the moves of a step write about it. -/
theorem Next.journal {p : PlacedStep} {isCancelled : Bool} {v v' : StepView}
    (h : v.Next p isCancelled v') :
    ∃ es, v'.journal = v.journal ++ es ∧ ((∀ e ∈ es, ¬ e.IsAbout p) ∨
      ∃ b clock x b', v.place = .inside b ∧
        Activity.Advanced v.executor clock isCancelled p b x b' es) := by
  cases h with
  | stay hworks hjournal hes hplace hstored => exact ⟨_, hjournal, Or.inl hes⟩
  | enter hexecutor hjournal hes hplace hplace' => exact ⟨_, hjournal, Or.inl hes⟩
  | leave hexecutor hjournal hes hplace hplace' hstored => exact ⟨_, hjournal, Or.inl hes⟩
  | advance hadvance hjournal hplace hplace' =>
    exact ⟨_, hjournal, Or.inr ⟨_, _, _, _, hplace, Activity.advanced_of_advance hadvance⟩⟩

end StepView

/-! ## Runs and views

A view of a step follows one step through the whole run: before its sequence
begins, inside it, and after it. -/

namespace Run

variable {w w' : World} {r r' : Run} {a stored stored' : Act} {p : PlacedStep}

/-- A run that goes on had its batch accepted. -/
theorem updated_of_send {patches : List Patch} {next : Run → Run} (hact : r.act = a)
    (hget : w.store.get? a.id = some stored) (h : send w r patches next = (w', r'))
    (hok : ¬ r'.HasFailed) :
    ∃ new, stored.update patches = .ok new ∧ w'.store.get? a.id = some new ∧
      r' = next (r.record [.batch patches none]) := by
  rcases send_eq h with ⟨store, happly, rfl, rfl⟩ | ⟨e, -, rfl, rfl⟩
  · rw [hact] at happly
    obtain ⟨old, new, -, hold, hupdate, hnew, -⟩ := Store.apply_eq happly
    obtain rfl := Option.some.inj (hget.symm.trans hold)
    exact ⟨new, hupdate, hnew, rfl⟩
  · exact absurd trivial hok

/-- A move of the run itself. -/
theorem Led.view (h : Led w r w' r') (hfresh : a.IsFresh) (hact : r.act = a)
    (hget : w.store.get? a.id = some stored) (hrec : r.Recorded a stored) (hp : a.Has p)
    (hok : ¬ r'.HasFailed) :
    ((Scene.mk w r).view a p).Next p r.isCancelled ((Scene.mk w' r').view a p) := by
  have hexecutor := h.executor_eq
  obtain ⟨es, hes, hrun⟩ := h.continues.journal
  have hsilent : ∀ e ∈ es, ¬ e.IsAbout p := fun e he => Entry.isAbout_of_isOfRun (hrun e he) p
  -- moves that change neither the place nor what is stored of a step that has run
  have hstay (hplace : r'.place p = r.place p)
      (hstored : ∀ new, w'.store.get? a.id = some new → r.place p = .past →
        new.step? p.sequence p.index = stored.step? p.sequence p.index)
      (hget' : ∃ new, w'.store.get? a.id = some new) :
      ((Scene.mk w r).view a p).Next p r.isCancelled ((Scene.mk w' r').view a p) := by
    obtain ⟨new, hnew⟩ := hget'
    refine .stay ?_ hes hsilent hplace fun hpast => ?_
    · show Works _ w.executor.registry w'.executor.registry
      rw [hexecutor]
      exact .refl
    · simp only [Scene.view, hnew, hget, Option.bind_some]
      exact hstored new hnew hpast
  have hsame (hplace : r'.place p = r.place p) (hw : w' = w) :
      ((Scene.mk w r).view a p).Next p r.isCancelled ((Scene.mk w' r').view a p) := by
    subst hw
    refine hstay hplace (fun new hnew _ => ?_) ⟨stored, hget⟩
    rw [Option.some.inj (hnew.symm.trans hget)]
  cases h with
  | refuse hc hs => exact absurd trivial hok
  | begin hc hs hsend =>
    obtain ⟨new, -, hnew, rfl⟩ := updated_of_send hact hget hsend hok
    refine hstay ?_ (fun _ _ hpast => ?_) ⟨new, hnew⟩
    · simp [place, ran, hc]
    · simp [place, ran, hc, outside] at hpast
  | skip hc hk hi => exact hsame (by simp [place, ran, hc]) rfl
  | enter hc hk hi => exact hsame (by simp [place, ran, hc]) rfl
  | complete hc hk => exact hsame (by simp [place, ran, hc]) rfl
  | missing hc hs hstep hg => exact absurd trivial hok
  | unexpected hc hs hstep hg hstatus => exact absurd trivial hok
  | found hc hs hstep hg hstatus => exact hsame (by simp [place, ran, hc]) rfl
  | @«open» k records s _ _ hc hs hall hsend =>
    obtain ⟨new, hupdate, hnew, rfl⟩ := updated_of_send hact hget hsend hok
    by_cases hk : p.sequence = k
    · subst hk
      -- all records were found, so that each step has an activity
      have hlt := (List.getElem?_eq_some_iff.mp (hp.getElem? (hact ▸ hs))).1
      have hlt := Nat.lt_of_lt_of_le hlt hall
      have hb : (records.map Activity.waiting)[p.index]? = some (.waiting records[p.index]) := by
        rw [List.getElem?_map, List.getElem?_eq_getElem hlt]
        rfl
      refine .enter (g := records[p.index]) hexecutor hes hsilent ?_ ?_
      · simp [Scene.view, place, ran, hc, outside]
      · rw [Scene.view_place]
        exact place_running rfl rfl hb
    · refine hstay ?_ (fun _ hnew' hpast => ?_) ⟨new, hnew⟩
      · rw [place_running_of_ne rfl hk]
        simp [place, ran, hc]
      · obtain rfl := Option.some.inj (hnew.symm.trans hnew')
        have hlt : p.sequence < k := lt_of_past (by simpa [place, ran, hc] using hpast)
        exact hrec.step?_opened hfresh hc (hact ▸ hs) hupdate p.sequence hlt p.index
  | @close k since steps s reports _ _ hc hs hreports hsend =>
    obtain ⟨new, hupdate, hnew, rfl⟩ := updated_of_send hact hget hsend hok
    obtain ⟨hbefore, hreported⟩ := hrec.step?_closed hc (hact ▸ hs) hreports hupdate
    by_cases hk : p.sequence = k
    · subst hk
      have hstep := hp.getElem? (hact ▸ hs)
      obtain ⟨-, -, hlength⟩ := hrec.ended hc (hact ▸ hs) hreports
      have hlt : p.index < reports.length := hlength ▸ (List.getElem?_eq_some_iff.mp hstep).1
      have hreport := List.getElem?_eq_getElem hlt
      refine .leave hexecutor hes hsilent (place_running (b := .ended reports[p.index]) hc rfl ?_)
        ?_ ?_
      · rw [Activity.eq_map_ended hreports, List.getElem?_map, hreport]
        rfl
      · simp [Scene.view, place, ran, outside]
      · simp only [Scene.view, hnew, Option.bind_some]
        exact hreported p.index p.step _ hstep hreport
    · refine hstay ?_ (fun _ hnew' hpast => ?_) ⟨new, hnew⟩
      · rw [place_running_of_ne hc hk]
        simp [place, ran, outside_succ hk]
      · obtain rfl := Option.some.inj (hnew.symm.trans hnew')
        have hlt := lt_of_past ((place_running_of_ne hc hk).symm.trans hpast)
        exact hbefore p.sequence hlt p.index
  | @judge k tally hc =>
    refine hsame ?_ rfl
    rcases r.judge_eq k tally with ⟨hj, -⟩ | ⟨hj, -⟩ | ⟨hj, -⟩ <;> simp [place, ran, hc, hj]
  | @finish status k outcome _ _ hc ho hsend =>
    subst ho
    obtain ⟨new, hupdate, hnew, rfl⟩ := updated_of_send (r := r.record _) hact hget hsend hok
    obtain rfl := Except.ok.inj (hupdate.symm.trans (Act.takes_final stored _ _).update_eq)
    simp only [Recorded, hc] at hrec
    obtain ⟨progress, hpaused, -⟩ := hrec
    have hlength := hpaused.length_sequences
    refine hstay ?_ (fun _ hnew' _ => ?_) ⟨_, hnew⟩
    · have hran : r.act.sequences.length - (r.act.sequences.length - k) = k := by
        rw [hact, hlength]
        omega
      simp [place, ran, hc, outcome, hran]
    · rw [← Option.some.inj (hnew.symm.trans hnew')]
      rfl
  | abort hc hsend => exact absurd trivial hok

/-- A step that the run has let in has an activity. -/
theorem Recorded.exists_activity (hrec : r.Recorded a stored) {k since : Nat}
    {steps : List Activity} (hc : r.control = .running k since steps) (hp : a.Has p)
    (hk : p.sequence = k) : ∃ b, steps[p.index]? = some b := by
  subst hk
  simp only [Recorded, hc] at hrec
  obtain ⟨progress, s, hbusy⟩ := hrec
  have hlt := (List.getElem?_eq_some_iff.mp (hp.getElem? hbusy.getElem?)).1
  exact ⟨_, List.getElem?_eq_getElem (hbusy.steps_length ▸ hlt)⟩

end Run

namespace Scene

variable {a : Act} {loaded : Registry} {c c' : Scene} {p : PlacedStep} {g : Generation}

/-- What agrees for the whole act agrees for each step. -/
theorem Agrees.view (hag : c.Agrees loaded a) (hp : a.Has p)
    (hg : loaded.get? p.step.generation = some g) (hok : ¬ c.run.HasFailed) :
    (c.view a p).Agrees g p := by
  obtain ⟨hact, stored, hget, hrec⟩ := hag.shows
  have hagrees := hag.agrees stored hget
  -- what a split says of a step, going by its sequence
  have hsplit {m n : Nat} (h : Split loaded a stored c.world.executor.registry c.run.journal m n)
      (hplace : c.run.place p = Run.outside p m) (hn : m ≤ p.sequence → n ≤ p.sequence) :
      (c.view a p).Agrees g p := by
    unfold StepView.Agrees
    rw [view_place, hplace]
    rcases Nat.lt_or_ge p.sequence m with hlt | hge
    · rw [Run.outside_of_lt hlt]
      obtain ⟨step, hstep, hsettled⟩ := h.ran p g hp hlt hg
      exact ⟨step, by simp [Scene.view, hget, hstep], hsettled⟩
    · rw [Run.outside_of_le hge]
      exact h.rest p g hp (hn hge) hg
  unfold Run.Agrees at hagrees
  split at hagrees
  · rename_i hc
    exact hsplit hagrees (by simp [Run.place, Run.ran, hc]) id
  · rename_i k hc
    exact hsplit hagrees (by simp [Run.place, Run.ran, hc]) id
  · rename_i k hc
    exact hsplit hagrees (by simp [Run.place, Run.ran, hc]) id
  · rename_i k records hc
    exact hsplit hagrees.1 (by simp [Run.place, Run.ran, hc]) id
  · rename_i k since steps hc
    by_cases hk : p.sequence = k
    · obtain ⟨b, hb⟩ := hrec.exists_activity hc hp hk
      unfold StepView.Agrees
      rw [view_place, Run.place_running hc hk hb]
      exact hagrees.2 p g b hp hk hg hb
    · exact hsplit hagrees.1 (Run.place_running_of_ne hc hk) fun hle => by omega
  · rename_i k tally hc
    exact hsplit hagrees (by simp [Run.place, Run.ran, hc]) id
  · rename_i o hc
    obtain ⟨n, hn, h⟩ := hagrees
    refine hsplit h ?_ id
    have hran : c.run.ran = n := by
      simp only [Run.ran, hc, hact]
      omega
    simp only [Run.place, hc, hran]
  · rename_i e hc
    exact absurd (by simp [Run.HasFailed, hc]) hok
  · rename_i e hc
    exact absurd (by simp [Run.HasFailed, hc]) hok

/-- A move of a step: its own view changes by it, those of others do not. -/
theorem view_of_stepMove {w w' : World} {r r' : Run} {j : Nat}
    (h : r.stepMove w j = some (w', r')) (hact : r.act = a)
    (hs : w.executor.registry.Sound) (hholds : loaded.Holds a)
    (hag : ∀ q g, a.Has q → loaded.get? q.step.generation = some g →
      ((Scene.mk w r).view a q).Agrees g q) (hp : a.Has p) :
    ((Scene.mk w r).view a p).Next p r.isCancelled ((Scene.mk w' r').view a p) := by
  obtain ⟨k, since, steps, s, step, b, y, b', entries, hc, hseq, hstep, hb, hadvance, rfl, rfl⟩ :=
    Run.stepMove_eq h
  have hq : a.Has ⟨k, j, step⟩ := by
    rw [Act.Has, Act.step?, ← hact, hseq]
    exact hstep
  have hplace : r.place ⟨k, j, step⟩ = .inside b := Run.place_running hc rfl hb
  -- the step that moves sees its own move; all others see that nothing of theirs was
  -- touched
  by_cases hsame : p = ⟨k, j, step⟩
  · subst hsame
    refine .advance hadvance rfl hplace ?_
    rw [view_place]
    refine Run.place_running rfl rfl ?_
    rw [List.getElem?_set_self (List.getElem?_eq_some_iff.mp hb).1]
  · have hid : step.generation ≠ p.step.generation := fun heq =>
      hsame (Act.eq_of_generation hholds.nodup hp hq heq.symm)
    have hother : ¬ (k = p.sequence ∧ j = p.index) := by
      rintro ⟨hk, hj⟩
      exact hsame (hp.eq hq hk.symm hj.symm)
    obtain ⟨g', hg', -⟩ := hholds.created _ hq.mem_generations
    have hthis := hag _ g' hq hg'
    unfold StepView.Agrees at hthis
    rw [view_place, hplace] at hthis
    obtain ⟨hapart, hentries⟩ :=
      (Activity.advanced_of_advance hadvance).elsewhere hs hthis hid hother
    refine .stay (.of_apart hapart) rfl hentries ?_ fun _ => rfl
    simp only [view_place]
    by_cases hk : p.sequence = k
    · have hj : j ≠ p.index := fun hj => hother ⟨hk.symm, hj⟩
      simp [Run.place, hc, hk, List.getElem?_set_ne hj]
    · rw [Run.place_running_of_ne rfl hk, Run.place_running_of_ne hc hk]

/-- A run that has failed stays so. -/
theorem Next.hasFailed {others : Interference} (h : Next others c c') (hfailed : c.run.HasFailed) :
    c'.run.HasFailed := by
  cases h with
  | @lead w w' r r' h =>
    unfold Run.HasFailed at hfailed
    split at hfailed
    · rename_i e hc
      replace hc : r.control = .aborting e := hc
      rw [Run.lead, hc] at h
      obtain rfl := congrArg Prod.snd (Option.some.inj h)
      exact trivial
    · rename_i e hc
      replace hc : r.control = .done (.error e) := hc
      rw [Run.lead, hc] at h
      cases h
    · exact hfailed.elim
  | step j h =>
    obtain ⟨k, since, steps, _, _, _, _, _, _, hc, -⟩ := Run.stepMove_eq h
    simp [Run.HasFailed, hc] at hfailed
  | cancel => exact hfailed
  | others h => exact hfailed

/-- Whatever happens in a scene changes the view of a step in one of few
ways. -/
theorem Next.view (h : Next (World.LeavesWork a) c c') (hfresh : a.IsFresh)
    (hholds : loaded.Holds a) (hag : c.Agrees loaded a) (hp : a.Has p)
    (hok : ¬ c'.run.HasFailed) : (c.view a p).Next p c.run.isCancelled (c'.view a p) := by
  have hgoes : ¬ c.run.HasFailed := fun hfailed => hok (h.hasFailed hfailed)
  obtain ⟨hact, stored, hget, hrec⟩ := hag.shows
  have hjournal : c.run.journal = c.run.journal ++ [] := (List.append_nil _).symm
  cases h with
  | lead h => exact (Run.led_of_lead h).view hfresh hact hget hrec hp hok
  | step j h =>
    exact view_of_stepMove h hact hag.sound hholds (fun q g hq hg => hag.view hq hg hgoes) hp
  | cancel => exact .stay .refl hjournal (by simp) rfl fun _ => rfl
  | others h =>
    refine .stay (h.works hag.sound _ hp.mem_generations) hjournal (by simp) rfl fun _ => ?_
    have hstore := h.1
    rw [World.KeepsAct] at hstore
    simp only [Scene.view, hstore]

theorem Next.isCancelled {others : Interference} (h : Next others c c')
    (hcancelled : c.run.isCancelled) : c'.run.isCancelled := by
  cases h with
  | lead h => rwa [(Run.led_of_lead h).continues.isCancelled_eq]
  | step j h =>
    obtain ⟨_, _, _, _, _, _, _, _, _, -, -, -, -, -, -, rfl⟩ := Run.stepMove_eq h
    exact hcancelled
  | cancel => rfl
  | others h => exact hcancelled

theorem Reaches.hasFailed {others : Interference} (h : Reaches others c c')
    (hok : ¬ c'.run.HasFailed) : ¬ c.run.HasFailed :=
  fun hfailed => hok (h.induct hfailed fun _ _ hd => hd.hasFailed)

/-- What is kept throughout holds in the end, if the run has not failed. In a
run that was cancelled already, each change is one of a cancelled run. -/
theorem Reaches.induct_of_ok {P : Scene → Prop} (h : Reaches (World.LeavesWork a) c c')
    (hfresh : a.IsFresh) (hholds : loaded.Holds a) (hag : c.Agrees loaded a)
    (hok : ¬ c'.run.HasFailed) (hP : P c)
    (hnext : ∀ d d', Next (World.LeavesWork a) d d' → d.Agrees loaded a → ¬ d.run.HasFailed →
      ¬ d'.run.HasFailed → (c.run.isCancelled → d.run.isCancelled) → P d → P d') :
    c'.Agrees loaded a ∧ P c' := by
  have hall : c'.Agrees loaded a ∧ (c.run.isCancelled → c'.run.isCancelled) ∧
      (¬ c'.run.HasFailed → P c') := by
    refine h.induct (P := fun d => d.Agrees loaded a ∧ (c.run.isCancelled → d.run.isCancelled) ∧
      (¬ d.run.HasFailed → P d)) ⟨hag, id, fun _ => hP⟩ ?_
    rintro d d' hd ⟨hag, hcancelled, hP⟩
    refine ⟨hd.agrees hfresh hholds hag, fun hc => hd.isCancelled (hcancelled hc), fun hok => ?_⟩
    have hgoes : ¬ d.run.HasFailed := fun hfailed => hok (hd.hasFailed hfailed)
    exact hnext d d' hd hag hgoes hok hcancelled (hP hgoes)
  exact ⟨hall.1, hall.2.2 hok⟩

/-- **What is kept of the view of a step** holds of it in the end. -/
theorem Reaches.view_induct {I : StepView → Prop} (h : Reaches (World.LeavesWork a) c c')
    (hfresh : a.IsFresh) (hholds : loaded.Holds a) (hag : c.Agrees loaded a) (hp : a.Has p)
    (hg : loaded.get? p.step.generation = some g) (hok : ¬ c'.run.HasFailed)
    (hI : I (c.view a p))
    (hnext : ∀ isCancelled v v', (c.run.isCancelled → isCancelled = true) → v.Agrees g p →
      v.Next p isCancelled v' → I v → I v') : I (c'.view a p) :=
  (h.induct_of_ok (P := fun d => I (d.view a p)) hfresh hholds hag hok hI
    fun _ _ hd hag hgoes hok hcancelled =>
      hnext _ _ _ hcancelled (hag.view hp hg hgoes) (hd.view hfresh hholds hag hp hok)).2

end Scene

end Workflow
