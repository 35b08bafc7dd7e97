/-
Workflow.Proofs.Engine.Announcement — what a run has published when it ends.

An observer that publishes events makes one event of every notice but
`actComplete`. So a run that comes to an outcome has published, as its last
event, how its act ended; a run that cannot go on ends its act in the store
and tells the observer nothing that is published.

* `Run.Announces` — what has been published wherever a run stands, whatever
  others do.
* `announced_end` — what has been published once it is over, for both ways
  of ending.
-/
import Workflow.Proofs.Engine.FinalRecord

namespace Workflow

/-! ## Events of a run -/

/-- Whether an event is about the act as a whole. -/
def Event.isOfAct : Event → Bool
  | .act _ => true
  | .sequence _ | .step _ | .diagnostic _ => false

/-- The event that an entry publishes, if there is one. -/
def Entry.event? (act : ActId) : Entry → Option Event
  | .notice n => n.event? act
  | .batch .. | .set .. | .start .. | .stop .. => none

/-- All that a run has published, oldest first, if nothing was refused. -/
def Run.events (r : Run) : List Event := r.journal.filterMap (·.event? r.act.id)

/-- Nothing about the act as a whole is among what the entries publish. -/
def IsAside (act : ActId) (entries : List Entry) : Prop :=
  ∀ e ∈ entries.filterMap (·.event? act), e.isOfAct = false

theorem isAside_batch (act : ActId) (patches : List Patch) (error : Option PatchError) :
    IsAside act [.batch patches error] :=
  fun _ h => absurd h List.not_mem_nil

/-- A notice that is no event of the act's own is an aside. -/
theorem isAside_notice {act : ActId} {n : Notice}
    (h : ∀ e, n.event? act = some e → e.isOfAct = false) : IsAside act [.notice n] := by
  intro e he
  simp only [List.mem_filterMap, List.mem_singleton, exists_eq_left] at he
  exact h e he

theorem IsAside.append {act : ActId} {es fs : List Entry} (h : IsAside act es)
    (h' : IsAside act fs) : IsAside act (es ++ fs) := by
  intro e he
  rw [List.filterMap_append, List.mem_append] at he
  exact he.elim (h e) (h' e)

/-- Skipped sequences tell nothing of the act. -/
theorem isAside_skips (act : ActId) (skipped : List Sequence) :
    IsAside act (skipped.map fun s => .notice (.sequenceSkip s)) := by
  intro e he
  obtain ⟨entry, hentry, he⟩ := List.mem_filterMap.mp he
  obtain ⟨s, -, rfl⟩ := List.mem_map.mp hentry
  cases he
  rfl

/-- A step publishes about itself. -/
theorem Activity.Advanced.isAside {x x' : Executor} {clock : Nat} {isCancelled : Bool}
    {p : PlacedStep} {b b' : Activity} {entries : List Entry}
    (h : Advanced x clock isCancelled p b x' b' entries) (act : ActId) : IsAside act entries := by
  have hnotice : ∀ n : Notice, n.isOfStep → IsAside act [.notice n] := fun n hn =>
    isAside_notice fun e he => by cases n <;> cases hn <;> cases he <;> rfl
  have hcall : ∀ entry : Entry, entry.event? act = none → IsAside act [entry] := by
    intro entry hentry e he
    simp [hentry] at he
  cases h with
  | unqueued => exact fun _ h => absurd h List.not_mem_nil
  | «break» => exact fun _ h => absurd h List.not_mem_nil
  | announce => exact (hcall _ rfl).append (hnotice _ rfl)
  | settle hr =>
    refine IsAside.append ?_ (hnotice _ rfl)
    rcases recordFailure_eq hr with ⟨-, rfl⟩ | ⟨failed, -, rfl⟩
    · exact fun _ h => absurd h List.not_mem_nil
    · exact hcall _ rfl
  | unset => exact hcall _ rfl
  | unstarted => exact hcall _ rfl
  | start => exact hcall _ rfl
  | stop => exact hcall _ rfl
  | _ => exact hnotice _ rfl

/-! ## While a run goes on

The act is announced with its first batch. From then on nothing is said of it
until the run is over. -/

namespace Run

variable {w w' : World} {r r' : Run}

theorem events_record (r : Run) (es : List Entry) :
    (r.record es).events = r.events ++ es.filterMap (·.event? r.act.id) :=
  List.filterMap_append

theorem events_note (r : Run) (n : Notice) :
    (r.note n).events = r.events ++ (n.event? r.act.id).toList := by
  rw [note, events_record]
  cases n <;> rfl

theorem events_goto (r : Run) (c : Control) : (r.goto c).events = r.events := rfl

/-- The start of the act was published, and nothing else about the act. -/
def HasBegun (r : Run) : Prop :=
  ∃ middle, r.events = .actStarted r.act :: middle ∧ ∀ e ∈ middle, e.isOfAct = false

/-- The start and the end of the act were published, with everything else in
between. -/
def HasAnnounced (r : Run) (o : Outcome) : Prop :=
  ∃ middle, r.events = .actStarted r.act :: middle ++
      [.actFinished r.act.id o.status (UInt64.ofNat o.wallClockMs)] ∧
    ∀ e ∈ middle, e.isOfAct = false

/-- What has been published of a run, wherever it stands. -/
def Announces (r : Run) : Prop :=
  match r.control with
  | .ready => r.events = []
  | .turn _ | .opening .. | .running .. | .closed .. => r.HasBegun
  | .winding status _ => r.HasBegun ∧ status.isTerminal
  | .done (.ok o) => r.HasAnnounced o ∧ o.status.isTerminal
  | .aborting _ | .done (.error _) => r.events = [] ∨ r.HasBegun

/-- Asides leave a run that has begun as it is. -/
theorem HasBegun.record (h : r.HasBegun) {es : List Entry} (hes : IsAside r.act.id es) :
    (r.record es).HasBegun := by
  obtain ⟨middle, hevents, hmiddle⟩ := h
  refine ⟨middle ++ es.filterMap (·.event? r.act.id), ?_, fun e he => ?_⟩
  · rw [events_record, hevents]
    rfl
  · exact (List.mem_append.mp he).elim (hmiddle e) (hes e)

/-- `actComplete` publishes nothing, `actFinish` the end. -/
theorem HasBegun.finish (h : r.HasBegun) (o : Outcome) (c : Control) :
    (((r.note (.actComplete o.hasError o.wallClockMs)).note (.actFinish o)).goto c).HasAnnounced
      o := by
  obtain ⟨middle, hevents, hmiddle⟩ := h
  refine ⟨middle, ?_, hmiddle⟩
  rw [events_goto, events_note, events_note, hevents]
  exact congrArg (· ++ [_]) (List.append_nil _)

/-- A batch that a run sends while it goes on. -/
theorem announces_of_send {patches : List Patch} {next : Run → Run}
    (h : send w r patches next = (w', r')) (hbegun : r.HasBegun)
    (hnext : (r.record [.batch patches none]).HasBegun →
      (next (r.record [.batch patches none])).Announces) : r'.Announces := by
  rcases send_eq h with ⟨store, -, rfl, rfl⟩ | ⟨e, -, rfl, rfl⟩
  · exact hnext (hbegun.record (isAside_batch _ _ _))
  · exact Or.inr (hbegun.record (isAside_batch _ _ _))

/-- A move of the run itself announces the act when it begins and when it ends,
and says nothing of it in between. -/
theorem Led.announces (h : Led w r w' r') (hr : r.Announces) : r'.Announces := by
  cases h with
  | refuse hc hs =>
    simp only [Announces, hc] at hr
    exact Or.inl hr
  | begin hc hs hsend =>
    simp only [Announces, hc] at hr
    have hevents : ∀ error, (r.record [.batch Batch.begin error]).events = [] := fun error => by
      rw [events_record, hr]
      rfl
    rcases send_eq hsend with ⟨store, -, rfl, rfl⟩ | ⟨e, -, rfl, rfl⟩
    · refine ⟨[], ?_, fun e he => absurd he List.not_mem_nil⟩
      exact (events_record _ [.notice (.actStart r.act)]).trans (congrArg (· ++ _) (hevents none))
    · exact Or.inl (hevents _)
  | skip hc hk hi =>
    simp only [Announces, hc] at hr
    exact ⟨hr, rfl⟩
  | complete hc hk =>
    simp only [Announces, hc] at hr
    exact ⟨hr, rfl⟩
  | missing hc hs hstep hg =>
    simp only [Announces, hc] at hr
    exact Or.inr hr
  | unexpected hc hs hstep hg hstatus =>
    simp only [Announces, hc] at hr
    exact Or.inr hr
  | «open» hc hs hall hsend =>
    simp only [Announces, hc] at hr
    refine announces_of_send hsend hr fun hbegun => ?_
    exact hbegun.record (isAside_notice fun e he => by cases he; rfl)
  | close hc hs hreports hsend =>
    simp only [Announces, hc] at hr
    refine announces_of_send hsend hr fun hbegun => ?_
    exact hbegun.record (isAside_notice fun e he => by cases he; rfl)
  | @judge k tally hc =>
    simp only [Announces, hc] at hr
    simp only [Announces, goto_control]
    rcases r.judge_eq k tally with ⟨hj, -⟩ | ⟨hj, -⟩ | ⟨hj, -⟩
    · rw [hj]
      exact ⟨hr, rfl⟩
    · rw [hj]
      exact ⟨hr, rfl⟩
    · rw [hj]
      exact hr
  | finish hc ho hsend =>
    simp only [Announces, hc] at hr
    subst ho
    refine announces_of_send hsend (hr.1.record (isAside_skips _ _)) fun hbegun => ?_
    exact ⟨hbegun.finish _ _, hr.2⟩
  | @abort e w' q hc hsend =>
    simp only [Announces, hc] at hr
    -- neither the batch nor `actComplete` publishes anything
    have hq : (q.note (.actComplete true (elapsed r.startedAt w.clock))).events = r.events ∧
        q.act = r.act := by
      rcases send_eq hsend with ⟨store, -, -, rfl⟩ | ⟨e, -, -, rfl⟩ <;>
        exact ⟨by simp [events_note, events_goto, events_record, Entry.event?, Notice.event?], rfl⟩
    obtain ⟨hevents, hact⟩ := hq
    refine hr.imp (fun hr => hevents.trans hr) fun hr => ?_
    obtain ⟨middle, hr, hmiddle⟩ := hr
    exact ⟨middle, by rw [events_goto, hevents, hr, ← hact]; rfl, hmiddle⟩
  | _ hc =>
    simp only [Announces, hc] at hr
    exact hr

/-- What a step tells is an aside. -/
theorem announces_of_stepMove {j : Nat} (h : r.stepMove w j = some (w', r'))
    (hr : r.Announces) : r'.Announces := by
  obtain ⟨k, since, steps, s, step, b, x, b', entries, hc, -, -, -, hadvance, -, rfl⟩ :=
    stepMove_eq h
  simp only [Announces, hc] at hr
  exact hr.record ((Activity.advanced_of_advance hadvance).isAside _)

/-- A run with a result is over. -/
theorem done_of_result? {result : Except EngineError Outcome} (h : r.result? = some result) :
    r.control = .done result := by
  unfold result? at h
  split at h
  · rename_i hc
    rw [hc, Option.some.inj h]
  · cases h

/-- An outcome is given back once its batch is accepted, and no other way. -/
theorem Led.stored_of_done {o : Outcome} (h : Led w r w' r') (hdone : r'.control = .done (.ok o)) :
    ∃ stored, w'.store.get? r.act.id = some stored ∧ stored.status = o.status := by
  -- a refused batch aborts the run, so it gives back no outcome yet
  have hsent : ∀ {patches : List Patch} {next : Run → Run} {q : Run},
      send w q patches next = (w', r') → ∃ store, w.store.apply q.act.id patches = .ok store ∧
        w' = { w with store } ∧ r' = next (q.record [.batch patches none]) := by
    intro patches next q hsend
    refine (send_eq hsend).resolve_right ?_
    rintro ⟨e, -, -, rfl⟩
    cases hdone
  cases h with
  | begin hc hs hsend =>
    obtain ⟨store, -, -, rfl⟩ := hsent hsend
    cases hdone
  | «open» hc hs hall hsend =>
    obtain ⟨store, -, -, rfl⟩ := hsent hsend
    cases hdone
  | close hc hs hreports hsend =>
    obtain ⟨store, -, -, rfl⟩ := hsent hsend
    cases hdone
  | @judge k tally hc =>
    rw [goto_control] at hdone
    rcases r.judge_eq k tally with ⟨hj, -⟩ | ⟨hj, -⟩ | ⟨hj, -⟩ <;> rw [hj] at hdone <;> cases hdone
  | finish hc ho hsend =>
    obtain ⟨store, happly, rfl, rfl⟩ := hsent hsend
    cases hdone
    obtain ⟨old, new, -, -, hupdate, hnew, -⟩ := Store.apply_eq happly
    obtain rfl := Except.ok.inj (hupdate.symm.trans (Act.takes_final old _ _).update_eq)
    exact ⟨_, hnew, by rw [ho]; rfl⟩
  -- no other move ends a run
  | _ => cases hdone

end Run

/-! ## When a run ends -/

namespace Scene

variable {others : Interference} {c c' : Scene} {w : World} {a : Act} {isCancelled : Bool}

/-- A run keeps its act. -/
theorem Next.act_eq (h : Next others c c') : c'.run.act = c.run.act := by
  cases h with
  | lead h => exact (Run.led_of_lead h).continues.act_eq
  | step j h =>
    obtain ⟨_, _, _, _, _, _, _, _, _, -, -, -, -, -, -, rfl⟩ := Run.stepMove_eq h
    rfl
  | cancel => rfl
  | others h => rfl

/-- Whatever happens, the act was announced as far as the run has come. -/
theorem Next.announces (h : Next others c c') (hr : c.run.Announces) : c'.run.Announces := by
  cases h with
  | lead h => exact (Run.led_of_lead h).announces hr
  | step j h => exact Run.announces_of_stepMove h hr
  | cancel => exact hr
  | others h => exact hr

/-- When a run comes to an outcome, the stored status is the one it gives
back. -/
theorem Next.stored_of_done {o : Outcome} (h : Next others c c') (hruns : c.run.result? = none)
    (hdone : c'.run.control = .done (.ok o)) :
    ∃ stored, c'.world.store.get? c.run.act.id = some stored ∧ stored.status = o.status := by
  have hover : c'.run.result? = some (.ok o) := by rw [Run.result?, hdone]
  cases h with
  | lead h => exact (Run.led_of_lead h).stored_of_done hdone
  | step j h =>
    obtain ⟨_, _, _, _, _, _, _, _, _, -, -, -, -, -, -, rfl⟩ := Run.stepMove_eq h
    cases hdone
  | cancel => cases hruns.symm.trans hover
  | others h => cases hruns.symm.trans hover

/-- **The end of an act on the bus.** A run that comes to an outcome has
published the start of its act first and the end last, as the status that is
stored then, and nothing else about the act. A run that ends with an error
has published no more about the act than its start. -/
theorem announced_end {result : Except EngineError Outcome}
    (hreach : Reaches others (begin w a isCancelled) c) (hnext : Next others c c')
    (hruns : c.run.result? = none) (hends : c'.run.result? = some result) :
    match result with
    | .ok o => ∃ stored middle, c'.world.store.get? a.id = some stored ∧ stored.isTerminal ∧
        c'.run.events = .actStarted a :: middle ++
          [.actFinished a.id stored.status (UInt64.ofNat o.wallClockMs)] ∧
        ∀ e ∈ middle, e.isOfAct = false
    | .error _ => c'.run.events = [] ∨
        ∃ middle, c'.run.events = .actStarted a :: middle ∧ ∀ e ∈ middle, e.isOfAct = false := by
  obtain ⟨hact, hr⟩ := hreach.induct (P := fun d => d.run.act = a ∧ d.run.Announces) ⟨rfl, rfl⟩
    fun d d' hd h => ⟨hd.act_eq.trans h.1, hd.announces h.2⟩
  have hact' := hnext.act_eq.trans hact
  have hr' := hnext.announces hr
  have hcontrol := Run.done_of_result? hends
  simp only [Run.Announces, hcontrol] at hr'
  cases result with
  | error e => exact hact' ▸ hr'
  | ok o =>
    obtain ⟨⟨middle, hevents, hmiddle⟩, hterminal⟩ := hr'
    obtain ⟨stored, hstored, hstatus⟩ := hnext.stored_of_done hruns hcontrol
    rw [hact] at hstored
    rw [hact', ← hstatus] at hevents
    exact ⟨stored, middle, hstored, (congrArg Status.isTerminal hstatus).trans hterminal, hevents,
      hmiddle⟩

theorem sample_announced_end : ∃ c c' o, Reaches World.AnyDeed sampleOpening c ∧
    Next World.AnyDeed c c' ∧ c.run.result? = none ∧ c'.run.result? = some (.ok o) ∧
    ∃ stored middle, c'.world.store.get? Sample.blueprint.act.id = some stored ∧
      stored.isTerminal ∧ c'.run.events = .actStarted Sample.blueprint.act :: middle ++
        [.actFinished Sample.blueprint.act.id stored.status (UInt64.ofNat o.wallClockMs)] ∧
      ∀ e ∈ middle, e.isOfAct = false := by
  have hplayed : ((sampleOpening.perform sampleFailure.dropLast).bind fun c =>
      (c.happen .lead).bind fun c' => c'.run.outcome?.map fun o =>
        (c.run.result?.isNone, o)) =
      some (true, ⟨Sample.blueprint.act.id, .failed, 2, 2, 0, 1, 0, 1⟩) := by
    decide +kernel
  simp only [Option.bind_eq_some_iff, Option.map_eq_some_iff, Prod.mk.injEq,
    Option.isNone_iff_eq_none] at hplayed
  obtain ⟨c, hc, c', hc', o, ho, hruns, -⟩ := hplayed
  have hreach : Reaches World.AnyDeed sampleOpening c :=
    reaches_of_perform (fun d _ w => ⟨d, rfl⟩) hc
  have hnext : Next World.AnyDeed c c' := next_of_happen (fun d _ w => ⟨d, rfl⟩) hc'
  have hends : c'.run.result? = some (.ok o) := by rw [Run.result?, Run.done_of_outcome? ho]
  exact ⟨c, c', o, hreach, hnext, hruns, hends, announced_end hreach hnext hruns hends⟩

/-- The sample's act is stored, but its generations are not there. -/
def sampleUnloaded : Scene :=
  begin { World.fresh (.workers Operation.all) with
    store := Store.empty.insert Sample.blueprint.act } Sample.blueprint.act false

/-- A run that misses a generation ends its act in the store, and no event
says so. -/
theorem end_unannounced : ¬ ∀ (c c' : Scene) (stored : Act),
    Reaches World.AnyDeed sampleUnloaded c → Next World.AnyDeed c c' →
    c.run.result? = none → c'.run.result?.isSome →
    c'.world.store.get? Sample.blueprint.act.id = some stored →
    .actStarted Sample.blueprint.act ∈ c'.run.events →
    ∃ before ms, c'.run.events =
      before ++ [.actFinished Sample.blueprint.act.id stored.status ms] := by
  intro hends
  have hplayed : ((sampleUnloaded.perform [.lead, .lead, .lead]).bind fun c =>
      (c.happen .lead).bind fun c' =>
        (c'.world.store.get? Sample.blueprint.act.id).map fun stored =>
          (c.run.result?.isNone, c'.run.result?.isSome, stored.status, c'.run.events)) =
      some (true, true, .failed, [.actStarted Sample.blueprint.act]) := by
    decide +kernel
  simp only [Option.bind_eq_some_iff, Option.map_eq_some_iff, Prod.mk.injEq,
    Option.isNone_iff_eq_none] at hplayed
  obtain ⟨c, hc, c', hc', stored, hstored, hruns, hover, hfailed, hevents⟩ := hplayed
  obtain ⟨before, ms, hlast⟩ := hends c c' stored
    (reaches_of_perform (fun d _ w => ⟨d, rfl⟩) hc) (next_of_happen (fun d _ w => ⟨d, rfl⟩) hc')
    hruns hover hstored (hevents ▸ List.mem_singleton_self _)
  rw [hevents, hfailed] at hlast
  have hsame := congrArg List.getLast? hlast
  rw [List.getLast?_concat] at hsame
  cases hsame

end Scene

end Workflow
