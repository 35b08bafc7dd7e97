/-
Workflow.Proofs.Engine.Lifecycle — the status of an act over repeated runs.

A stored act is to go from queued to running, and from there to one status
that stays. A run keeps to this whatever copy of the act it was given, as
long as it does not set out on an act that is over: it looks at the status
of its copy only, and writes to the stored act.

* `Status.Moves` — one status after another.
* `Run.Keeps` — what the stored act is like at each point of a run.
* `Scene.Called` — runs are called, one after the other, and others are busy
  elsewhere. `status_lifecycle` is about all that can happen then.
* `status_rewound` — a run of an old copy takes up an act that is over.
-/
import Workflow.Proofs.Act.Frame
import Workflow.Proofs.Engine.FinalRecord

namespace Workflow

/-- One status comes after another, or stays. -/
inductive Status.Moves : Status → Status → Prop
  | stay (s : Status) : Moves s s
  | start : Moves .queued .running
  | finish {s : Status} (h : s.isTerminal) : Moves .running s

/-! ## Batches that leave the status alone -/

namespace Batch

variable {k : Nat} {s : Sequence} {p : Patch}

/-- The patch is one of a field other than the status of the act. -/
def IsElsewhere (p : Patch) : Prop := ∃ f : Field, p.path = f.path ∧ f ≠ .status

/-- Opening a sequence does not touch the status of the act. -/
theorem isElsewhere_of_opening (hp : p ∈ opening k s) : IsElsewhere p := by
  simp only [opening, List.mem_append, List.mem_cons, List.not_mem_nil, or_false,
    List.mem_map] at hp
  rcases hp with (rfl | rfl | rfl) | ⟨i, -, rfl⟩
  · exact ⟨.stepsQueued, rfl, by simp⟩
  · exact ⟨.stepsInProgress, rfl, by simp⟩
  · exact ⟨.sequenceStatus k, rfl, by simp⟩
  · exact ⟨.stepStatus k i, rfl, by simp⟩

theorem isElsewhere_of_stepEnds {i : Nat} {reports : List StepReport}
    (hp : p ∈ stepEnds k i reports) : IsElsewhere p := by
  induction reports generalizing i with
  | nil => cases hp
  | cons r rest ih =>
    rcases List.mem_append.mp hp with hfirst | hrest
    · simp only [stepEnd, List.mem_cons, List.not_mem_nil, or_false] at hfirst
      rcases hfirst with rfl | rfl
      · exact ⟨.stepStatus k i, rfl, by simp⟩
      · exact ⟨.stepDuration k i, rfl, by simp⟩
    · exact ih hrest

theorem isElsewhere_of_unlessZero {f : Field} {n : Nat} (hf : f ≠ .status)
    (hp : p ∈ unlessZero n f.increment) : IsElsewhere p := by
  unfold unlessZero at hp
  split at hp
  · cases hp
  · obtain rfl := List.mem_singleton.mp hp
    exact ⟨f, rfl, hf⟩

theorem isElsewhere_of_closing {reports : List StepReport} {ms : Nat}
    (hp : p ∈ closing k s reports ms) : IsElsewhere p := by
  simp only [closing, List.mem_append, List.mem_cons, List.not_mem_nil, or_false] at hp
  rcases hp with ((((hends | rfl) | hcompleted) | hfailed) | rfl | rfl | rfl) | hnotes
  · exact isElsewhere_of_stepEnds hends
  · exact ⟨.stepsInProgress, rfl, by simp⟩
  · exact isElsewhere_of_unlessZero (by simp) hcompleted
  · exact isElsewhere_of_unlessZero (by simp) hfailed
  · exact ⟨.totalTask, rfl, by simp⟩
  · exact ⟨.sequenceStatus k, rfl, by simp⟩
  · exact ⟨.sequenceDuration k, rfl, by simp⟩
  · unfold annotate at hnotes
    split at hnotes
    · cases hnotes
    · obtain rfl := List.mem_singleton.mp hnotes
      exact ⟨.annotations, rfl, by simp⟩

end Batch

/-! ## One run

A run sets the status of its act twice, when it begins and when it ends. -/

namespace Run

variable {w w' : World} {r r' : Run} {a b : Act} {isClosed : Bool}

/-- What the stored act is like while a run goes on. A run that could not
even begin found the store closed. -/
def Keeps (r : Run) (a : Act) (isClosed : Bool) : Prop :=
  match r.control with
  | .ready => r.act.status = .queued → a.isTerminal = false
  | .turn _ | .opening _ _ | .running _ _ _ | .closed _ _ => a.status = .running
  | .winding status _ => a.status = .running ∧ status.isTerminal
  | .aborting _ => a.status = .running ∨ isClosed
  | .done _ => True

/-- The stored act has gone on as it should. -/
def GoesOn (a b : Act) : Prop := a.status.Moves b.status ∧ (a.isTerminal → b = a)

theorem GoesOn.refl (a : Act) : GoesOn a a := ⟨.stay _, fun _ => rfl⟩

theorem isTerminal_of_running (h : a.status = .running) : a.isTerminal = false := by
  simp [Act.isTerminal, h, Status.isTerminal]

theorem goesOn_of_running (h : a.status = .running) (hmoves : Status.Moves .running b.status) :
    GoesOn a b :=
  ⟨h ▸ hmoves, fun hterminal => by simp [isTerminal_of_running h] at hterminal⟩

/-- A batch of a run on the stored act: it is accepted and does something
good, or it is refused and nothing happens. -/
theorem keeps_of_send {patches : List Patch} {next : Run → Run}
    (h : send w r patches next = (w', r')) (hget : w.store.get? r.act.id = some a)
    (haccepted : ∀ b, a.update patches = .ok b →
      GoesOn a b ∧ (next (r.record [.batch patches none])).Keeps b false)
    (hrefused : w.store.isClosed ∨ (∀ b, a.update patches ≠ .ok b) →
      a.status = .running ∨ w.store.isClosed) :
    ∃ b, w'.store.get? r.act.id = some b ∧ GoesOn a b ∧ r'.Keeps b w'.store.isClosed := by
  rcases send_eq h with ⟨store, happly, rfl, rfl⟩ | ⟨e, happly, rfl, rfl⟩
  · obtain ⟨old, new, hopen, hold, hupdate, hnew, hopen'⟩ := Store.apply_eq happly
    obtain rfl := Option.some.inj (hget.symm.trans hold)
    obtain ⟨hgoes, hkeeps⟩ := haccepted new hupdate
    refine ⟨new, hnew, hgoes, ?_⟩
    rw [hopen']
    exact hkeeps
  · refine ⟨a, hget, .refl a, hrefused ?_⟩
    by_cases hclosed : w'.store.isClosed
    · exact Or.inl hclosed
    · refine Or.inr fun b hb => ?_
      obtain ⟨s', hs'⟩ := Store.exists_apply (by simpa using hclosed) hget hb
      rw [happly] at hs'
      cases hs'

/-- A move of the run itself moves the status on, if at all, in the order of
statuses. -/
theorem Led.keeps (h : Led w r w' r') (hget : w.store.get? r.act.id = some a)
    (hkeeps : r.Keeps a w.store.isClosed) :
    ∃ b, w'.store.get? r.act.id = some b ∧ GoesOn a b ∧ r'.Keeps b w'.store.isClosed := by
  cases h with
  | refuse hc hs => exact ⟨a, hget, .refl a, trivial⟩
  | begin hc hs hsend =>
    simp only [Keeps, hc] at hkeeps
    have hopen := hkeeps hs
    have hupdate := (Act.takes_begin a).update_eq
    refine keeps_of_send hsend hget (fun b hb => ?_) ?_
    · obtain rfl := Except.ok.inj (hupdate.symm.trans hb)
      refine ⟨⟨?_, fun hterminal => by simp [hopen] at hterminal⟩, rfl⟩
      -- an act that is not over is queued or runs already
      cases hstatus : a.status with
      | queued => exact .start
      | running => exact .stay _
      | completed | failed | cancelled =>
        simp [Act.isTerminal, hstatus, Status.isTerminal] at hopen
    · rintro (hclosed | hrefused)
      · exact Or.inr hclosed
      · exact absurd hupdate (hrefused _)
  | skip hc hk hi =>
    simp only [Keeps, hc] at hkeeps
    exact ⟨a, hget, .refl a, hkeeps, rfl⟩
  | enter hc hk hi =>
    simp only [Keeps, hc] at hkeeps
    exact ⟨a, hget, .refl a, hkeeps⟩
  | complete hc hk =>
    simp only [Keeps, hc] at hkeeps
    exact ⟨a, hget, .refl a, hkeeps, rfl⟩
  | missing hc hs hstep hg =>
    simp only [Keeps, hc] at hkeeps
    exact ⟨a, hget, .refl a, Or.inl hkeeps⟩
  | unexpected hc hs hstep hg hstatus =>
    simp only [Keeps, hc] at hkeeps
    exact ⟨a, hget, .refl a, Or.inl hkeeps⟩
  | found hc hs hstep hg hstatus =>
    simp only [Keeps, hc] at hkeeps
    exact ⟨a, hget, .refl a, hkeeps⟩
  | «open» hc hs hall hsend =>
    simp only [Keeps, hc] at hkeeps
    refine keeps_of_send hsend hget (fun b hb => ?_) fun _ => Or.inl hkeeps
    have hsame := Act.status_of_update hb fun p hp => Batch.isElsewhere_of_opening hp
    have hrunning := hsame.trans hkeeps
    exact ⟨goesOn_of_running hkeeps (hrunning ▸ .stay _), hrunning⟩
  | close hc hs hreports hsend =>
    simp only [Keeps, hc] at hkeeps
    refine keeps_of_send hsend hget (fun b hb => ?_) fun _ => Or.inl hkeeps
    have hsame := Act.status_of_update hb fun p hp => Batch.isElsewhere_of_closing hp
    have hrunning := hsame.trans hkeeps
    exact ⟨goesOn_of_running hkeeps (hrunning ▸ .stay _), hrunning⟩
  | @judge k tally hc =>
    simp only [Keeps, hc] at hkeeps
    refine ⟨a, hget, .refl a, ?_⟩
    simp only [Keeps, goto_control]
    rcases r.judge_eq k tally with ⟨hj, -⟩ | ⟨hj, -⟩ | ⟨hj, -⟩
    · rw [hj]
      exact ⟨hkeeps, rfl⟩
    · rw [hj]
      exact ⟨hkeeps, rfl⟩
    · rw [hj]
      exact hkeeps
  | @finish status k outcome w' r' hc ho hsend =>
    simp only [Keeps, hc] at hkeeps
    obtain ⟨hrunning, hterminal⟩ := hkeeps
    refine keeps_of_send (r := r.record _) hsend hget (fun b hb => ?_) fun _ => Or.inl hrunning
    obtain rfl := Except.ok.inj ((Act.takes_final a status _).update_eq.symm.trans hb)
    exact ⟨goesOn_of_running hrunning (.finish hterminal), trivial⟩
  | @abort e w' r' hc hsend =>
    simp only [Keeps, hc] at hkeeps
    have hupdate := (Act.takes_abort a e (elapsed r.startedAt w.clock)).update_eq
    rcases send_eq hsend with ⟨store, happly, rfl, rfl⟩ | ⟨e, happly, rfl, rfl⟩
    · obtain ⟨old, new, hopen, hold, hnew, hstored, -⟩ := Store.apply_eq happly
      obtain rfl := Option.some.inj (hget.symm.trans hold)
      obtain rfl := Except.ok.inj (hupdate.symm.trans hnew)
      have hrunning : a.status = .running := hkeeps.resolve_right (by simp [hopen])
      exact ⟨_, hstored, goesOn_of_running hrunning (.finish rfl), trivial⟩
    · exact ⟨a, hget, .refl a, trivial⟩

/-- Closing the store takes nothing back. -/
theorem Keeps.of_closed {isClosed' : Bool} (h : r.Keeps a isClosed)
    (hclosed : isClosed → isClosed') : r.Keeps a isClosed' := by
  unfold Keeps at h ⊢
  cases hc : r.control with
  | aborting e =>
    simp only [hc] at h ⊢
    exact h.imp_right hclosed
  | ready | winding =>
    simp only [hc] at h ⊢
    exact h
  | _ => simp_all only

end Run

/-! ## Runs after each other

A run that is called with a copy of the act does not look at the stored one.
So the status only moves on if no run is called with an older copy. -/

/-- Others leave a stored act alone, and a closed store closed. -/
def World.Spares (id : ActId) (w w' : World) : Prop :=
  w.KeepsAct id w' ∧ (w.store.isClosed → w'.store.isClosed)

/-- A copy of an act may be run: it is not queued any more itself, or what is
stored is not over. -/
def World.Admits (w : World) (copy : Act) : Prop :=
  copy.status = .queued → ∀ a, w.store.get? copy.id = some a → a.isTerminal = false

namespace Scene

variable {c c' : Scene} {id : ActId} {a : Act}

/-- The scene changes, or a run is called: of any copy of the act, whatever
has become of the run before. -/
inductive Called (id : ActId) : Scene → Scene → Prop
  | next {c c' : Scene} (h : Next (World.Spares id) c c') : Called id c c'
  | call {c : Scene} (copy : Act) (isCancelled : Bool) (hid : copy.id = id)
    (hcopy : c.world.Admits copy) : Called id c (begin c.world copy isCancelled)

theorem called_of_reaches (h : Reaches (World.Spares id) c c') :
    Relation.ReflTransGen (Called id) c c' :=
  h.lift (fun d => d) fun _ _ hnext => Called.next hnext

/-- The run is one of the act, which is stored as it should be. -/
def Keeps (id : ActId) (c : Scene) (a : Act) : Prop :=
  c.run.act.id = id ∧ c.world.store.get? id = some a ∧ c.run.Keeps a c.world.store.isClosed

theorem keeps_begin {w : World} {copy : Act} (hid : copy.id = id) (hget : w.store.get? id = some a)
    (hcopy : w.Admits copy) (isCancelled : Bool) : (begin w copy isCancelled).Keeps id a :=
  ⟨hid, hget, fun hqueued => hcopy hqueued a (hid ▸ hget)⟩

/-- One thing that happens. -/
theorem Called.keeps (h : Called id c c') (hkeeps : c.Keeps id a) :
    ∃ b, c'.Keeps id b ∧ Run.GoesOn a b := by
  obtain ⟨rfl, hget, hrun⟩ := hkeeps
  cases h with
  | call copy isCancelled hid hcopy => exact ⟨a, keeps_begin hid hget hcopy isCancelled, .refl a⟩
  | next h =>
    cases h with
    | lead h =>
      have hled := Run.led_of_lead h
      obtain ⟨b, hb, hgoes, hkeeps⟩ := hled.keeps hget hrun
      exact ⟨b, ⟨congrArg Act.id hled.continues.act_eq, hb, hkeeps⟩, hgoes⟩
    | step j h =>
      obtain ⟨k, since, steps, s, step, b, x, b', entries, hc, -, -, -, -, rfl, rfl⟩ :=
        Run.stepMove_eq h
      simp only [Run.Keeps, hc] at hrun
      exact ⟨a, ⟨rfl, hget, hrun⟩, .refl a⟩
    | cancel => exact ⟨a, ⟨rfl, hget, hrun⟩, .refl a⟩
    | others h => exact ⟨a, ⟨rfl, h.1.trans hget, hrun.of_closed h.2⟩, .refl a⟩

/-- What is stored of the act after some of what can happen. -/
theorem keeps_of_called (h : Relation.ReflTransGen (Called id) c c') (hkeeps : c.Keeps id a) :
    ∃ b, c'.Keeps id b ∧ (a.isTerminal → b = a) := by
  induction h with
  | refl => exact ⟨a, hkeeps, fun _ => rfl⟩
  | tail _ hlast ih =>
    obtain ⟨b, hb, hsame⟩ := ih
    obtain ⟨d, hd, -, hgoes⟩ := hlast.keeps hb
    refine ⟨d, hd, fun hterminal => ?_⟩
    obtain rfl := hsame hterminal
    exact hgoes hterminal

/-- **The lifecycle of an act.** Through any number of runs of copies of a
stored act, of which none sets out on an act that is over, the stored status
moves one step of the lifecycle at a time or not at all, and nothing of an
act that is over changes any more. -/
theorem status_lifecycle {w : World} {copy : Act} (hid : copy.id = id)
    (hstored : (w.store.get? id).isSome) (hcopy : w.Admits copy) (isCancelled : Bool)
    (hreach : Relation.ReflTransGen (Called id) (begin w copy isCancelled) c) :
    ∃ a, c.world.store.get? id = some a ∧
      (∀ c', Called id c c' →
        ∃ b, c'.world.store.get? id = some b ∧ a.status.Moves b.status) ∧
      (a.isTerminal → ∀ c', Relation.ReflTransGen (Called id) c c' →
        c'.world.store.get? id = some a) := by
  obtain ⟨first, hfirst⟩ := Option.isSome_iff_exists.mp hstored
  obtain ⟨a, ha, -⟩ := keeps_of_called hreach (keeps_begin hid hfirst hcopy isCancelled)
  refine ⟨a, ha.2.1, fun c' hnext => ?_, fun hterminal c' hlater => ?_⟩
  · obtain ⟨b, hb, hmoves, -⟩ := hnext.keeps ha
    exact ⟨b, hb.2.1, hmoves⟩
  · obtain ⟨b, hb, hsame⟩ := keeps_of_called hlater ha
    rw [hb.2.1, hsame hterminal]

/-! ## A run that failed, and its act -/

/-- Schedules that leave the store alone spare the act. -/
theorem spares_after {schedule : List Happening} {id : ActId}
    (h : ∀ d, .deed d ∈ schedule → ∀ w : World, (w.after d).store = w.store) :
    ∀ d, .deed d ∈ schedule → ∀ w : World, w.Spares id (w.after d) := by
  intro d hd w
  have hstore := h d hd w
  exact ⟨congrArg (fun s : Store => s.get? id) hstore, fun hclosed => hstore ▸ hclosed⟩

theorem sample_status_lifecycle :
    (sampleOpening.world.store.get? Sample.blueprint.act.id).isSome ∧
    sampleOpening.world.Admits Sample.blueprint.act ∧
    ∃ (c : Scene) (copy : Act), copy.status = .failed ∧
      Relation.ReflTransGen (Called Sample.blueprint.act.id) sampleOpening
        (begin c.world copy false) ∧
      ∃ a, c.world.store.get? Sample.blueprint.act.id = some a ∧
        (∀ c', Called Sample.blueprint.act.id (begin c.world copy false) c' →
          ∃ b, c'.world.store.get? Sample.blueprint.act.id = some b ∧
            a.status.Moves b.status) ∧
        (a.isTerminal → ∀ c', Relation.ReflTransGen (Called Sample.blueprint.act.id)
          (begin c.world copy false) c' →
            c'.world.store.get? Sample.blueprint.act.id = some a) := by
  have hstored : (sampleOpening.world.store.get? Sample.blueprint.act.id).isSome := by
    decide +kernel
  have hadmits : sampleOpening.world.Admits Sample.blueprint.act := by
    intro _ a ha
    have hopen : (sampleOpening.world.store.get? Sample.blueprint.act.id).all
        (·.isTerminal = false) := by decide +kernel
    simpa [ha] using hopen
  have hplayed : ((sampleOpening.perform sampleFailure).bind fun c =>
      c.world.store.get? Sample.blueprint.act.id).map (·.status) = some .failed := by
    decide +kernel
  obtain ⟨copy, hcopy, hstatus⟩ := Option.map_eq_some_iff.mp hplayed
  obtain ⟨c, hc, hget⟩ := Option.bind_eq_some_iff.mp hcopy
  have hreach : Reaches (World.Spares Sample.blueprint.act.id) sampleOpening c :=
    reaches_of_perform (spares_after sampleFailure_store) hc
  have hcalled : Relation.ReflTransGen (Called Sample.blueprint.act.id) sampleOpening
      (begin c.world { copy with id := Sample.blueprint.act.id } false) := by
    refine (called_of_reaches hreach).tail (.call _ false rfl fun hqueued => ?_)
    rw [show copy.status = .queued from hqueued] at hstatus
    cases hstatus
  exact ⟨hstored, hadmits, c, { copy with id := Sample.blueprint.act.id }, hstatus, hcalled,
    status_lifecycle rfl hstored hadmits false hcalled⟩

/-- A run of the copy that an earlier run was given takes up the stored act
once more, although that is over. -/
theorem status_rewound : ¬ ∀ (w : World) (copy a : Act) (c c' : Scene),
    w.store.get? copy.id = some copy →
    Reaches (World.Spares copy.id) (begin w copy false) c →
    c.world.store.get? copy.id = some a → a.isTerminal →
    Reaches (World.Spares copy.id) (begin c.world copy false) c' →
    c'.world.store.get? copy.id = some a := by
  intro hkept
  have hplayed : ((sampleOpening.perform sampleFailure).bind fun c =>
      ((begin c.world Sample.blueprint.act false).perform [.lead]).map fun c' =>
        ((c.world.store.get? Sample.blueprint.act.id).map (·.status),
          (c'.world.store.get? Sample.blueprint.act.id).map (·.status))) =
      some (some .failed, some .running) := by
    decide +kernel
  obtain ⟨c, hc, hplayed⟩ := Option.bind_eq_some_iff.mp hplayed
  obtain ⟨c', hc', hstatus⟩ := Option.map_eq_some_iff.mp hplayed
  obtain ⟨hbefore, hafter⟩ := Prod.mk.inj hstatus
  obtain ⟨a, ha, hfailed⟩ := Option.map_eq_some_iff.mp hbefore
  have hsame := hkept sampleOpening.world Sample.blueprint.act a c c' (by decide +kernel)
    (reaches_of_perform (spares_after sampleFailure_store) hc) ha
    (by simp [Act.isTerminal, hfailed, Status.isTerminal])
    (reaches_of_perform (fun d hd => by simp at hd) hc')
  rw [hsame, Option.map_some, hfailed] at hafter
  cases hafter

end Scene

end Workflow
