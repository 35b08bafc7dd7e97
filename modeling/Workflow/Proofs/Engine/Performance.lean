/-
Workflow.Proofs.Engine.Performance — runs whose work ends as given.

The work on a step is done by workers at hand or behind a relay, its text is
streamed or not, and results come in in any order. If every result is the one
that its step is to end with, and every step takes its time, then each step
ends with its report, and so the run comes to its forecast.

* `Registry.Hears` — what flights have heard in between. `Executor.run_hears`:
  of endings, only those of results that were given for their generation.
* `Scene.Performs` — all that can happen when work ends as given.
* `Scene.Promises` — the invariant: what flights have heard and why steps were
  refused. With it all that happens is a case of `Scene.Plays`.
* `runs_agree` — two runs of an act.
-/
import Workflow.Proofs.Engine.FinalRecord
import Workflow.Proofs.Engine.Forecast
import Workflow.Proofs.Generation.Flights

namespace Workflow

/-! ## Results and signals

A result comes to a step as a signal. What the step makes of it depends on the
signal alone. -/

/-- How a step ends whose work has this result. -/
def WorkResult.outcome : WorkResult → StepOutcome
  | .ok _ => .completed
  | .error message => .failed message

/-- How a step ends that hears this signal, if it then ends. -/
def Signal.outcome? : Signal → Option StepOutcome
  | .delta _ => none
  | .completed _ => some .completed
  | .failed record => some (.failed (record.error.getD "generation failed"))
  | .broken message => some (.failed message)

namespace Registry

variable {r r' r'' : Registry} {id key : GenerationId} {n : Nat} {now : Timestamp}
  {told : GenerationId → Signal → Prop}

/-- Streamed or not, the signal of an ending tells how the work ended. -/
theorem IsSettled.outcome?_eq {result : WorkResult} {s : Signal} (h : IsSettled result s) :
    s.outcome? = some result.outcome := by
  obtain ⟨record, isStreaming, now, final, h⟩ := h
  cases result with
  | ok outputs =>
    simp only [settle] at h
    cases hc : record.complete outputs now with
    | error e => simp [hc, bind, Except.bind] at h
    | ok done =>
      simp only [hc, bind, Except.bind, pure, Except.pure, Except.ok.injEq, Prod.mk.injEq] at h
      obtain ⟨-, rfl⟩ := h
      rfl
  | error message =>
    simp only [settle] at h
    split at h
    · simp only [Except.ok.injEq, Prod.mk.injEq] at h
      obtain ⟨-, rfl⟩ := h
      rfl
    · cases hf : record.fail message now with
      | error e => simp [hf, bind, Except.bind] at h
      | ok failed =>
        obtain ⟨-, rfl⟩ := Generation.fail_eq hf
        simp only [hf, bind, Except.bind, pure, Except.pure, Except.ok.injEq, Prod.mk.injEq] at h
        obtain ⟨-, rfl⟩ := h
        rfl

/-- From one registry to the other every flight stays one of its generation,
and has heard in between what is told of that. -/
def Hears (told : GenerationId → Signal → Prop) (r r' : Registry) : Prop :=
  ∀ (n : Nat) (f : Flight), r.flights[n]? = some f → ∃ f', r'.flights[n]? = some f' ∧
    f'.generation = f.generation ∧ ∀ s ∈ f'.heard, s ∈ f.heard ∨ told f.generation s

namespace Hears

theorem refl (r : Registry) : Hears told r r := fun _ f hf => ⟨f, hf, rfl, fun _ => Or.inl⟩

/-- What flights come to hear over two stretches. -/
theorem trans (h : Hears told r r') (h' : Hears told r' r'') : Hears told r r'' := by
  intro n f hf
  obtain ⟨f', hf', hid', hheard'⟩ := h n f hf
  obtain ⟨f'', hf'', hid'', hheard''⟩ := h' n f' hf'
  refine ⟨f'', hf'', hid''.trans hid', fun s hs => ?_⟩
  rcases hheard'' s hs with hold | hnew
  · exact hheard' s hold
  · exact Or.inr (hid' ▸ hnew)

/-- A call on one generation lets the flights of that generation hear what it
tells. -/
theorem of_changes {heard : Signal → Prop} (h : Changes key heard r r') (hs : Sound r)
    (hheard : ∀ s, heard s → told key s) : Hears told r r' := by
  induction h with
  | refl => exact refl r
  | put _ g ih => exact ih
  | land _ ih => exact ih
  | @modify r' h n hn change hchange hsignals ih =>
    refine ih.trans fun m f hf => ?_
    refine ⟨if n = m then change f else f, by simp [getElem?_flights_modify, hf], ?_, ?_⟩
    · split
      · exact hchange f
      · rfl
    · intro s hmem
      split at hmem
      · rename_i heq
        have htarget := h.target?_eq (hs.inFlight_target key) hn
        rw [heq, target?_of_flight hf, Option.some.injEq] at htarget
        exact (hsignals f s hmem).imp_right fun hnew => htarget ▸ hheard s hnew
      · exact Or.inl hmem

theorem launch (r : Registry) (id : GenerationId) (record : Generation) (isStreaming : Bool) :
    Hears told r (r.launch id record isStreaming).1 := by
  intro n f hf
  refine ⟨f, ?_, rfl, fun _ => Or.inl⟩
  rw [Registry.launch, List.getElem?_append_left (List.getElem?_eq_some_iff.mp hf).1, hf]

theorem of_set {g : Generation} (h : r.set g = .ok r') (hs : Sound r) : Hears told r r' :=
  of_changes (changes_set h) hs fun _ => False.elim

theorem of_begin {isStreaming : Bool} (h : r.begin key isStreaming now = .ok (r', n))
    (hs : Sound r) : Hears told r r' := by
  obtain ⟨r₁, g, hchanges, hlaunch⟩ := changes_begin h
  obtain rfl := congrArg Prod.fst hlaunch
  exact (of_changes hchanges hs fun _ => False.elim).trans (launch r₁ key g isStreaming)

end Hears

/-- A new flight has heard nothing. -/
theorem silent_of_begin {isStreaming : Bool} (h : r.begin key isStreaming now = .ok (r', n)) :
    ∃ f, r'.flights[n]? = some f ∧ f.generation = key ∧ f.heard = [] := by
  obtain ⟨r₁, g, -, hlaunch⟩ := changes_begin h
  cases hlaunch
  exact ⟨⟨key, g, isStreaming, false, [], true⟩, by simp, rfl, rfl⟩

end Registry

namespace Executor

open Registry

variable {x : Executor}

/-- A command brings in a result of the work on a generation. -/
def Gives (x : Executor) (c : Command) (id : GenerationId) (result : WorkResult) : Prop :=
  ∃ n, (n, result) ∈ x.results c ∧ x.target? n = some id

/-- What flights of a generation can hear by a command: text, and the endings
of work whose results it brings in. -/
def Tells (x : Executor) (c : Command) (id : GenerationId) (s : Signal) : Prop :=
  ∀ o, s.outcome? = some o → ∃ result, x.Gives c id result ∧ result.outcome = o

/-- Of a command flights hear no endings but those of results that it brings
in. -/
theorem run_hears (hs : x.registry.Sound) (now : Timestamp) (c : Command) :
    Hears (x.Tells c) x.registry (x.run now c).1.registry := by
  have hwithin : c.Within now (x.Gives c)
      fun r r' => r.Sound → r'.Sound ∧ Hears (x.Tells c) r r' :=
    { refl := fun r hs => ⟨hs, .refl r⟩
      trans := fun h h' hs => ⟨(h' (h hs).1).1, (h hs).2.trans (h' (h hs).1).2⟩
      set := fun _ hr hs => ⟨(Registry.set_sound hs hr).1, .of_set hr hs⟩
      start := fun _ hr hs => ⟨(Registry.begin_sound hs hr).1, .of_begin hr hs⟩
      stop := fun _ hr hs =>
        ⟨(Registry.stop_sound hs hr).1, .of_changes (changes_stop hr) hs fun _ => False.elim⟩
      delta := by
        intro r id text hs
        refine ⟨(Registry.delta_sound hs).1, .of_changes (changes_delta text) hs ?_⟩
        rintro s rfl o ho
        cases ho
      finish := by
        intro r id result hgives hs
        refine ⟨(Registry.finish_sound hs).1, .of_changes (changes_finish result now) hs ?_⟩
        intro s hsettled o ho
        exact ⟨result, hgives, Option.some.inj (hsettled.outcome?_eq.symm.trans ho)⟩ }
  exact (hwithin.run x (fun e he _ hid => ⟨e.1, he, hid⟩) hs).2

end Executor

/-! ## Steps that end as given

As long as its flight hears nothing but what it was to hear, a step that is on
its way to a report still is after every move. -/

def Activity.isFlying : Activity → Bool
  | .flying .. => true
  | _ => false

/-- Whether a step that is to end with this report may go on so: its work is
refused only if it is to fail with that message, it does not get lost, and it
takes its time. -/
def StepReport.allows (report : StepReport) : Activity → Activity → Bool
  | .waiting _, .refused _ message | .announced _, .refused _ message =>
    report.outcome = .failed message
  | _, .ended r => r.outcome ≠ .cancelled && r.durationMs = report.durationMs
  | _, _ => true

namespace Activity

open Registry

variable {r r' : Registry} {x x' : Executor} {id : GenerationId} {outcome : StepOutcome}
  {report : StepReport} {clock : Nat} {p : PlacedStep} {a a' : Activity} {entries : List Entry}
  {told : GenerationId → Signal → Prop}

/-- All that is known yet of how a step will end says that this will be its
outcome. -/
def IsToEnd (r : Registry) (id : GenerationId) (outcome : StepOutcome) : Activity → Prop
  | .flying _ n _ _ => ∃ f, r.flights[n]? = some f ∧ f.generation = id ∧
    ∀ s ∈ f.heard, ∀ o, s.outcome? = some o → o = outcome
  | .refused _ message => .failed message = outcome
  | .waiting _ | .announced _ | .ended _ => True

/-- A step still ends as announced, as long as its flight hears nothing else. -/
theorem IsToEnd.hears (ha : a.IsToEnd r id outcome) (h : Hears told r r')
    (htold : a.isFlying → ∀ s, told id s → ∀ o, s.outcome? = some o → o = outcome) :
    a.IsToEnd r' id outcome := by
  cases a with
  | flying since n taken isStopped =>
    obtain ⟨f, hf, rfl, hheard⟩ := ha
    obtain ⟨f', hf', hid, hheard'⟩ := h n f hf
    refine ⟨f', hf', hid, fun s hs => ?_⟩
    rcases hheard' s hs with hold | hnew
    · exact hheard s hold
    · exact htold rfl s hnew
  | _ => exact ha

/-- A step's own calls let no flight hear of anything. -/
theorem Advanced.hears (h : Advanced x clock false p a x' a' entries) (hs : x.registry.Sound) :
    Hears told x.registry x'.registry := by
  have hset {y : Executor} {g : Generation} (hy : x.set g = .ok y) :
      Hears told x.registry y.registry := by
    obtain ⟨r, hr, rfl⟩ := Executor.set_eq hy
    exact .of_set hr hs
  cases h with
  | announce hi hq hx => exact hset hx
  | start hx =>
    obtain ⟨r, hr, rfl⟩ := Executor.start_eq hx
    exact .of_begin hr hs
  | stop hi => cases hi
  | settle hr =>
    rcases recordFailure_eq hr with ⟨rfl, -⟩ | ⟨failed, rfl, -⟩
    · exact .refl _
    · cases hy : x.set failed with
      | error e => exact .refl _
      | ok y => exact hset hy
  | _ => exact .refl _

/-- A step that moves as it may is still to end so, and if it ends then with
its report. -/
theorem Advanced.isToEnd (h : Advanced x clock false p a x' a' entries)
    (ha : a.IsToEnd x.registry p.step.generation report.outcome)
    (hallows : report.allows a a') :
    a'.IsToEnd x'.registry p.step.generation report.outcome ∧
      ∀ r, a' = .ended r → r = report := by
  have hends {o : StepOutcome} {ms : Nat} (ho : o = report.outcome)
      (hms : ms = report.durationMs) : ∀ r, Activity.ended ⟨o, ms⟩ = .ended r → r = report := by
    rintro r hr
    cases hr
    rw [ho, hms]
  -- what the step now hears is among all that its flight has heard
  have hheard {since n taken : Nat} {isStopped : Bool} {f : Flight} {s : Signal} {o : StepOutcome}
      (ha : (Activity.flying since n taken isStopped).IsToEnd x.registry p.step.generation
        report.outcome)
      (hf : x.registry.flights[n]? = some f) (hs : f.heard[taken]? = some s)
      (ho : s.outcome? = some o) : o = report.outcome := by
    obtain ⟨f', hf', -, hheard⟩ := ha
    obtain rfl := Option.some.inj (hf.symm.trans hf')
    exact hheard s (List.mem_of_getElem? hs) o ho
  cases h with
  | skip hi => cases hi
  | stop hi => cases hi
  | unqueued hi hq =>
    exact ⟨(of_decide_eq_true hallows).symm, fun r hr => by cases hr⟩
  | unset hi hq hx =>
    exact ⟨(of_decide_eq_true hallows).symm, fun r hr => by cases hr⟩
  | announce hi hq hx => exact ⟨trivial, fun r hr => by cases hr⟩
  | unstarted hx =>
    exact ⟨(of_decide_eq_true hallows).symm, fun r hr => by cases hr⟩
  | start hx =>
    obtain ⟨r, hr, rfl⟩ := Executor.start_eq hx
    obtain ⟨f, hf, hid, hnone⟩ := silent_of_begin hr
    exact ⟨⟨f, hf, hid, by simp [hnone]⟩, fun r hr => by cases hr⟩
  | delta hf hs => exact ⟨ha, fun r hr => by cases hr⟩
  | complete hf hs =>
    simp only [StepReport.allows, Bool.and_eq_true, decide_eq_true_eq] at hallows
    exact ⟨trivial, hends (hheard ha hf hs rfl) hallows.2⟩
  | fail hf hs hm =>
    simp only [StepReport.allows, Bool.and_eq_true, decide_eq_true_eq] at hallows
    exact ⟨trivial, hends (hheard ha hf hs (hm ▸ rfl)) hallows.2⟩
  | «break» hf hs => exact ⟨hheard ha hf hs rfl, fun r hr => by cases hr⟩
  | lose hf hs hopen => simp [StepReport.allows] at hallows
  | settle hr =>
    simp only [StepReport.allows, Bool.and_eq_true, decide_eq_true_eq] at hallows
    exact ⟨trivial, hends ha hallows.2⟩

end Activity

/-! ## Runs whose work ends as given -/

namespace Run

variable {reports : Reports} {w w' : World} {r r' : Run} {j : Nat} {p : PlacedStep}
  {a : Activity}

/-- The steps whose work goes on, as far as they have heard. -/
def flying (r : Run) : List PlacedStep :=
  (List.range r.width).filterMap fun j =>
    (r.stepAt? j).bind fun (p, a) => if a.isFlying then some p else none

/-- A step that listens is one of those in flight. -/
theorem mem_flying (h : r.stepAt? j = some (p, a)) (ha : a.isFlying) : p ∈ r.flying := by
  refine List.mem_filterMap.mpr ⟨j, List.mem_range.mpr ?_, by simp [h, ha]⟩
  obtain ⟨k, since, steps, s, step, hc, -, -, hj, -⟩ := stepAt?_eq_some.mp h
  rw [width, hc]
  exact (List.getElem?_eq_some_iff.mp hj).1

/-- The move of step `j` that made `r'` of `r` is one that its report
allows. -/
def Allows (reports : Reports) (r r' : Run) (j : Nat) : Prop :=
  ∀ e ∈ r.stepAt? j, ∀ e' ∈ r'.stepAt? j, (reports e.1.sequence e.1.index).allows e.2 e'.2

instance : Decidable (Allows reports r r' j) :=
  inferInstanceAs (Decidable (∀ e ∈ r.stepAt? j, ∀ e' ∈ r'.stepAt? j,
    (reports e.1.sequence e.1.index).allows e.2 e'.2))

/-- The results that a command brings in for steps whose work goes on are
those with which the steps are to end. -/
def Expects (reports : Reports) (r : Run) (x : Executor) (c : Executor.Command) : Prop :=
  ∀ p ∈ r.flying, ∀ e ∈ x.results c, x.target? e.1 = some p.step.generation →
    e.2.outcome = (reports p.sequence p.index).outcome

instance {x : Executor} {c : Executor.Command} : Decidable (Expects reports r x c) :=
  inferInstanceAs (Decidable (∀ p ∈ r.flying, ∀ e ∈ x.results c,
    x.target? e.1 = some p.step.generation → e.2.outcome = (reports p.sequence p.index).outcome))

/-- All that is known yet of how the steps will end agrees with their
reports. -/
def IsToEnd (reports : Reports) (r : Run) (x : Executor) : Prop :=
  ∀ j p a, r.stepAt? j = some (p, a) →
    a.IsToEnd x.registry p.step.generation (reports p.sequence p.index).outcome

/-- Of a sequence that runs after a move of the run itself no step has been
dispatched. -/
theorem Led.waiting {k since : Nat} {steps : List Activity} (h : Led w r w' r')
    (hc : r'.control = .running k since steps) :
    ∃ records : List Generation, steps = records.map .waiting := by
  cases h with
  | @«open» k records s _ _ _ hs hall hsend =>
    rcases send_eq hsend with ⟨store, -, -, rfl⟩ | ⟨e, -, -, rfl⟩
    · simp only [goto_control, Control.running.injEq] at hc
      exact ⟨records, hc.2.2.symm⟩
    · cases hc
  | begin _ hs hsend | close _ hs hreports hsend | finish _ ho hsend =>
    rcases send_eq hsend with ⟨store, -, -, rfl⟩ | ⟨e, -, -, rfl⟩ <;> cases hc
  | @judge k tally =>
    rw [goto_control] at hc
    rcases r.judge_eq k tally with ⟨hj, -⟩ | ⟨hj, -⟩ | ⟨hj, -⟩ <;> rw [hj] at hc <;> cases hc
  | _ => cases hc

/-- The run itself does not change how steps are to end. -/
theorem isToEnd_of_lead (h : Led w r w' r') : r'.IsToEnd reports w'.executor := by
  intro j p a hp
  obtain ⟨k, since, steps, s, step, hc, -, -, ha, -⟩ := stepAt?_eq_some.mp hp
  obtain ⟨records, rfl⟩ := h.waiting hc
  rw [List.getElem?_map, Option.map_eq_some_iff] at ha
  obtain ⟨record, -, rfl⟩ := ha
  trivial

/-- A command that brings in the expected results. -/
theorem IsToEnd.run {x : Executor} {c : Executor.Command} (h : r.IsToEnd reports x)
    (hs : x.registry.Sound) (hc : r.Expects reports x c) (now : Timestamp) :
    r.IsToEnd reports (x.run now c).1 := by
  intro j p a hp
  refine (h j p a hp).hears (Executor.run_hears hs now c) ?_
  intro ha s htells o ho
  obtain ⟨result, ⟨n, hmem, hid⟩, rfl⟩ := htells o ho
  exact hc p (mem_flying hp ha) (n, result) hmem hid

/-- A move that the report of its step allows. -/
theorem isToEnd_of_stepMove (h : r.stepMove w j = some (w', r')) (hi : r.isCancelled = false)
    (hs : w.executor.registry.Sound) (hallows : r.Allows reports r' j)
    (hr : r.IsToEnd reports w.executor) :
    r'.IsToEnd reports w'.executor ∧ r'.EndsAs reports j := by
  obtain ⟨k, since, steps, s, step, a, x, a', entries, hc, hseq, hstep, ha, hadvance, rfl, rfl⟩ :=
    stepMove_eq h
  have hadvanced := Activity.advanced_of_advance (hi ▸ hadvance)
  have hj : j < steps.length := (List.getElem?_eq_some_iff.mp ha).1
  have hbefore : r.stepAt? j = some (⟨k, j, step⟩, a) :=
    stepAt?_eq_some.mpr ⟨k, since, steps, s, step, hc, hseq, hstep, ha, rfl⟩
  have hafter : ((r.record entries).goto (.running k since (steps.set j a'))).stepAt? j =
      some (⟨k, j, step⟩, a') :=
    stepAt?_eq_some.mpr ⟨k, since, _, s, step, rfl, hseq, hstep, List.getElem?_set_self hj, rfl⟩
  obtain ⟨hown, hends⟩ := hadvanced.isToEnd (hr j _ a hbefore) (hallows _ hbefore _ hafter)
  have hquiet : Registry.Hears (fun _ _ => False) w.executor.registry x.registry :=
    hadvanced.hears hs
  refine ⟨fun i q b hq => ?_, fun q report hq => ?_⟩
  · by_cases hij : j = i
    · subst hij
      cases hafter.symm.trans hq
      exact hown
    · -- another step, which the move has left as it was
      have hsame : r.stepAt? i = some (q, b) := by
        obtain ⟨k', since', steps', t, u, hc', ht, hu, hb, rfl⟩ := stepAt?_eq_some.mp hq
        cases hc'
        rw [List.getElem?_set_ne hij] at hb
        exact stepAt?_eq_some.mpr ⟨k, since, steps, t, u, hc, ht, hu, hb, rfl⟩
      exact (hr i q b hsame).hears hquiet fun _ _ hfalse => hfalse.elim
  · cases hafter.symm.trans hq
    exact hends report rfl

end Run

namespace Scene

variable {reports : Reports} {c c' : Scene} {act : Act}

/-- Whether what happens lets every step end with its report; `c'` is the
scene afterwards. Nobody cancels the run, others leave alone what the store
shows of the act, and time passes only while steps are outstanding. -/
def Fits (reports : Reports) (c c' : Scene) : Happening → Prop
  | .lead => True
  | .step j => c.run.Allows reports c'.run j
  | .cancel => False
  | .deed (.executor command) => c.run.Expects reports c.world.executor command
  | .deed (.store _) => c'.world.store.view c.run.act.id = c.world.store.view c.run.act.id
  | .deed (.wait _) => c.run.isOutstanding

instance {e : Happening} : Decidable (c.Fits reports c' e) :=
  match e with
  | .lead => .isTrue trivial
  | .step j => inferInstanceAs (Decidable (c.run.Allows reports c'.run j))
  | .cancel => .isFalse id
  | .deed (.executor command) =>
    inferInstanceAs (Decidable (c.run.Expects reports c.world.executor command))
  | .deed (.store _) => inferInstanceAs
    (Decidable (c'.world.store.view c.run.act.id = c.world.store.view c.run.act.id))
  | .deed (.wait _) => inferInstanceAs (Decidable (c.run.isOutstanding = true))

/-- Something happens by which every step will have ended with its
report. -/
def Performs (reports : Reports) (c c' : Scene) : Prop :=
  ∃ e, c.happen e = some c' ∧ c.Fits reports c' e

/-- A run that nobody has cancelled, of which every step will end with its
report. -/
structure Promises (reports : Reports) (c : Scene) : Prop where
  sound : c.world.executor.registry.Sound
  backed : c.run.Backed c.world.executor.registry
  isCancelled_eq : c.run.isCancelled = false
  isToEnd : c.run.IsToEnd reports c.world.executor

/-- At the beginning nothing is promised yet but what the reports say. -/
theorem promises_begin {w : World} (hs : w.executor.registry.Sound) (reports : Reports)
    (act : Act) :
    (begin w act false).Promises reports where
  sound := hs
  backed := trivial
  isCancelled_eq := rfl
  isToEnd := by
    intro j p a hp
    cases hp

/-- One thing that happens. -/
theorem Performs.plays (h : Performs reports c c') (hk : c.Promises reports) :
    Plays reports c c' ∧ c'.Promises reports := by
  obtain ⟨e, he, hfits⟩ := h
  have hnext : Next World.AnyDeed c c' := next_of_happen (fun d _ w => ⟨d, rfl⟩) he
  obtain ⟨hsound, hbacked, -⟩ := hnext.backed hk.sound hk.backed
  cases e with
  | lead =>
    simp only [happen, Option.map_eq_some_iff, Prod.exists] at he
    obtain ⟨w', r', h, rfl⟩ := he
    have hled := Run.led_of_lead h
    exact ⟨.lead h, hsound, hbacked, hled.continues.isCancelled_eq.trans hk.isCancelled_eq,
      Run.isToEnd_of_lead hled⟩
  | step j =>
    simp only [happen, Option.map_eq_some_iff, Prod.exists] at he
    obtain ⟨w', r', h, rfl⟩ := he
    -- the step does what its report says, since that is all its flight was told
    obtain ⟨hends, hstep⟩ := Run.isToEnd_of_stepMove h hk.isCancelled_eq hk.sound hfits hk.isToEnd
    refine ⟨.step j h hstep, hsound, hbacked, ?_, hends⟩
    obtain ⟨_, _, _, _, _, _, _, _, _, -, -, -, -, -, -, rfl⟩ := Run.stepMove_eq h
    exact hk.isCancelled_eq
  | cancel => exact hfits.elim
  | deed d =>
    cases he
    cases d with
    | executor command =>
      exact ⟨.others rfl rfl, hsound, hbacked, hk.isCancelled_eq,
        hk.isToEnd.run hk.sound hfits c.world.now⟩
    | store command => exact ⟨.others hfits rfl, hsound, hbacked, hk.isCancelled_eq, hk.isToEnd⟩
    | wait ms => exact ⟨.wait ms hfits, hsound, hbacked, hk.isCancelled_eq, hk.isToEnd⟩

/-- Where all work ends as given, every step ends with its report. -/
theorem plays_of_performs (h : Relation.ReflTransGen (Performs reports) c c')
    (hk : c.Promises reports) : Relation.ReflTransGen (Plays reports) c c' := by
  have hboth : Relation.ReflTransGen (Plays reports) c c' ∧ c'.Promises reports := by
    induction h with
    | refl => exact ⟨.refl, hk⟩
    | tail _ hlast ih =>
      obtain ⟨hplays, hpromises⟩ := ih
      obtain ⟨hnext, hpromises'⟩ := hlast.plays hpromises
      exact ⟨hplays.tail hnext, hpromises'⟩
  exact hboth.1

/-- **Runs are a function of the plan and the step results.** Two runs of an
act that nobody cancels, from stores that show the same of it, in which every
step gets the same outcome and takes as long, leave the same log and the same
act behind and give back the same, whoever does the work, in whichever order
it ends, and whatever else happens. -/
theorem runs_agree {staff₁ staff₂ : Staff} {before₁ before₂ : List Deed} {w₁ w₂ : World}
    {c₁ c₂ : Scene} {result₁ result₂ : Except EngineError Outcome}
    (hw₁ : w₁ = (World.fresh staff₁).afterAll before₁)
    (hw₂ : w₂ = (World.fresh staff₂).afterAll before₂)
    (hstore : w₁.store.view act.id = w₂.store.view act.id)
    (h₁ : Relation.ReflTransGen (Performs reports) (begin w₁ act false) c₁)
    (h₂ : Relation.ReflTransGen (Performs reports) (begin w₂ act false) c₂)
    (hdone₁ : c₁.run.control = .done result₁) (hdone₂ : c₂.run.control = .done result₂)
    (hready₁ : ∀ e, result₁ = .error e → e.isUnready = false)
    (hready₂ : ∀ e, result₂ = .error e → e.isUnready = false) :
    c₁.world.store.logOf act.id = c₂.world.store.logOf act.id ∧
      c₁.world.store.get? act.id = c₂.world.store.get? act.id ∧ result₁ = result₂ := by
  have hcomes {staff : Staff} {before : List Deed} {w : World} {c : Scene}
      {result : Except EngineError Outcome} (hw : w = (World.fresh staff).afterAll before)
      (h : Relation.ReflTransGen (Performs reports) (begin w act false) c)
      (hdone : c.run.control = .done result)
      (hready : ∀ e, result = .error e → e.isUnready = false) :
      Forecast.ofRun act reports (w.store.view act.id) =
        ⟨c.world.store.view act.id, result⟩ := by
    have hsound : w.executor.registry.Sound :=
      hw ▸ World.afterAll_sound Registry.sound_empty before
    exact upshot_of_plays (plays_of_performs h (promises_begin hsound reports act)) hdone hready
  have hsame := (hcomes hw₁ h₁ hdone₁ hready₁).symm.trans
    ((congrArg (Forecast.ofRun act reports) hstore).trans (hcomes hw₂ h₂ hdone₂ hready₂))
  obtain ⟨hview, hresult⟩ := Upshot.mk.inj hsame
  exact ⟨congrArg View.log hview, congrArg View.act? hview, hresult⟩

/-! ## One plan, with workers and behind a relay -/

/-- The scene at the end of a schedule of which all fits the reports. -/
def conduct (reports : Reports) (c : Scene) : List Happening → Option Scene
  | [] => some c
  | e :: rest => (c.happen e).bind fun d =>
    if c.Fits reports d e then d.conduct reports rest else none

/-- A schedule is one of the possible performances. -/
theorem performs_of_conduct {schedule : List Happening}
    (h : c.conduct reports schedule = some c') : Relation.ReflTransGen (Performs reports) c c' := by
  induction schedule generalizing c with
  | nil =>
    cases h
    exact .refl
  | cons e rest ih =>
    obtain ⟨d, hd, h⟩ := Option.bind_eq_some_iff.mp h
    split at h
    · rename_i hfits
      exact .head ⟨e, hd, hfits⟩ (ih h)
    · cases h

/-- The topic is searched for and written up, side by side. -/
def forked : Blueprint :=
  (Blueprint.compile .numbered .epoch { Sample.workspace with
    connections := Sample.workspace.connections.filter (·.source = ⟨"topic"⟩) }
      ⟨"topic"⟩).toOption.getD default

/-- A world in which the plan is loaded. -/
def forkedWorld (staff : Staff) : World :=
  (World.fresh staff).afterAll
    (.store (.insert forked.act) :: forked.generations.map fun g => .executor (.set g))

/-- The search is done and the text is not, both after two milliseconds. -/
def forkedReports : Reports
  | _, 0 => ⟨.completed, 2⟩
  | _, _ => ⟨.failed "quota exceeded", 2⟩

def forkedOpening : List Happening :=
  [.lead, .lead, .lead, .lead, .lead, .step 0, .step 0, .step 1, .step 1]

/-- Workers have both results at once, and the run hears of the search
first. -/
def forkedWork : List Happening :=
  forkedOpening ++ [.deed (.wait 2), .deed (.executor (.report 0 (.ok []))),
    .deed (.executor (.report 1 (.error "quota exceeded"))), .step 0, .step 1, .step 1,
    .lead, .lead, .lead]

/-- A driver streams a text, and gives the search back once the run has heard
that the text failed. -/
def forkedDrive : List Happening :=
  forkedOpening ++ [.deed (.executor .take), .deed (.executor .take),
    .deed (.executor (.delta 1 "First")), .deed (.wait 2), .step 1,
    .deed (.executor (.report 1 (.error "quota exceeded"))), .step 1, .step 1,
    .deed (.executor (.report 0 (.ok []))), .step 0, .lead, .lead, .lead]

theorem sample_runs_agree :
    (forkedWorld (.workers Operation.all)).store.view forked.act.id =
      (forkedWorld (.relay .new)).store.view forked.act.id ∧
    ∃ (c₁ c₂ : Scene) (o₁ o₂ : Outcome),
      Relation.ReflTransGen (Performs forkedReports)
        (begin (forkedWorld (.workers Operation.all)) forked.act false) c₁ ∧
      Relation.ReflTransGen (Performs forkedReports)
        (begin (forkedWorld (.relay .new)) forked.act false) c₂ ∧
      c₁.run.control = .done (.ok o₁) ∧ c₂.run.control = .done (.ok o₂) ∧
      c₁.world.store.logOf forked.act.id = c₂.world.store.logOf forked.act.id ∧
      c₁.world.store.get? forked.act.id = c₂.world.store.get? forked.act.id ∧
      (.ok o₁ : Except EngineError Outcome) = .ok o₂ := by
  have hwork : (((begin (forkedWorld (.workers Operation.all)) forked.act false).conduct
      forkedReports forkedWork).bind (·.run.outcome?)).isSome := by decide +kernel
  have hdrive : (((begin (forkedWorld (.relay .new)) forked.act false).conduct
      forkedReports forkedDrive).bind (·.run.outcome?)).isSome := by decide +kernel
  obtain ⟨o₁, hwork⟩ := Option.isSome_iff_exists.mp hwork
  obtain ⟨o₂, hdrive⟩ := Option.isSome_iff_exists.mp hdrive
  obtain ⟨c₁, hc₁, ho₁⟩ := Option.bind_eq_some_iff.mp hwork
  obtain ⟨c₂, hc₂, ho₂⟩ := Option.bind_eq_some_iff.mp hdrive
  have h₁ := performs_of_conduct hc₁
  have h₂ := performs_of_conduct hc₂
  have hdone₁ := Run.done_of_outcome? ho₁
  have hdone₂ := Run.done_of_outcome? ho₂
  have hstore : (forkedWorld (.workers Operation.all)).store.view forked.act.id =
      (forkedWorld (.relay .new)).store.view forked.act.id := by decide +kernel
  exact ⟨hstore, c₁, c₂, o₁, o₂, h₁, h₂, hdone₁, hdone₂,
    runs_agree rfl rfl hstore h₁ h₂ hdone₁ hdone₂ (fun e he => by cases he)
      (fun e he => by cases he)⟩

end Scene

end Workflow
