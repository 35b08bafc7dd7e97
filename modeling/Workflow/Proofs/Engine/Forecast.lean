/-
Workflow.Proofs.Engine.Forecast — what a run comes to, told beforehand.

What a run that nobody cancels does to the stored act, and what it gives
back, is a function of the plan and of the reports with which its steps end:
neither the order in which these come in nor the executor has a part in it.

* `View` — what a store shows of one act.
* `Forecast.ofRun` — the function: one sequence after the other, as long as
  each of them takes.
* `Scene.Plays` — all that can happen while every step ends with its report
  and time passes only while steps are outstanding.
* `Run.HeadsFor` — the invariant: what is to come makes the forecast true.
  `upshot_of_plays` is about whole runs.
-/
import Workflow.Proofs.Engine.Moves
import Workflow.Proofs.Engine.Scene

namespace Workflow

/-! ## Views of a store -/

/-- What a store shows of one act. -/
structure View where
  act? : Option Act
  log : List Patch
  isClosed : Bool
deriving DecidableEq, Repr

/-- What a store shows of one act. -/
def Store.view (s : Store) (id : ActId) : View := ⟨s.get? id, s.logOf id, s.isClosed⟩

/-- What is shown after a batch on the act. -/
def View.apply (v : View) (id : ActId) (patches : List Patch) : Except PatchError View :=
  if v.isClosed then .error .closed
  else match v.act? with
    | none => .error (.unknownAct id)
    | some act =>
      match act.update patches with
      | .error e => .error e
      | .ok new => .ok { v with act? := some new, log := v.log ++ patches }

/-- A batch changes the view of its act as that view says. -/
theorem Store.view_apply (s : Store) (id : ActId) (patches : List Patch) :
    (s.view id).apply id patches = (s.apply id patches).map (·.view id) := by
  unfold View.apply Store.apply Store.view
  split
  · rfl
  · cases s.get? id with
    | none => rfl
    | some act =>
      cases hu : act.update patches with
      | error e => simp only [hu, Except.map]
      | ok new => simp [hu, Except.map, Store.get?, Store.logOf]

/-! ## Times -/

theorem elapsed_mono {since clock clock' : Nat} (h : clock ≤ clock') :
    elapsed since clock ≤ elapsed since clock' := by
  simp only [elapsed]
  omega

theorem elapsed_self (clock : Nat) : elapsed clock clock = 0 := by
  simp [elapsed]

/-- The time up to some moment and the time from then on. -/
theorem elapsed_add {start since clock : Nat} (h : start ≤ since) (h' : since ≤ clock) :
    elapsed 0 (elapsed start since + elapsed since clock) = elapsed start clock := by
  simp only [elapsed]
  omega

/-- The longest of the durations. -/
def longest : List StepReport → Nat
  | [] => 0
  | r :: rest => max r.durationMs (longest rest)

/-- The longest of some times is a bound of all of them. -/
theorem longest_le {rs : List StepReport} {ms : Nat} (h : ∀ r ∈ rs, r.durationMs ≤ ms) :
    longest rs ≤ ms := by
  induction rs with
  | nil => exact Nat.zero_le ms
  | cons r rest ih =>
    obtain ⟨hr, hrest⟩ := List.forall_mem_cons.mp h
    exact Nat.max_le.mpr ⟨hr, ih hrest⟩

theorem le_longest {rs : List StepReport} {r : StepReport} (h : r ∈ rs) :
    r.durationMs ≤ longest rs := by
  induction rs with
  | nil => cases h
  | cons q rest ih =>
    rcases List.mem_cons.mp h with rfl | h
    · exact Nat.le_max_left _ _
    · exact Nat.le_trans (ih h) (Nat.le_max_right _ _)

/-! ## The forecast

The forecast is computed from the reports of the steps alone, by recursion on
the sequences that are left. It knows neither staff nor order. -/

/-- How far a run has come between its moves. -/
structure Standing where
  view : View
  tally : Tally
  /-- The milliseconds since it began. -/
  ms : Nat

/-- What a run leaves behind: what is shown of the act, and what it gives
back. -/
structure Upshot where
  view : View
  result : Except EngineError Outcome

/-- The report with which each step ends, by its sequence and its place
there. -/
abbrev Reports := Nat → Nat → StepReport

/-- The reports of the steps of sequence `k`. -/
def Reports.ofSequence (reports : Reports) (k : Nat) (s : Sequence) : List StepReport :=
  (List.range s.steps.length).map (reports k)

namespace Forecast

variable (act : Act)

/-- The run gives up. -/
def ofAbort (m : Standing) (e : EngineError) : Upshot :=
  ⟨(m.view.apply act.id (Batch.abort e m.ms)).toOption.getD m.view, .error e⟩

/-- The run sends a batch, and goes on if it is accepted. -/
def ofSend (m : Standing) (patches : List Patch) (next : Standing → Upshot) : Upshot :=
  match m.view.apply act.id patches with
  | .ok view => next { m with view }
  | .error e => ofAbort act m (.patch e)

/-- The run is over with a status; sequences from `k` on are skipped. -/
def ofEnd (m : Standing) (status : Status) (k : Nat) : Upshot :=
  ofSend act m (Batch.final status m.ms) fun m =>
    ⟨m.view, .ok
      { act := act.id, status, wallClockMs := m.ms, totalTaskMs := m.tally.totalTaskMs
        completed := m.tally.completed, failed := m.tally.failed, cancelled := m.tally.cancelled
        skippedSequences := (act.sequences.drop k).length }⟩

/-- Sequence `k` is closed and came to `tally`; if all went well the run
goes on. -/
def ofClosed (k : Nat) (tally : Tally) (m : Standing) (next : Standing → Upshot) : Upshot :=
  let m := { m with tally := m.tally.add tally }
  if tally.cancelled > 0 then ofEnd act m .cancelled (k + 1)
  else if tally.failed > 0 then ofEnd act m .failed (k + 1)
  else next m

/-- Sequence `k` runs, for as long as its longest step. -/
def ofRunning (reports : Reports) (k : Nat) (s : Sequence) (m : Standing)
    (next : Standing → Upshot) : Upshot :=
  let rs := reports.ofSequence k s
  ofSend act { m with ms := elapsed 0 (m.ms + longest rs) } (Batch.closing k s rs (longest rs))
    fun m => ofClosed act k (Tally.ofReports rs) m next

/-- The sequences from `k` on are yet to run. -/
def ofTurn (reports : Reports) : Nat → List Sequence → Standing → Upshot
  | k, [], m => ofEnd act m .completed k
  | k, s :: rest, m => ofSend act m (Batch.opening k s) fun m =>
      ofRunning act reports k s m (ofTurn reports (k + 1) rest)

/-- A run of an act, where the store shows `view` of it. -/
def ofRun (reports : Reports) (view : View) : Upshot :=
  if act.status = .queued then
    ofSend act ⟨view, .zero, 0⟩ Batch.begin (ofTurn act reports 0 act.sequences)
  else ⟨view, .error (.actNotQueued act.id act.status)⟩

end Forecast

/-! ## Steps on time

A sequence takes as long as its longest step, whichever step ends last. -/

def Activity.isDispatched : Activity → Bool
  | .waiting _ => false
  | .announced _ | .flying .. | .refused .. | .ended _ => true

/-- A step of a sequence that runs since `since` is on time: time has passed
only if it was dispatched, and if it has ended then with its report. -/
def Activity.OnTime (since clock : Nat) (report : StepReport) : Activity → Prop
  | .waiting _ => clock = since
  | .announced t | .flying t _ _ _ | .refused t _ => t = since
  | .ended r => r = report ∧ r.durationMs ≤ elapsed since clock

/-- The steps of a sequence are on time, and no time has passed since the
last of them ended. -/
structure Timely (since clock : Nat) (reports : Nat → StepReport) (steps : List Activity) :
    Prop where
  each : ∀ (j : Nat) (a : Activity), steps[j]? = some a → a.OnTime since clock (reports j)
  last : ∀ rs : List StepReport, steps = rs.map .ended → elapsed since clock = longest rs

namespace Timely

variable {since clock : Nat} {reports : Nat → StepReport} {steps : List Activity}

/-- Steps that wait are in time. -/
theorem of_waiting (clock : Nat) (reports : Nat → StepReport) (records : List Generation) :
    Timely clock clock reports (records.map .waiting) where
  each := by
    intro j a ha
    rw [List.getElem?_map, Option.map_eq_some_iff] at ha
    obtain ⟨record, -, rfl⟩ := ha
    rfl
  last := by
    intro rs hrs
    cases records with
    | nil =>
      obtain rfl : rs = [] := by simpa using hrs.symm
      exact elapsed_self clock
    | cons g rest =>
      cases rs with
      | nil => cases hrs
      | cons r rs => cases (List.cons.inj hrs).1

/-- A step moves on. One that ends now took all the time until now, so that
none of those that ended before it took longer. -/
theorem set (h : Timely since clock reports steps) {j : Nat} {a' : Activity}
    (hj : j < steps.length) (ha' : a'.OnTime since clock (reports j))
    (hends : ∀ r, a' = .ended r → r.durationMs = elapsed since clock) :
    Timely since clock reports (steps.set j a') where
  each := by
    intro i b hb
    rw [List.getElem?_set] at hb
    split at hb
    · rename_i heq
      obtain rfl := Option.some.inj hb
      exact heq ▸ ha'
    · exact h.each i b hb
  last := by
    intro rs hrs
    have hown : (rs.map Activity.ended)[j]? = some a' := by
      rw [← hrs, List.getElem?_set_self hj]
    rw [List.getElem?_map, Option.map_eq_some_iff] at hown
    obtain ⟨r, hr, rfl⟩ := hown
    -- if this was the last step to end, it has taken the whole time
    have hlast : r.durationMs = elapsed since clock := hends r rfl
    refine Nat.le_antisymm ?_ (longest_le fun q hq => ?_)
    · exact hlast ▸ le_longest (List.mem_of_getElem? hr)
    · obtain ⟨i, hi⟩ := List.mem_iff_getElem?.mp hq
      by_cases hij : j = i
      · subst hij
        obtain rfl := Option.some.inj (hr.symm.trans hi)
        exact Nat.le_of_eq hlast
      · have hother : steps[i]? = some (.ended q) := by
          rw [← List.getElem?_set_ne hij, hrs, List.getElem?_map, hi]
          rfl
        exact (h.each i _ hother).2

/-- Time passes while all steps have been dispatched and one of them goes
on. -/
theorem wait (h : Timely since clock reports steps) (ms : Nat)
    (hsent : ∀ record, .waiting record ∉ steps) (hgoing : ∃ a ∈ steps, a.report? = none) :
    Timely since (clock + ms) reports steps where
  each := by
    intro j a ha
    have hontime := h.each j a ha
    cases a with
    | waiting record => exact absurd (List.mem_of_getElem? ha) (hsent record)
    | ended r => exact ⟨hontime.1, Nat.le_trans hontime.2 (elapsed_mono (by omega))⟩
    | _ => exact hontime
  last := by
    rintro rs rfl
    obtain ⟨a, ha, hnone⟩ := hgoing
    obtain ⟨r, -, rfl⟩ := List.mem_map.mp ha
    cases hnone

/-- Once all have ended, they have ended with their reports. -/
theorem reports_eq {rs : List StepReport} (h : Timely since clock reports (rs.map .ended)) :
    rs = (List.range rs.length).map reports := by
  refine List.ext_getElem (by simp) fun j hj hj' => ?_
  have hended : (rs.map Activity.ended)[j]? = some (.ended rs[j]) := by simp [hj]
  simpa using (h.each j _ hended).1

end Timely

namespace Activity

variable {x x' : Executor} {since clock : Nat} {report : StepReport} {p : PlacedStep}
  {a a' : Activity} {entries : List Entry}

/-- A step that is on time and moves is still on time. -/
theorem Advanced.onTime (h : Advanced x clock false p a x' a' entries)
    (ha : a.OnTime since clock report) (hends : ∀ r, a' = .ended r → r = report) :
    a'.OnTime since clock report ∧ ∀ r, a' = .ended r → r.durationMs = elapsed since clock := by
  cases h with
  | skip hi => cases hi
  | stop hi => cases hi
  | unqueued hi hq => exact ⟨ha, fun r hr => by cases hr⟩
  | unset hi hq hx => exact ⟨ha, fun r hr => by cases hr⟩
  | announce hi hq hx => exact ⟨ha, fun r hr => by cases hr⟩
  | unstarted hx => exact ⟨ha, fun r hr => by cases hr⟩
  | start hx => exact ⟨ha, fun r hr => by cases hr⟩
  | delta hf hs => exact ⟨ha, fun r hr => by cases hr⟩
  | «break» hf hs => exact ⟨ha, fun r hr => by cases hr⟩
  | complete | fail | lose | settle =>
    obtain rfl : _ = since := ha
    refine ⟨⟨hends _ rfl, Nat.le_refl _⟩, fun r hr => ?_⟩
    obtain rfl := Activity.ended.inj hr
    rfl

end Activity

/-! ## One run -/

/-- Whether a sequence could not be started, for want of a fresh generation
for each of its steps. -/
def EngineError.isUnready : EngineError → Bool
  | .unexpectedState _ _ | .missingGeneration _ => true
  | .actNotQueued _ _ | .patch _ => false

namespace Run

variable {reports : Reports} {w w' : World} {r r' : Run} {v : View} {clock : Nat} {u : Upshot}

/-- The run, where the store shows `v` of its act, comes to `u` if the steps
that run and all that follow end with their reports. A sequence that cannot
be started is not foretold. -/
def HeadsFor (reports : Reports) (r : Run) (v : View) (clock : Nat) (u : Upshot) : Prop :=
  let m : Standing := ⟨v, r.tally, elapsed r.startedAt clock⟩
  let rest (k : Nat) := Forecast.ofTurn r.act reports k (r.act.sequences.drop k)
  match r.control with
  | .ready => r.startedAt = clock ∧ r.tally = .zero ∧ u = Forecast.ofRun r.act reports v
  | .turn k => u = rest k m
  | .opening k records => u = rest k m ∧
    ∃ s, r.act.sequences[k]? = some s ∧ records.length ≤ s.steps.length
  | .running k since steps => r.startedAt ≤ since ∧ since ≤ clock ∧
    Timely since clock (reports k) steps ∧
    ∃ s, r.act.sequences[k]? = some s ∧ steps.length = s.steps.length ∧
      u = Forecast.ofRunning r.act reports k s { m with ms := elapsed r.startedAt since }
        (rest (k + 1))
  | .closed k tally => u = Forecast.ofClosed r.act k tally m (rest (k + 1))
  | .winding status k => u = Forecast.ofEnd r.act m status k
  | .aborting e => u = Forecast.ofAbort r.act m e ∨ e.isUnready
  | .done result => u = ⟨v, result⟩ ∨ ∃ e, result = .error e ∧ e.isUnready

/-- Step `j` of the running sequence, and how far it has come. -/
def stepAt? (r : Run) (j : Nat) : Option (PlacedStep × Activity) :=
  match r.control with
  | .running k _ steps => do
    let s ← r.act.sequences[k]?
    let step ← s.steps[j]?
    let activity ← steps[j]?
    return (⟨k, j, step⟩, activity)
  | _ => none

/-- The step at a position of the sequence that runs. -/
theorem stepAt?_eq_some {j : Nat} {p : PlacedStep} {a : Activity} :
    r.stepAt? j = some (p, a) ↔ ∃ k since steps s step, r.control = .running k since steps ∧
      r.act.sequences[k]? = some s ∧ s.steps[j]? = some step ∧ steps[j]? = some a ∧
      p = ⟨k, j, step⟩ := by
  unfold stepAt?
  split
  · rename_i k since steps hc
    simp only [Option.bind_eq_bind, Option.bind_eq_some_iff, Option.pure_def, Option.some.injEq,
      Prod.mk.injEq]
    constructor
    · rintro ⟨s, hs, step, hstep, b, hb, rfl, rfl⟩
      exact ⟨k, since, steps, s, step, hc, hs, hstep, hb, rfl⟩
    · rintro ⟨_, _, _, s, step, hc', hs, hstep, hb, rfl⟩
      cases hc.symm.trans hc'
      exact ⟨s, hs, step, hstep, a, hb, rfl, rfl⟩
  · rename_i hother
    constructor
    · intro h
      cases h
    · rintro ⟨k, since, steps, -, -, hc, -⟩
      exact absurd hc (hother k since steps)

/-- If step `j` of the running sequence has ended, then with its report. -/
def EndsAs (reports : Reports) (r : Run) (j : Nat) : Prop :=
  ∀ p report, r.stepAt? j = some (p, .ended report) → report = reports p.sequence p.index

/-- Whether all steps of a sequence have been dispatched and some of them
have not ended. -/
def isOutstanding (r : Run) : Bool :=
  match r.control with
  | .running _ _ steps => steps.all (·.isDispatched) && steps.any (·.report?.isNone)
  | _ => false

/-- A batch goes as foretold, whether it is accepted or not. -/
theorem headsFor_of_send {patches : List Patch} {next : Run → Run} {go : Standing → Upshot}
    (h : send w r patches next = (w', r'))
    (hu : u = Forecast.ofSend r.act
      ⟨w.store.view r.act.id, r.tally, elapsed r.startedAt w.clock⟩ patches go)
    (hnext : ∀ v, (next (r.record [.batch patches none])).HeadsFor reports v w.clock
      (go ⟨v, r.tally, elapsed r.startedAt w.clock⟩)) :
    r'.HeadsFor reports (w'.store.view r.act.id) w'.clock u := by
  have hview := w.store.view_apply r.act.id patches
  rcases send_eq h with ⟨store, happly, rfl, rfl⟩ | ⟨e, happly, rfl, rfl⟩
  · rw [happly] at hview
    rw [hu, Forecast.ofSend, hview]
    exact hnext _
  · rw [happly] at hview
    rw [hu, Forecast.ofSend, hview]
    exact Or.inl rfl

/-- What is forecast for a turn, with the sequence at hand. -/
theorem ofTurn_drop {k : Nat} {s : Sequence} (h : r.act.sequences[k]? = some s) (m : Standing) :
    Forecast.ofTurn r.act reports k (r.act.sequences.drop k) m =
      Forecast.ofSend r.act m (Batch.opening k s) fun m =>
        Forecast.ofRunning r.act reports k s m
          (Forecast.ofTurn r.act reports (k + 1) (r.act.sequences.drop (k + 1))) := by
  obtain ⟨hk, rfl⟩ := List.getElem?_eq_some_iff.mp h
  rw [List.drop_eq_getElem_cons hk]
  rfl

/-- A move of the run itself makes the forecast true. -/
theorem Led.headsFor (h : Led w r w' r') (hi : r.isCancelled = false)
    (hstart : r.startedAt ≤ w.clock) (hu : r.HeadsFor reports (w.store.view r.act.id) w.clock u) :
    r'.HeadsFor reports (w'.store.view r.act.id) w'.clock u := by
  cases h with
  | refuse hc hs =>
    simp only [HeadsFor, hc, Forecast.ofRun, hs] at hu
    exact Or.inl hu.2.2
  | begin hc hs hsend =>
    simp only [HeadsFor, hc, Forecast.ofRun, hs] at hu
    obtain ⟨hstart, htally, hu⟩ := hu
    refine headsFor_of_send hsend ?_ fun v => rfl
    rw [htally, hstart, elapsed_self]
    exact hu
  | skip hc hk hcancelled => simp [hi] at hcancelled
  | @enter k hc hk _ =>
    simp only [HeadsFor, hc] at hu
    exact ⟨hu, _, List.getElem?_eq_getElem hk, Nat.zero_le _⟩
  | complete hc hk =>
    simp only [HeadsFor, hc, List.drop_eq_nil_of_le hk] at hu
    exact hu
  | missing hc hs hstep hg => exact Or.inr rfl
  | unexpected hc hs hstep hg hstatus => exact Or.inr rfl
  | @found k records s step g hc hs hstep hg hstatus =>
    simp only [HeadsFor, hc] at hu
    have hlt : records.length < s.steps.length := (List.getElem?_eq_some_iff.mp hstep).1
    exact ⟨hu.1, s, hs, by simpa using Nat.succ_le_of_lt hlt⟩
  | @«open» k records s _ _ hc hs hall hsend =>
    simp only [HeadsFor, hc, ofTurn_drop hs] at hu
    obtain ⟨hu, s', hs', hle⟩ := hu
    obtain rfl := Option.some.inj (hs.symm.trans hs')
    refine headsFor_of_send hsend hu fun v => ⟨hstart, Nat.le_refl _, .of_waiting _ _ records, s,
      hs, ?_, rfl⟩
    rw [List.length_map]
    omega
  | @close k since steps s rs _ _ hc hs hreports hsend =>
    simp only [HeadsFor, hc] at hu
    obtain ⟨hstart, hsince, htimely, s', hs', hlength, hu⟩ := hu
    obtain rfl := Option.some.inj (hs.symm.trans hs')
    obtain rfl := Activity.eq_map_ended hreports
    -- the time of the sequence is that of its longest step, as the forecast has it
    have hlast := htimely.last rs rfl
    have hrs : reports.ofSequence k s = rs := by
      rw [List.length_map] at hlength
      rw [Reports.ofSequence, ← hlength, ← htimely.reports_eq]
    rw [Forecast.ofRunning, hrs, ← hlast, elapsed_add hstart hsince] at hu
    exact headsFor_of_send hsend hu fun v => rfl
  | @judge k tally hc =>
    simp only [HeadsFor, hc, Forecast.ofClosed] at hu
    -- the forecast looks at the tally in the same order: cancelled, failed, completed
    rcases r.judge_eq k tally with ⟨hj, hcancelled⟩ | ⟨hj, hz, hf⟩ | ⟨hj, hz, hf⟩
    · rw [if_pos (hcancelled.resolve_left (by simp [hi]))] at hu
      simp only [HeadsFor, goto_control, hj]
      exact hu
    · rw [if_neg (by omega), if_pos hf] at hu
      simp only [HeadsFor, goto_control, hj]
      exact hu
    · rw [if_neg (by omega), if_neg (by omega)] at hu
      simp only [HeadsFor, goto_control, hj]
      exact hu
  | finish hc ho hsend =>
    simp only [HeadsFor, hc] at hu
    subst ho
    exact headsFor_of_send (r := r.record _) hsend hu fun v => Or.inl rfl
  | @abort e w' r' hc hsend =>
    simp only [HeadsFor, hc] at hu
    refine hu.imp (fun hu => ?_) fun hready => ⟨e, rfl, hready⟩
    have hview := w.store.view_apply r.act.id (Batch.abort e (elapsed r.startedAt w.clock))
    rw [hu, Forecast.ofAbort, hview]
    rcases send_eq hsend with ⟨store, happly, rfl, rfl⟩ | ⟨e', happly, rfl, rfl⟩
    · rw [happly]
      rfl
    · rw [happly]
      rfl

/-- A move of a step by which it has not ended otherwise than with its
report. -/
theorem headsFor_of_stepMove {j : Nat} (h : r.stepMove w j = some (w', r'))
    (hi : r.isCancelled = false) (hends : r'.EndsAs reports j)
    (hu : r.HeadsFor reports (w.store.view r.act.id) w.clock u) :
    r'.HeadsFor reports (w'.store.view r.act.id) w'.clock u := by
  obtain ⟨k, since, steps, s, step, a, x, a', entries, hc, hs, hstep, ha, hadvance, rfl, rfl⟩ :=
    stepMove_eq h
  simp only [HeadsFor, hc] at hu
  obtain ⟨hstart, hsince, htimely, s', hs', hlength, hu⟩ := hu
  have hj : j < steps.length := (List.getElem?_eq_some_iff.mp ha).1
  obtain ⟨hontime, hlast⟩ := (Activity.advanced_of_advance (hi ▸ hadvance)).onTime
    (htimely.each j a ha) fun report hended => hends ⟨k, j, step⟩ report (stepAt?_eq_some.mpr
      ⟨k, since, _, s, step, rfl, hs, hstep, by rw [List.getElem?_set_self hj, hended], rfl⟩)
  exact ⟨hstart, hsince, htimely.set hj hontime hlast, s', hs',
    by rw [List.length_set, hlength], hu⟩

/-- Time passes while steps are outstanding. -/
theorem HeadsFor.wait (hu : r.HeadsFor reports v clock u) (h : r.isOutstanding) (ms : Nat) :
    r.HeadsFor reports v (clock + ms) u := by
  unfold isOutstanding at h
  cases hc : r.control with
  | running k since steps =>
    simp only [hc, Bool.and_eq_true, List.all_eq_true, List.any_eq_true,
      Option.isNone_iff_eq_none] at h
    simp only [HeadsFor, hc] at hu ⊢
    obtain ⟨hstart, hsince, htimely, hu⟩ := hu
    refine ⟨hstart, by omega, htimely.wait ms (fun record hmem => ?_) h.2, hu⟩
    cases h.1 _ hmem
  | _ => simp [hc] at h

end Run

namespace Scene

variable {reports : Reports} {c c' : Scene} {act : Act} {u : Upshot}

/-- What happens while every step that ends does so with its report. Others
do anything to the executor, and leave alone what the store shows of the
act; time passes while steps are outstanding. -/
inductive Plays (reports : Reports) : Scene → Scene → Prop
  | lead {w w' r r'} (h : Run.lead r w = some (w', r')) : Plays reports ⟨w, r⟩ ⟨w', r'⟩
  | step {w w' r r'} (j : Nat) (h : Run.stepMove r w j = some (w', r'))
    (hends : r'.EndsAs reports j) : Plays reports ⟨w, r⟩ ⟨w', r'⟩
  | others {w w' r} (hstore : w'.store.view r.act.id = w.store.view r.act.id)
    (hclock : w'.clock = w.clock) : Plays reports ⟨w, r⟩ ⟨w', r⟩
  | wait {w r} (ms : Nat) (h : r.isOutstanding) : Plays reports ⟨w, r⟩ ⟨w.after (.wait ms), r⟩

/-- The run of an act that nobody has cancelled comes to `u`. -/
structure HeadsFor (reports : Reports) (act : Act) (u : Upshot) (c : Scene) : Prop where
  act_eq : c.run.act = act
  isCancelled_eq : c.run.isCancelled = false
  /-- Times are taken from one clock, which does not run backwards. -/
  startedAt_le : c.run.startedAt ≤ c.world.clock
  run : c.run.HeadsFor reports (c.world.store.view act.id) c.world.clock u

theorem headsFor_begin (reports : Reports) (w : World) (act : Act) :
    (begin w act false).HeadsFor reports act (Forecast.ofRun act reports (w.store.view act.id)) :=
  ⟨rfl, rfl, Nat.le_refl _, rfl, rfl, rfl⟩

/-- Each thing that is played keeps heading for it. -/
theorem Plays.headsFor (h : Plays reports c c') (hu : c.HeadsFor reports act u) :
    c'.HeadsFor reports act u := by
  obtain ⟨rfl, hi, hstart, hrun⟩ := hu
  cases h with
  | lead h =>
    have hled := Run.led_of_lead h
    have hcontinues := hled.continues
    refine ⟨hcontinues.act_eq, hcontinues.isCancelled_eq.trans hi, ?_,
      hled.headsFor hi hstart hrun⟩
    exact hcontinues.startedAt_eq ▸ hled.clock_eq ▸ hstart
  | step j h hends =>
    have hrun' := Run.headsFor_of_stepMove h hi hends hrun
    obtain ⟨_, _, _, _, _, _, _, _, _, -, -, -, -, -, rfl, rfl⟩ := Run.stepMove_eq h
    exact ⟨rfl, hi, hstart, hrun'⟩
  | others hstore hclock =>
    refine ⟨rfl, hi, hclock ▸ hstart, ?_⟩
    rw [hstore, hclock]
    exact hrun
  | wait ms h => exact ⟨rfl, hi, Nat.le_add_right_of_le hstart, hrun.wait h ms⟩

theorem headsFor_of_plays (h : Relation.ReflTransGen (Plays reports) c c')
    (hu : c.HeadsFor reports act u) : c'.HeadsFor reports act u := by
  induction h with
  | refl => exact hu
  | tail _ hlast ih => exact hlast.headsFor ih

/-- A run that is over has come to its forecast, unless it found a
generation missing or not fresh. -/
theorem upshot_of_plays {w : World} {result : Except EngineError Outcome}
    (h : Relation.ReflTransGen (Plays reports) (begin w act false) c)
    (hdone : c.run.control = .done result)
    (hready : ∀ e, result = .error e → e.isUnready = false) :
    Forecast.ofRun act reports (w.store.view act.id) =
      ⟨c.world.store.view act.id, result⟩ := by
  have hrun := (headsFor_of_plays h (headsFor_begin reports w act)).run
  simp only [Run.HeadsFor, hdone] at hrun
  rcases hrun with hu | ⟨e, he, hunready⟩
  · exact hu
  · simp [hready e he] at hunready

end Scene

end Workflow
