/-
Workflow.Proofs.Engine.Race — the end of a step's work against the
cancellation of its run.

An end has two parts: the record becomes final and the entry goes, and then
the flight hears of it. A `Race` is a step that listens to the flight of work
that is not streamed, with the endings that are on record and not delivered
yet. In `Race.Next` the cancellation, the stop and the look at the flight that
comes after it may fall between the two parts, and others do as they like
elsewhere.

* `Race.ends_as_recorded` — a step ends as its generation's record says, if
  after its stop it looks only once every ending on record was delivered.
* `Race.completion_lost` — one that looks between the two parts ends
  cancelled, with a completed record.
-/
import Workflow.Proofs.Engine.Agreement

namespace Workflow

open Registry

/-- One step between its engine, those who do its work, and whoever may cancel
it. -/
structure Race where
  executor : Executor
  activity : Activity
  isCancelled : Bool
  /-- The endings on record that are still to be delivered. -/
  pending : List Delivery

/-- The record of the generation says how the step has ended. -/
def StepOutcome.IsRecorded (x : Registry) (id : GenerationId) : StepOutcome → Prop
  | .completed => x.HasStatus id .completed
  | .failed message => ∃ g, x.get? id = some g ∧ g.status = .failed ∧ g.error = some message
  | .cancelled => x.HasStatus id .cancelled

/-- Whether an outcome is on record is seen from the record alone. -/
theorem StepOutcome.isRecorded_congr {x x' : Registry} {id : GenerationId}
    (h : x'.get? id = x.get? id) {outcome : StepOutcome} :
    outcome.IsRecorded x' id ↔ outcome.IsRecorded x id := by
  cases outcome with
  | completed => exact hasStatus_congr h
  | failed message => simp only [IsRecorded, h]
  | cancelled => exact hasStatus_congr h

namespace Race

abbrev registry (r : Race) : Registry := r.executor.registry

def withRegistry (r : Race) (x : Registry) : Race :=
  { r with executor := { r.executor with registry := x } }

/-- The work of a step was started, at a time. -/
def started (x : Executor) (since n : Nat) : Race := ⟨x, .flying since n 0 false, false, []⟩

/-- What can happen, if the step moves only when it may. -/
inductive Next (p : PlacedStep) (mayMove : Race → Bool) (r : Race) : Race → Prop where
  /-- The step makes its move, if it may. -/
  | step {clock : Nat} {x : Executor} {b : Activity} {es : List Entry} (hmay : mayMove r)
    (h : r.activity.advance r.executor clock r.isCancelled p = some (x, b, es)) :
    Next p mayMove r { r with executor := x, activity := b }
  /-- The token fires. -/
  | cancel : Next p mayMove r { r with isCancelled := true }
  /-- The work sends a text. -/
  | delta (text : String) :
    Next p mayMove r (r.withRegistry (r.registry.delta p.step.generation text).1)
  /-- The work ends; what is to be heard of it is delivered later. -/
  | resolve (result : WorkResult) (now : Timestamp) :
    Next p mayMove r { r.withRegistry (r.registry.resolve p.step.generation result now).1 with
      pending := r.pending ++ (r.registry.resolve p.step.generation result now).2.toList }
  /-- An ending on record reaches its flight. -/
  | deliver {d : Delivery} (hd : d ∈ r.pending) :
    Next p mayMove r { r.withRegistry (r.registry.deliver d) with pending := r.pending.erase d }
  /-- Something happens to other generations. -/
  | elsewhere {x : Executor} (h : Apart p.step.generation r.registry x.registry) :
    Next p mayMove r { r with executor := x }

/-- Any number of moves. -/
def Reaches (p : PlacedStep) (mayMove : Race → Bool) : Race → Race → Prop :=
  Relation.ReflTransGen (Next p mayMove)

/-- Unless it was stopped while an ending is on its way, the step may move. -/
def heardAll (r : Race) : Bool :=
  match r.activity with
  | .flying _ _ _ true => r.pending.isEmpty
  | _ => true

/-! ## How the race stands

The cases follow the life of the flight. In each of them it is known what can
still be delivered, and what the step will make of it. -/

/-- The flight of work that is not streamed, at its start. -/
structure Awaits (id : GenerationId) (f : Flight) : Prop where
  generation_eq : f.generation = id
  /-- Work that is not streamed hears its ending and nothing else. -/
  isStreaming_eq : f.isStreaming = false
  heard_eq : f.heard = []
  isOpen : f.isOpen
  running : f.record.status = .running

/-- How the flight of a step can stand: it is live, its ending is on the way or
has arrived, it was stopped, or the step has reported. -/
inductive Standing (id : GenerationId) (n : Nat) (f : Flight) (r : Race) : Prop where
  /-- Nothing has ended the work. -/
  | live {since : Nat} (hf : Live r.registry n f) (hpending : r.pending = [])
    (hactivity : r.activity = .flying since n 0 false)
  /-- The ending is on record and on its way. -/
  | owed {s : Signal} {since : Nat} {isStopped : Bool} (hf : Owed r.registry n f s)
    (hpending : r.pending = [⟨n, s⟩]) (hactivity : r.activity = .flying since n 0 isStopped)
  /-- The ending has arrived. -/
  | told {s : Signal} {since : Nat} {isStopped : Bool} (hf : Ended r.registry n f s)
    (hpending : r.pending = []) (hactivity : r.activity = .flying since n 0 isStopped)
  /-- A stop came first, so that no ending will arrive. -/
  | stopped {since : Nat} (hf : Stopped r.registry n f) (hpending : r.pending = [])
    (hactivity : r.activity = .flying since n 0 true)
  /-- The step has said how it ended, as it is on record. -/
  | reported {report : StepReport} (hentry : r.registry.inFlight.get? id = none)
    (hrecorded : report.outcome.IsRecorded r.registry id) (hpending : r.pending = [])
    (hactivity : r.activity = .ended report)

variable {p : PlacedStep} {mayMove : Race → Bool} {r r' : Race} {id : GenerationId} {n : Nat}
  {f : Flight}

/-! ## Moves of the step -/

/-- A step that has heard nothing is stopped, or else takes that for the
end. -/
theorem advanced_of_silence {x x' : Executor} {clock since : Nat} {isCancelled isStopped : Bool}
    {b : Activity} {es : List Entry} {f : Flight}
    (h : Activity.Advanced x clock isCancelled p (.flying since n 0 isStopped) x' b es)
    (hflight : x.registry.flights[n]? = some f) (hheard : f.heard = []) :
    isStopped = false ∧ x' = (x.stop p.step.generation (.ofMillis clock)).toOption.getD x ∧
        b = .flying since n 0 true ∨
      (f.isOpen && (f.isStreaming || !isStopped)) = false ∧ x' = x ∧
        ∃ ms, b = .ended ⟨.cancelled, ms⟩ := by
  cases h with
  | stop hi => exact Or.inl ⟨rfl, rfl, rfl⟩
  | lose hf hs hopen =>
    obtain rfl := Option.some.inj (hflight.symm.trans hf)
    exact Or.inr ⟨hopen, rfl, _, rfl⟩
  | delta hf hs =>
    obtain rfl := Option.some.inj (hflight.symm.trans hf)
    simp [hheard] at hs
  | complete hf hs =>
    obtain rfl := Option.some.inj (hflight.symm.trans hf)
    simp [hheard] at hs
  | fail hf hs hm =>
    obtain rfl := Option.some.inj (hflight.symm.trans hf)
    simp [hheard] at hs
  | «break» hf hs =>
    obtain rfl := Option.some.inj (hflight.symm.trans hf)
    simp [hheard] at hs

/-- The executor after a stop. -/
theorem registry_stop {x : Executor} {y : Registry} {now : Timestamp} {wasLive : Bool}
    (h : x.registry.stop id now = .ok (y, wasLive)) :
    ((x.stop id now).toOption.getD x).registry = y := by
  simp [Executor.stop, h, Except.map, Except.toOption]

/-- A step that was told how its work has ended goes by that. -/
theorem standing_of_told {x x' : Executor} {clock since : Nat} {isCancelled isStopped : Bool}
    {b : Activity} {es : List Entry} {s : Signal} (hf : Awaits p.step.generation f)
    (hended : Ended x.registry n f s)
    (h : Activity.Advanced x clock isCancelled p (.flying since n 0 isStopped) x' b es) :
    Standing p.step.generation n f ⟨x', b, isCancelled, []⟩ := by
  -- the first signal that the step can find is the one that tells of the end
  have hnext {f' : Flight} {t : Signal} (hf' : x.registry.flights[n]? = some f')
      (ht : f'.heard[0]? = some t) : t = s := by
    obtain rfl := Option.some.inj (hended.flight_eq.symm.trans hf')
    simpa [hf.heard_eq] using ht.symm
  have hcarries := hended.carries
  cases h with
  | stop hi =>
    -- the stop comes too late: the registry stays as it is
    have hstop := hended.stop hf.running (.ofMillis clock)
    rw [hf.generation_eq] at hstop
    refine .told (s := s) ?_ rfl rfl
    rwa [registry, registry_stop hstop]
  | delta hf' ht =>
    obtain rfl := hnext hf' ht
    exact hcarries.elim
  | complete hf' ht =>
    obtain rfl := hnext hf' ht
    obtain ⟨hrecord, hstatus⟩ := hcarries
    rw [hf.generation_eq] at hrecord
    have hrecorded : StepOutcome.completed.IsRecorded x.registry p.step.generation :=
      ⟨_, hrecord, hstatus⟩
    exact .reported (hf.generation_eq ▸ hended.entry_eq) hrecorded rfl rfl
  | fail hf' ht hm =>
    obtain rfl := hnext hf' ht
    obtain ⟨-, hrecord, hstatus, herror⟩ := hcarries
    obtain ⟨cause, hcause⟩ := Option.isSome_iff_exists.mp herror
    rw [hf.generation_eq] at hrecord
    rw [hcause, Option.getD_some] at hm
    have hrecorded : (StepOutcome.failed cause).IsRecorded x.registry p.step.generation :=
      ⟨_, hrecord, hstatus, hcause⟩
    exact .reported (hf.generation_eq ▸ hended.entry_eq) (hm ▸ hrecorded) rfl rfl
  | «break» hf' ht =>
    obtain rfl := hnext hf' ht
    cases hcarries.1.symm.trans hf.isStreaming_eq
  | lose hf' ht hopen =>
    obtain rfl := Option.some.inj (hended.flight_eq.symm.trans hf')
    simp [hf.heard_eq] at ht

/-- The step's own moves. -/
theorem Standing.step {clock : Nat} {x : Executor} {b : Activity} {es : List Entry}
    (h : Standing p.step.generation n f r) (hf : Awaits p.step.generation f) (hmay : r.heardAll)
    (hadvance : r.activity.advance r.executor clock r.isCancelled p = some (x, b, es)) :
    Standing p.step.generation n f { r with executor := x, activity := b } := by
  have hadvanced := Activity.advanced_of_advance hadvance
  obtain ⟨y, a, isCancelled, pending⟩ := r
  cases h with
  | live hlive hpending hactivity =>
    obtain rfl : a = _ := hactivity
    rcases advanced_of_silence hadvanced hlive.flight_eq hf.heard_eq with
      ⟨-, rfl, rfl⟩ | ⟨hopen, -, -⟩
    · obtain ⟨x', hstop, hstopped⟩ := hlive.stop (.ofMillis clock)
      rw [hf.generation_eq] at hstop
      refine .stopped ?_ hpending rfl
      rwa [registry, registry_stop hstop]
    · simp [hf.isOpen] at hopen
  | owed howed hpending hactivity =>
    obtain rfl : a = _ := hactivity
    rcases advanced_of_silence hadvanced howed.flight_eq hf.heard_eq with
      ⟨rfl, rfl, rfl⟩ | ⟨hopen, -, -⟩
    · have hstop := howed.carries.stop howed.entry_eq hf.running (.ofMillis clock)
      rw [hf.generation_eq] at hstop
      refine .owed ?_ hpending rfl
      rwa [registry, registry_stop hstop]
    · -- only a step that was stopped could look, and it has to wait
      simp only [hf.isOpen, hf.isStreaming_eq, Bool.true_and, Bool.false_or,
        Bool.not_eq_false'] at hopen
      subst hopen
      obtain rfl : pending = _ := hpending
      cases hmay
  | told hended hpending hactivity =>
    obtain rfl : a = _ := hactivity
    obtain rfl : pending = _ := hpending
    exact standing_of_told hf hended hadvanced
  | stopped hstopped hpending hactivity =>
    obtain rfl : a = _ := hactivity
    rcases advanced_of_silence hadvanced hstopped.flight_eq hf.heard_eq with
      ⟨h, -, -⟩ | ⟨-, rfl, ms, rfl⟩
    · cases h
    · exact .reported (hf.generation_eq ▸ hstopped.entry_eq)
        (hf.generation_eq ▸ hstopped.cancelled) hpending rfl
  | reported hentry hrecorded hpending hactivity =>
    obtain rfl : a = _ := hactivity
    cases hadvance

/-! ## Moves of others -/

/-- Cancelling the run changes nothing in the registry. -/
theorem Standing.cancel (h : Standing id n f r) :
    Standing id n f { r with isCancelled := true } := by
  cases h with
  | live hlive hpending hactivity => exact .live hlive hpending hactivity
  | owed howed hpending hactivity => exact .owed howed hpending hactivity
  | told hended hpending hactivity => exact .told hended hpending hactivity
  | stopped hstopped hpending hactivity => exact .stopped hstopped hpending hactivity
  | reported hentry hrecorded hpending hactivity =>
    exact .reported hentry hrecorded hpending hactivity

/-- Things that happen elsewhere. -/
theorem Standing.elsewhere {x : Executor} (h : Standing id n f r) (hf : Awaits id f)
    (hx : Apart id r.registry x.registry) : Standing id n f { r with executor := x } := by
  obtain rfl := hf.generation_eq
  cases h with
  | live hlive hpending hactivity => exact .live (hx.live hlive) hpending hactivity
  | owed howed hpending hactivity => exact .owed (hx.owed howed) hpending hactivity
  | told hended hpending hactivity => exact .told (hx.ended hended) hpending hactivity
  | stopped hstopped hpending hactivity => exact .stopped (hx.stopped hstopped) hpending hactivity
  | @reported report hentry hrecorded hpending hactivity =>
    refine .reported (hx.entry_eq.trans hentry) ?_ hpending hactivity
    exact (StepOutcome.isRecorded_congr hx.record_eq).mpr hrecorded

/-- Once the flight is over nothing comes of its work any more. -/
theorem Standing.entry_eq (h : Standing id n f r) (hf : Awaits id f) :
    (∃ since, Live r.registry n f ∧ r.pending = [] ∧ r.activity = .flying since n 0 false) ∨
      r.registry.inFlight.get? id = none := by
  obtain rfl := hf.generation_eq
  cases h with
  | live hlive hpending hactivity => exact Or.inl ⟨_, hlive, hpending, hactivity⟩
  | owed howed hpending hactivity => exact Or.inr howed.entry_eq
  | told hended hpending hactivity => exact Or.inr hended.entry_eq
  | stopped hstopped hpending hactivity => exact Or.inr hstopped.entry_eq
  | reported hentry hrecorded hpending hactivity => exact Or.inr hentry

/-- A result takes effect at most once, and its signal is on its way then. -/
theorem Standing.resolve (h : Standing id n f r) (hf : Awaits id f) (result : WorkResult)
    (now : Timestamp) :
    Standing id n f { r.withRegistry (r.registry.resolve id result now).1 with
      pending := r.pending ++ (r.registry.resolve id result now).2.toList } := by
  rcases h.entry_eq hf with ⟨since, hlive, hpending, hactivity⟩ | hentry
  · obtain ⟨x, s, hresolve, howed⟩ := hlive.resolve result now
    rw [hf.generation_eq] at hresolve
    rw [hresolve]
    refine .owed howed ?_ hactivity
    simp [hpending]
  · rw [resolve_of_free hentry, Option.toList_none, List.append_nil]
    exact h

/-- Text is heard while the flight is live. -/
theorem Standing.delta (h : Standing id n f r) (hf : Awaits id f) (text : String) :
    Standing id n f (r.withRegistry (r.registry.delta id text).1) := by
  rcases h.entry_eq hf with ⟨since, hlive, hpending, hactivity⟩ | hentry
  · have hdelta := hlive.delta_of_not_streaming hf.isStreaming_eq text
    rw [hf.generation_eq] at hdelta
    rw [hdelta]
    exact h
  · rw [delta_of_free hentry]
    exact h

/-- What is delivered is the ending of the flight. -/
theorem Standing.deliver {d : Delivery} (h : Standing id n f r) (hd : d ∈ r.pending) :
    Standing id n f { r.withRegistry (r.registry.deliver d) with
      pending := r.pending.erase d } := by
  cases h with
  | owed howed hpending hactivity =>
    rw [hpending, List.mem_singleton] at hd
    subst hd
    refine .told howed.deliver ?_ hactivity
    simp [hpending]
  | live hlive hpending hactivity => simp [hpending] at hd
  | told hended hpending hactivity => simp [hpending] at hd
  | stopped hstopped hpending hactivity => simp [hpending] at hd
  | reported hentry hrecorded hpending hactivity => simp [hpending] at hd

/-- Whatever happens, the flight stands in one of these ways. -/
theorem Next.standing (h : Next p heardAll r r') (hf : Awaits p.step.generation f)
    (hs : Standing p.step.generation n f r) : Standing p.step.generation n f r' := by
  cases h with
  | step hmay hadvance => exact hs.step hf hmay hadvance
  | cancel => exact hs.cancel
  | delta text => exact hs.delta hf text
  | resolve result now => exact hs.resolve hf result now
  | deliver hd => exact hs.deliver hd
  | elsewhere hx => exact hs.elsewhere hf hx

/-! ## Whole races -/

theorem Reaches.standing (h : Reaches p heardAll r r') (hf : Awaits p.step.generation f)
    (hs : Standing p.step.generation n f r) : Standing p.step.generation n f r' := by
  induction h with
  | refl => exact hs
  | tail _ hnext ih => exact hnext.standing hf ih

/-- **A step ends as its generation's record says**, whenever its work ends
and whenever its run is cancelled, if after its stop it looks only once all
that is on record was delivered. -/
theorem ends_as_recorded {x₀ x : Executor} {since : Nat} {now : Timestamp} {report : StepReport}
    (hstart : x₀.start p.step.generation false now = .ok (x, n))
    (hreach : Reaches p heardAll (started x since n) r) (hended : r.activity = .ended report) :
    report.outcome.IsRecorded r.registry p.step.generation := by
  obtain ⟨y, hbegin, rfl⟩ := Executor.start_eq hstart
  obtain ⟨f, hf, hlive⟩ : ∃ f, Awaits p.step.generation f ∧ Live y n f := by
    obtain ⟨g, hrunning, hlive⟩ := live_begin hbegin
    exact ⟨_, ⟨rfl, rfl, rfl, rfl, hrunning⟩, hlive⟩
  cases hreach.standing hf (.live hlive rfl rfl) with
  | reported hentry hrecorded hpending hactivity =>
    obtain rfl := Activity.ended.inj (hactivity.symm.trans hended)
    exact hrecorded
  | live hlive hpending hactivity => cases hactivity.symm.trans hended
  | owed howed hpending hactivity => cases hactivity.symm.trans hended
  | told hended' hpending hactivity => cases hactivity.symm.trans hended
  | stopped hstopped hpending hactivity => cases hactivity.symm.trans hended

/-! ## Schedules -/

/-- One thing that happens in a race. -/
inductive Move where
  | step (clock : Nat)
  | cancel
  | resolve (result : WorkResult)
  | deliver

/-- The race after a move, if it can happen. The oldest ending is delivered
first. -/
def after (p : PlacedStep) (mayMove : Race → Bool) (r : Race) : Move → Option Race
  | .step clock =>
    if mayMove r then
      (r.activity.advance r.executor clock r.isCancelled p).map fun (x, b, _) =>
        { r with executor := x, activity := b }
    else none
  | .cancel => some { r with isCancelled := true }
  | .resolve result =>
    let (x, d) := r.registry.resolve p.step.generation result .epoch
    some { r.withRegistry x with pending := r.pending ++ d.toList }
  | .deliver => r.pending.head?.map fun d =>
    { r.withRegistry (r.registry.deliver d) with pending := r.pending.erase d }

def play (p : PlacedStep) (mayMove : Race → Bool) (r : Race) : List Move → Option Race
  | [] => some r
  | m :: rest => (r.after p mayMove m).bind (play p mayMove · rest)

/-- A move of a schedule is one of those that can happen. -/
theorem next_of_after {m : Move} (h : r.after p mayMove m = some r') : Next p mayMove r r' := by
  cases m with
  | step clock =>
    simp only [after, Option.ite_none_right_eq_some, Option.map_eq_some_iff, Prod.exists] at h
    obtain ⟨hmay, x, b, es, hadvance, rfl⟩ := h
    exact .step hmay hadvance
  | cancel =>
    cases h
    exact .cancel
  | resolve result =>
    cases h
    exact .resolve result .epoch
  | deliver =>
    obtain ⟨d, hd, rfl⟩ := Option.map_eq_some_iff.mp h
    exact .deliver (List.mem_of_mem_head? hd)

/-- A schedule is one of the possible histories. -/
theorem reaches_of_play {moves : List Move} (h : r.play p mayMove moves = some r') :
    Reaches p mayMove r r' := by
  induction moves generalizing r with
  | nil =>
    cases h
    exact .refl
  | cons m rest ih =>
    obtain ⟨r₁, hr₁, hrest⟩ := Option.bind_eq_some_iff.mp h
    exact .head (next_of_after hr₁) (ih hrest)

/-! ## The search of a loaded sample -/

/-- The search of the sample, at its place. -/
def sampleSearch : PlacedStep :=
  ⟨0, 0, ⟨⟨"stp-1"⟩, ⟨"search"⟩, "Search", .query, ⟨"gnr-1"⟩, .queued, none⟩⟩

/-- Its generation is queued, -/
def sampleQueued : Option Executor := do
  let created ← Scene.sampleLoaded.executor.get? sampleSearch.step.generation
  let queued ← (created.queue .epoch).toOption
  (Scene.sampleLoaded.executor.set queued).toOption

/-- and started; what happens then is a schedule. -/
def sampleRace (mayMove : Race → Bool) (moves : List Move) :
    Option (Executor × Executor × Nat × Race) := do
  let x₀ ← sampleQueued
  match x₀.start sampleSearch.step.generation false .epoch with
  | .error _ => none
  | .ok (x, n) => return (x₀, x, n, ← (started x 0 n).play sampleSearch mayMove moves)

/-- Schedules lead to races of the step. -/
theorem reaches_of_sampleRace {mayMove : Race → Bool} {moves : List Move} {x₀ x : Executor}
    {n : Nat} {r : Race} (h : sampleRace mayMove moves = some (x₀, x, n, r)) :
    x₀.start sampleSearch.step.generation false .epoch = .ok (x, n) ∧
      Reaches sampleSearch mayMove (started x 0 n) r := by
  obtain ⟨y₀, -, h⟩ := Option.bind_eq_some_iff.mp h
  split at h
  · cases h
  · rename_i y m hstart
    obtain ⟨s, hplay, h⟩ := Option.bind_eq_some_iff.mp h
    cases h
    exact ⟨hstart, reaches_of_play hplay⟩

theorem sample_ends_as_recorded :
    ∃ (x₀ x : Executor) (n : Nat) (r : Race) (report : StepReport),
      x₀.start sampleSearch.step.generation false .epoch = .ok (x, n) ∧
      Reaches sampleSearch heardAll (started x 0 n) r ∧ r.activity = .ended report ∧
      (r.isCancelled ∧ report.outcome = .completed) ∧
      report.outcome.IsRecorded r.registry sampleSearch.step.generation := by
  -- the work ends before the run is cancelled; the flight hears of it after the stop
  have hplayed : ((sampleRace heardAll [.resolve (.ok []), .cancel, .step 5, .deliver,
      .step 5]).map fun (_, _, _, r) => (r.isCancelled, r.activity)) =
      some (true, .ended ⟨.completed, 5⟩) := by
    decide +kernel
  obtain ⟨⟨x₀, x, n, r⟩, hrace, hr⟩ := Option.map_eq_some_iff.mp hplayed
  obtain ⟨hcancelled, hended⟩ := Prod.mk.inj hr
  obtain ⟨hstart, hreach⟩ := reaches_of_sampleRace hrace
  exact ⟨x₀, x, n, r, _, hstart, hreach, hended, ⟨hcancelled, rfl⟩,
    ends_as_recorded hstart hreach hended⟩

/-- A step that looks at its flight between the two parts of the end of its
work ends cancelled, though the work has completed. -/
theorem completion_lost :
    ¬ ∀ (p : PlacedStep) (x₀ x : Executor) (n since : Nat) (now : Timestamp) (r : Race)
      (report : StepReport), x₀.start p.step.generation false now = .ok (x, n) →
      Reaches p (fun _ => true) (started x since n) r → r.activity = .ended report →
      report.outcome.IsRecorded r.registry p.step.generation := by
  intro hall
  have hplayed : ((sampleRace (fun _ => true) [.resolve (.ok []), .cancel, .step 5,
      .step 5]).map fun (_, _, _, r) => (r.activity,
        decide (r.registry.HasStatus ⟨"gnr-1"⟩ .completed),
        decide (r.registry.HasStatus ⟨"gnr-1"⟩ .cancelled))) =
      some (.ended ⟨.cancelled, 5⟩, true, false) := by
    decide +kernel
  obtain ⟨⟨x₀, x, n, r⟩, hrace, hr⟩ := Option.map_eq_some_iff.mp hplayed
  simp only [Prod.mk.injEq, decide_eq_true_eq, decide_eq_false_iff_not] at hr
  obtain ⟨hended, -, hnot⟩ := hr
  obtain ⟨hstart, hreach⟩ := reaches_of_sampleRace hrace
  exact hnot (hall sampleSearch x₀ x n 0 .epoch r _ hstart hreach hended)

end Race

end Workflow
