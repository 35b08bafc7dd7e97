/-
Workflow.Proofs.Engine.Delivery — a step ends as its flight has told it.

A run launches at most one flight for each of its steps. `StepView.Delivered`
follows it: once the step has ended, every ending that the flight ever heard
is the one with which the step ended, whether the run was cancelled
meanwhile or not. So a result that was there before a stop is not lost.
-/
import Workflow.Proofs.Engine.StepView

namespace Workflow

/-- How a step ends that hears this, and what its generation's record
becomes. -/
def Signal.verdict? : Signal → Option (Status × GenerationStatus)
  | .delta _ => none
  | .completed _ => some (.completed, .completed)
  | .failed _ | .broken _ => some (.failed, .failed)

theorem Signal.isEnding_of_verdict? {s : Signal} {e : Status × GenerationStatus}
    (h : s.verdict? = some e) : s.isEnding := by
  cases s <;> first | rfl | cases h

/-- Signals tell of completion or of failure. -/
theorem Signal.verdict?_eq {s : Signal} {status : Status} {final : GenerationStatus}
    (h : s.verdict? = some (status, final)) :
    status = .completed ∧ final = .completed ∨ status = .failed ∧ final = .failed := by
  cases s <;> cases h
  · exact Or.inl ⟨rfl, rfl⟩
  · exact Or.inr ⟨rfl, rfl⟩
  · exact Or.inr ⟨rfl, rfl⟩

namespace Registry

variable {loaded x x' : Registry} {id key : GenerationId} {n m taken : Nat} {isStopped : Bool}

/-! ## Which flights are there -/

theorem target?_eq_some :
    x.target? n = some id ↔ ∃ f, x.flights[n]? = some f ∧ f.generation = id := by
  simp [target?]

/-- Changes of flights keep their generations. -/
theorem Edits.target?_eq_all {own : Nat → Prop} {heard : Signal → Prop}
    (h : Edits key own heard x x') (n : Nat) : x'.target? n = x.target? n := by
  induction h with
  | refl => rfl
  | put _ _ ih => exact ih
  | land _ ih => exact ih
  | modify _ _ hchange _ ih => rw [target?_modify hchange, ih]

/-- Calls on other generations do not change which flights a generation has. -/
theorem Apart.target?_iff (h : Apart id x x') :
    x'.target? n = some id ↔ x.target? n = some id := by
  simp only [target?_eq_some]
  exact exists_congr fun f => and_congr_left fun hf => h.flight_iff n f hf

theorem Works.target?_iff (h : Works id x x') :
    x'.target? n = some id ↔ x.target? n = some id := by
  induction h with
  | refl => exact .rfl
  | apart _ ha ih => exact ha.target?_iff.trans ih
  | delta _ text ih => rwa [(changes_delta text).target?_eq_all]
  | finish _ result now ih => rwa [(changes_finish result now).target?_eq_all]

/-- All that happens to a generation that is not in flight happens
elsewhere. -/
theorem Works.apart_of_free (h : Works id x x') (hfree : x.inFlight.get? id = none) :
    Apart id x x' := by
  induction h with
  | refl => exact .refl id x
  | apart _ ha ih => exact ih.trans ha
  | @delta r' h text ih => rwa [delta_of_free (h.idle hfree).2]
  | @finish r' h result now ih => rwa [finish_of_free (h.idle hfree).2]

/-- Storing a record touches no flight. -/
theorem flights_set {g : Generation} (h : x.set g = .ok x') : x'.flights = x.flights := by
  unfold Registry.set at h
  split at h
  · cases h
    rfl
  · split at h
    · cases h
    · cases h
      rfl

/-- A start adds one flight of the generation. -/
theorem target?_begin {isStreaming : Bool} {now : Timestamp}
    (h : x.begin id isStreaming now = .ok (x', n)) :
    x.target? n = none ∧ ∀ m, x'.target? m = if m = n then some id else x.target? m := by
  obtain ⟨y, g, hchanges, hlaunch⟩ := changes_begin h
  obtain rfl := congrArg Prod.fst hlaunch
  obtain rfl : y.flights.length = n := congrArg Prod.snd hlaunch
  refine ⟨?_, fun m => ?_⟩
  · rw [← hchanges.target?_eq_all]
    simp [target?]
  · rw [target?_launch, hchanges.target?_eq_all]

/-- The flight was launched for the generation since `loaded`. -/
structure LaunchedSince (loaded x : Registry) (id : GenerationId) (n : Nat) : Prop where
  not_loaded : loaded.target? n ≠ some id
  target_eq : x.target? n = some id

/-- A flight that was launched since then has heard an ending of this
kind. -/
def Tells (loaded x : Registry) (id : GenerationId) (e : Status × GenerationStatus) : Prop :=
  ∃ n f s, LaunchedSince loaded x id n ∧ x.flights[n]? = some f ∧ s ∈ f.heard ∧
    s.verdict? = some e

/-- What flights of a generation tell is not changed from outside. -/
theorem Apart.tells (h : Apart id x x') {e : Status × GenerationStatus}
    (htells : Tells loaded x' id e) : Tells loaded x id e := by
  obtain ⟨n, f, s, hn, hf, hs, hverdict⟩ := htells
  obtain ⟨f', hf', hid⟩ := target?_eq_some.mp hn.target_eq
  obtain rfl := Option.some.inj (hf.symm.trans hf')
  exact ⟨n, f, s, ⟨hn.not_loaded, h.target?_iff.mp hn.target_eq⟩, (h.flight_iff n f hid).mp hf, hs,
    hverdict⟩

end Registry

/-! ## What a flight has heard -/

open Registry

section

variable {x : Registry} {id : GenerationId} {n taken : Nat} {isStopped : Bool}

/-- The ending that a step hears is the only one of its flight. -/
theorem Flying.eq_of_ending {f : Flight} {s t : Signal} (h : Flying x id n taken isStopped)
    (hf : x.flights[n]? = some f) (hs : f.heard[taken]? = some s) (hending : s.isEnding)
    (ht : t ∈ f.heard) (ht' : t.isEnding) : t = s := by
  have hnot {heard : List Signal} {u : Signal} (hsilent : ∀ s ∈ heard, s.isEnding = false)
      (hu : u ∈ heard) (hending : u.isEnding) : False := by
    rw [hsilent u hu] at hending
    cases hending
  have hmem := List.mem_of_getElem? hs
  cases h with
  | live hlive hid htaken hstopped =>
    obtain rfl := Option.some.inj (hlive.flight_eq.symm.trans hf)
    exact (hnot hlive.silent ht ht').elim
  | @ended f' last hended hid hsilent hrunning htaken =>
    obtain rfl := Option.some.inj (hended.flight_eq.symm.trans hf)
    have hlast {u : Signal} (hu : u ∈ f'.heard ++ [last]) (hending : u.isEnding) : u = last :=
      List.mem_singleton.mp ((List.mem_append.mp hu).resolve_left fun hu => hnot hsilent hu hending)
    rw [hlast ht ht', hlast hmem hending]
  | stopped hstop hid hsilent hstopped =>
    obtain rfl := Option.some.inj (hstop.flight_eq.symm.trans hf)
    exact (hnot hsilent ht ht').elim

/-- A flight of which nothing more can be heard has heard no ending. -/
theorem Flying.silent_of_silence {f : Flight} {t : Signal} (h : Flying x id n taken isStopped)
    (hf : x.flights[n]? = some f) (hs : f.heard[taken]? = none)
    (hopen : (f.isOpen && (f.isStreaming || !isStopped)) = false) (ht : t ∈ f.heard) :
    t.isEnding = false := by
  cases h with
  | live hlive hid htaken hstopped =>
    obtain rfl := Option.some.inj (hlive.flight_eq.symm.trans hf)
    exact hlive.silent t ht
  | ended hended hid hsilent hrunning htaken =>
    rcases hended.next htaken hf with ⟨hlt, heq⟩ | heq
    · rw [heq, List.getElem?_eq_getElem hlt] at hs
      cases hs
    · rw [heq] at hs
      cases hs
  | stopped hstop hid hsilent hstopped =>
    obtain rfl := Option.some.inj (hstop.flight_eq.symm.trans hf)
    exact hsilent t ht

end

/-! ## Views -/

/-- What the flights of a step at a place have told: none was launched before
the start, then there is one, and it told how the step has ended. -/
def Place.Delivered (loaded x : Registry) (id : GenerationId) (stored : Option Step) :
    Place → Prop
  | .ahead | .inside (.waiting _) | .inside (.announced _) => ∀ n, ¬ LaunchedSince loaded x id n
  | .inside (.flying _ n _ _) => LaunchedSince loaded x id n ∧
    ∀ m, LaunchedSince loaded x id m → m = n
  | .inside (.refused _ _) => ∀ e, Tells loaded x id e → e.1 = .failed
  | .inside (.ended report) => ∀ e, Tells loaded x id e → e.1 = report.outcome.status
  | .past => ∀ e, Tells loaded x id e → stored.map (·.status) = some e.1

section

variable {loaded x x' : Registry} {id : GenerationId} {stored : Option Step} {place : Place}

theorem Registry.LaunchedSince.of_iff {n : Nat}
    (h : x'.target? n = some id ↔ x.target? n = some id) (hn : LaunchedSince loaded x' id n) :
    LaunchedSince loaded x id n := ⟨hn.not_loaded, h.mp hn.target_eq⟩

/-- What is stored of the step counts only once it has run. -/
theorem Place.Delivered.congr {stored' : Option Step} (h : place.Delivered loaded x id stored)
    (hstored : place = .past → stored' = stored) : place.Delivered loaded x id stored' := by
  cases place with
  | ahead => exact h
  | past => rwa [hstored rfl]
  | inside b => cases b <;> exact h

/-- The work of the step may change what it is told only while it listens. -/
theorem Place.Delivered.works (h : place.Delivered loaded x id stored) (hworks : Works id x x')
    (hfree : (∀ since n taken isStopped, place ≠ .inside (.flying since n taken isStopped)) →
      x.inFlight.get? id = none) : place.Delivered loaded x' id stored := by
  have hlaunched {n : Nat} (hn : LaunchedSince loaded x' id n) : LaunchedSince loaded x id n :=
    hn.of_iff hworks.target?_iff
  have htells (hfree : x.inFlight.get? id = none) {e : Status × GenerationStatus}
      (he : Tells loaded x' id e) : Tells loaded x id e := (hworks.apart_of_free hfree).tells he
  cases place with
  | ahead => exact fun n hn => h n (hlaunched hn)
  | past => exact fun e he => h e (htells (hfree (by simp)) he)
  | inside b =>
    cases b with
    | waiting record => exact fun n hn => h n (hlaunched hn)
    | announced since => exact fun n hn => h n (hlaunched hn)
    | flying since n taken isStopped =>
      obtain ⟨hn, honly⟩ := h
      exact ⟨hn.of_iff hworks.target?_iff.symm, fun m hm => honly m (hlaunched hm)⟩
    | refused since message => exact fun e he => h e (htells (hfree (by simp)) he)
    | ended report => exact fun e he => h e (htells (hfree (by simp)) he)

end

namespace Activity

variable {loaded : Registry} {x x' : Executor} {g : Generation} {p : PlacedStep} {clock : Nat}
  {isCancelled : Bool} {b b' : Activity} {journal es : List Entry} {stored : Option Step}

/-- A stop, accepted or not, adds no flight. -/
theorem target?_stop {id : GenerationId} {now : Timestamp} (n : Nat) :
    ((x.stop id now).toOption.getD x).registry.target? n = x.registry.target? n := by
  cases hstop : x.stop id now with
  | error e => rfl
  | ok y =>
    obtain ⟨r, wasLive, hr, rfl⟩ := Executor.stop_eq hstop
    exact (changes_stop hr).target?_eq_all n

/-- Recording a failure touches no flight. -/
theorem flights_recordFailure {id : GenerationId} {message : String} {now : Timestamp}
    (h : recordFailure x id message now = (x', es)) : x'.registry.flights = x.registry.flights := by
  rcases recordFailure_eq h with ⟨rfl, -⟩ | ⟨failed, rfl, -⟩
  · rfl
  · cases hset : x.set failed with
    | error e => rfl
    | ok y =>
      obtain ⟨r, hr, rfl⟩ := Executor.set_eq hset
      exact flights_set hr

theorem target?_recordFailure {id : GenerationId} {message : String} {now : Timestamp}
    (h : recordFailure x id message now = (x', es)) (n : Nat) :
    x'.registry.target? n = x.registry.target? n := by
  rw [Registry.target?, Registry.target?, flights_recordFailure h]

/-- The flights of a generation stay its flights when its step moves. -/
theorem Advanced.target? {n : Nat} (h : Advanced x clock isCancelled p b x' b' es)
    (hn : x.registry.target? n = some p.step.generation) :
    x'.registry.target? n = some p.step.generation := by
  cases h with
  | announce hi hq hx =>
    obtain ⟨r, hr, rfl⟩ := Executor.set_eq hx
    exact ((changes_set hr).target?_eq_all n).trans hn
  | @start since x' m hx =>
    obtain ⟨r, hr, rfl⟩ := Executor.start_eq hx
    obtain ⟨hfree, htarget⟩ := target?_begin hr
    have hne : n ≠ m := by
      rintro rfl
      cases hfree.symm.trans hn
    show r.target? n = _
    rw [htarget, if_neg hne]
    exact hn
  | stop hi => exact (target?_stop n).trans hn
  | settle hr => exact (target?_recordFailure hr n).trans hn
  | _ => exact hn

/-- A move of a step whose flights have told no more than it knows. -/
theorem Advanced.delivered (h : Advanced x clock isCancelled p b x' b' es)
    (hag : b.Agrees x.registry g journal p)
    (hkept : ∀ n, loaded.target? n = some p.step.generation →
      x.registry.target? n = some p.step.generation)
    (htold : (Place.inside b).Delivered loaded x.registry p.step.generation stored) :
    (Place.inside b').Delivered loaded x'.registry p.step.generation stored := by
  -- nothing was told where nothing was launched
  have hnone (hnot : ∀ n, ¬ LaunchedSince loaded x.registry p.step.generation n)
      (e : Status × GenerationStatus) : ¬ Tells loaded x.registry p.step.generation e :=
    fun ⟨n, _, _, hn, _⟩ => hnot n hn
  -- what is told of a flight that has heard an ending
  have hverdict {n taken : Nat} {isStopped : Bool} {f : Flight} {s : Signal}
      (hflying : Flying x.registry p.step.generation n taken isStopped)
      (honly : ∀ m, LaunchedSince loaded x.registry p.step.generation m → m = n)
      (hf : x.registry.flights[n]? = some f) (hs : f.heard[taken]? = some s) (hending : s.isEnding)
      {e : Status × GenerationStatus} (he : Tells loaded x.registry p.step.generation e) :
      s.verdict? = some e := by
    obtain ⟨m, f', t, hm, hf', ht, hverdict⟩ := he
    obtain rfl := honly m hm
    obtain rfl := Option.some.inj (hf.symm.trans hf')
    exact hflying.eq_of_ending hf hs hending ht (Signal.isEnding_of_verdict? hverdict) ▸ hverdict
  cases h with
  | skip hi => exact fun e he => absurd he (hnone htold e)
  | unqueued hi hq => exact fun e he => absurd he (hnone htold e)
  | unset hi hq hx => exact fun e he => absurd he (hnone htold e)
  | announce hi hq hx =>
    obtain ⟨r, hr, rfl⟩ := Executor.set_eq hx
    exact fun n hn => htold n (hn.of_iff (by rw [(changes_set hr).target?_eq_all]))
  | unstarted hx => exact fun e he => absurd he (hnone htold e)
  | @start since x' n hx =>
    obtain ⟨r, hr, rfl⟩ := Executor.start_eq hx
    obtain ⟨hfree, htarget⟩ := target?_begin hr
    refine ⟨⟨fun hn => ?_, ?_⟩, fun m hm => ?_⟩
    · cases hfree.symm.trans (hkept n hn)
    · show r.target? n = _
      rw [htarget, if_pos rfl]
    · by_contra hmn
      have hm' : r.target? m = some p.step.generation := hm.target_eq
      rw [htarget, if_neg hmn] at hm'
      exact htold m ⟨hm.not_loaded, hm'⟩
  | @stop since n taken hi =>
    obtain ⟨hn, honly⟩ := htold
    exact ⟨hn.of_iff (by rw [target?_stop]),
      fun m hm => honly m (hm.of_iff (by rw [target?_stop]))⟩
  | delta hf hsignal => exact htold
  | complete hf hsignal =>
    exact fun e he =>
      congrArg Prod.fst (Option.some.inj (hverdict hag.1 htold.2 hf hsignal rfl he)).symm
  | fail hf hsignal hm =>
    exact fun e he =>
      congrArg Prod.fst (Option.some.inj (hverdict hag.1 htold.2 hf hsignal rfl he)).symm
  | «break» hf hsignal =>
    exact fun e he =>
      congrArg Prod.fst (Option.some.inj (hverdict hag.1 htold.2 hf hsignal rfl he)).symm
  | lose hf hsignal hopen =>
    intro e ⟨m, f', t, hm, hf', ht, hverdict⟩
    obtain rfl := htold.2 m hm
    obtain rfl := Option.some.inj (hf.symm.trans hf')
    have hsilent := hag.1.silent_of_silence hf hsignal hopen ht
    rw [Signal.isEnding_of_verdict? hverdict] at hsilent
    cases hsilent
  | settle hr =>
    intro e ⟨n, f, s, hn, hf, hs, hverdict⟩
    rw [flights_recordFailure hr] at hf
    exact htold e ⟨n, f, s, hn.of_iff (by rw [target?_recordFailure hr]), hf, hs, hverdict⟩

end Activity

namespace StepView

variable {loaded : Registry} {g : Generation} {p : PlacedStep} {isCancelled : Bool}
  {v v' : StepView}

/-- The flights of a step that were launched since `loaded`, and what they
have told. -/
structure Delivered (loaded : Registry) (p : PlacedStep) (v : StepView) : Prop where
  kept : ∀ n, loaded.target? n = some p.step.generation →
    v.executor.registry.target? n = some p.step.generation
  told : v.place.Delivered loaded v.executor.registry p.step.generation v.stored

/-- Unless a step listens, its generation is not in flight. -/
theorem Agrees.entry_eq (h : v.Agrees g p)
    (hplace : ∀ since n taken isStopped, v.place ≠ .inside (.flying since n taken isStopped)) :
    v.executor.registry.inFlight.get? p.step.generation = none := by
  unfold Agrees at h
  cases hv : v.place with
  | ahead =>
    rw [hv] at h
    exact h.entry_eq
  | past =>
    rw [hv] at h
    obtain ⟨step, -, hsettled⟩ := h
    exact hsettled.entry_eq
  | inside b =>
    rw [hv] at h
    cases b with
    | waiting record => exact h.2.entry_eq
    | announced since => exact h.2.1
    | flying since n taken isStopped => exact absurd hv (hplace since n taken isStopped)
    | refused since message => exact h.2.1
    | ended report => exact Settled.entry_eq h

/-- The flights of a generation stay its flights. -/
theorem Next.target? (h : v.Next p isCancelled v') {n : Nat}
    (hn : v.executor.registry.target? n = some p.step.generation) :
    v'.executor.registry.target? n = some p.step.generation := by
  cases h with
  | stay hworks hjournal hes hplace hstored => exact hworks.target?_iff.mpr hn
  | enter hexecutor hjournal hes hplace hplace' => rwa [hexecutor]
  | leave hexecutor hjournal hes hplace hplace' hstored => rwa [hexecutor]
  | advance hadvance hjournal hplace hplace' =>
    exact (Activity.advanced_of_advance hadvance).target? hn

/-- Whatever happens, what was delivered to a step is what is recorded of it. -/
theorem Next.delivered (h : v.Next p isCancelled v') (hag : v.Agrees g p)
    (hd : v.Delivered loaded p) : v'.Delivered loaded p := by
  obtain ⟨hkept, htold⟩ := hd
  refine ⟨fun n hn => h.target? (hkept n hn), ?_⟩
  cases h with
  | stay hworks hjournal hes hplace hstored =>
    rw [hplace]
    exact (htold.works hworks hag.entry_eq).congr hstored
  | enter hexecutor hjournal hes hplace hplace' =>
    rw [hplace] at htold
    rw [hplace', hexecutor]
    exact htold
  | @leave report es hexecutor hjournal hes hplace hplace' hstored =>
    rw [hplace] at htold
    rw [hplace', hexecutor, hstored]
    exact fun e he => congrArg some (htold e he).symm
  | advance hadvance hjournal hplace hplace' =>
    rw [hplace] at htold
    unfold Agrees at hag
    rw [hplace] at hag
    have htold' : (Place.inside _).Delivered loaded _ _ v'.stored := htold.congr (by simp)
    exact hplace' ▸ (Activity.advanced_of_advance hadvance).delivered hag hkept htold'

end StepView

end Workflow
