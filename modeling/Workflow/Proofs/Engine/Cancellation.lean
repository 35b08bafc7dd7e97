/-
Workflow.Proofs.Engine.Cancellation — what becomes of a run that is
cancelled, at any moment of it.

* `StepView.StopsOnce` — a generation is stopped at most once, and only
  after it was started; one that is in flight when the run is cancelled is
  stopped (`StepView.IsStopped`).
* `StepView.Dropped` — a step that has not looked at the token by then ends
  cancelled, and its generation stays as it was.
* `Run.begun`, `Run.Winds` — the sequences that have begun by then are the ones
  that run, and the act ends cancelled if the run has still to look at the
  token.
* `cancellation_accounted` — whole runs.
-/
import Workflow.Proofs.Engine.Delivery

namespace Workflow

open Registry

/-! ## Stops

A stop is an entry of the journal. A step makes at most one while its work is
in flight, and is not in flight again. -/

section

variable {journal es : List Entry} {id : GenerationId}

/-- Each stop of the generation comes after a start of it. -/
def StopsStarted (journal : List Entry) (id : GenerationId) : Prop :=
  ∀ before after, journal = before ++ .stop id :: after →
    ∃ isStreaming, .start id isStreaming ∈ before

/-- What comes after keeps stops behind starts, if it stops only what was
started. -/
theorem StopsStarted.append (h : StopsStarted journal id)
    (hes : .stop id ∈ es → ∃ isStreaming, .start id isStreaming ∈ journal) :
    StopsStarted (journal ++ es) id := by
  intro before after heq
  rcases List.append_eq_append_iff.mp heq with ⟨rest, rfl, hrest⟩ | ⟨rest, rfl, hrest⟩
  · -- the stop is one of the new entries
    obtain ⟨isStreaming, hstart⟩ := hes (by rw [hrest]; simp)
    exact ⟨isStreaming, List.mem_append_left _ hstart⟩
  · cases rest with
    | nil =>
      rw [List.nil_append] at hrest
      obtain ⟨isStreaming, hstart⟩ := hes (hrest ▸ List.mem_cons_self)
      exact ⟨isStreaming, by simpa using hstart⟩
    | cons e rest =>
      obtain ⟨rfl, -⟩ := List.cons.inj hrest
      exact h before rest rfl

end

/-- How often a step at a place may have been stopped. -/
def Place.Allows (stops : Nat) : Place → Prop
  | .ahead | .inside (.waiting _) | .inside (.announced _) => stops = 0
  | .inside (.flying _ _ _ isStopped) => stops = isStopped.toNat
  | .inside (.refused _ _) | .inside (.ended _) | .past => stops ≤ 1

/-- Whether a step at a place listens. -/
def Place.IsFlying : Place → Prop
  | .inside (.flying _ _ _ _) => True
  | _ => False

/-- No place allows more than one stop. -/
theorem Place.Allows.le_one {stops : Nat} {place : Place} (h : place.Allows stops) : stops ≤ 1 := by
  unfold Allows at h
  split at h
  · omega
  · omega
  · omega
  · exact h ▸ Bool.toNat_le _
  · exact h
  · exact h
  · exact h

namespace Activity

variable {x x' : Executor} {clock : Nat} {isCancelled : Bool} {p : PlacedStep} {b b' : Activity}
  {es : List Entry}

/-- A move of a step stops its generation only if that has not been done. -/
theorem Advanced.allows (h : Advanced x clock isCancelled p b x' b' es) {stops : Nat}
    (hb : (Place.inside b).Allows stops) :
    (Place.inside b').Allows (stops + es.count (.stop p.step.generation)) := by
  have hle := hb.le_one
  cases h with
  | settle hr =>
    rcases recordFailure_eq hr with ⟨-, rfl⟩ | ⟨failed, -, rfl⟩ <;> simpa [Place.Allows] using hle
  | stop hi =>
    obtain rfl : stops = 0 := hb
    simp [Place.Allows]
  | _ => simp_all [Place.Allows]

/-- Only a step that listens stops its generation, and it listens only after
a start. -/
theorem Advanced.isFlying (h : Advanced x clock isCancelled p b x' b' es) :
    (.stop p.step.generation ∈ es → (Place.inside b).IsFlying) ∧
      ((Place.inside b').IsFlying → (Place.inside b).IsFlying ∨
        ∃ isStreaming, .start p.step.generation isStreaming ∈ es) := by
  cases h with
  | settle hr =>
    rcases recordFailure_eq hr with ⟨-, rfl⟩ | ⟨failed, -, rfl⟩ <;> simp [Place.IsFlying]
  | _ => simp [Place.IsFlying]

/-- Sequences are announced by the run, not by their steps. -/
theorem Advanced.not_sequenceStart (h : Advanced x clock isCancelled p b x' b' es) {i : Nat}
    {s : Sequence} : .notice (.sequenceStart i s) ∉ es := by
  cases h with
  | settle hr => rcases recordFailure_eq hr with ⟨-, rfl⟩ | ⟨failed, -, rfl⟩ <;> simp
  | _ => simp

end Activity

namespace StepView

variable {loaded : Registry} {g : Generation} {p : PlacedStep} {isCancelled : Bool}
  {v v' : StepView}

/-- The step was stopped at most once, and not before it was started. -/
structure StopsOnce (p : PlacedStep) (v : StepView) : Prop where
  /-- There are as many stops as the place of the step allows. -/
  allows : v.place.Allows (v.journal.count (.stop p.step.generation))
  started : v.place.IsFlying → ∃ isStreaming, .start p.step.generation isStreaming ∈ v.journal
  /-- In the journal a stop comes after the start. -/
  after : StopsStarted v.journal p.step.generation

/-- What is written about other things changes nothing of that. -/
theorem StopsOnce.silent {es : List Entry} (hv : v.StopsOnce p)
    (hjournal : v'.journal = v.journal ++ es) (hes : ∀ e ∈ es, ¬ e.IsAbout p)
    (hallows : ∀ stops, v.place.Allows stops → v'.place.Allows stops)
    (hflies : v'.place.IsFlying → v.place.IsFlying) : v'.StopsOnce p := by
  have hnot : .stop p.step.generation ∉ es := fun hmem => hes _ hmem rfl
  refine ⟨hallows _ ?_, fun hflying => ?_, ?_⟩
  · rw [hjournal, List.count_append, List.count_eq_zero_of_not_mem hnot, Nat.add_zero]
    exact hv.allows
  · obtain ⟨isStreaming, hstart⟩ := hv.started (hflies hflying)
    exact ⟨isStreaming, hjournal ▸ List.mem_append_left _ hstart⟩
  · exact hjournal ▸ hv.after.append fun hmem => absurd hmem hnot

/-- Whatever happens, a step is stopped at most once, and after its start. -/
theorem Next.stopsOnce (h : v.Next p isCancelled v') (hv : v.StopsOnce p) : v'.StopsOnce p := by
  cases h with
  | stay hworks hjournal hes hplace hstored =>
    exact hv.silent hjournal hes (by rw [hplace]; exact fun _ => id) (by rw [hplace]; exact id)
  | enter hexecutor hjournal hes hplace hplace' =>
    refine hv.silent hjournal hes ?_ ?_
    · rw [hplace, hplace']
      exact fun _ => id
    · rw [hplace']
      exact False.elim
  | leave hexecutor hjournal hes hplace hplace' hstored =>
    refine hv.silent hjournal hes ?_ ?_
    · rw [hplace, hplace']
      exact fun _ => id
    · rw [hplace']
      exact False.elim
  | advance hadvance hjournal hplace hplace' =>
    obtain ⟨hallows, hstarted, hafter⟩ := hv
    have hadvanced := Activity.advanced_of_advance hadvance
    rw [hplace] at hallows hstarted
    obtain ⟨hstop, hflies⟩ := hadvanced.isFlying
    refine ⟨?_, ?_, hjournal ▸ hafter.append fun hmem => hstarted (hstop hmem)⟩
    · rw [hjournal, List.count_append, hplace']
      exact hadvanced.allows hallows
    · rw [hjournal, hplace']
      intro hflying
      -- the flight was started before, or by this move
      rcases hflies hflying with hflying | ⟨isStreaming, hstart⟩
      · obtain ⟨isStreaming, hstart⟩ := hstarted hflying
        exact ⟨isStreaming, List.mem_append_left _ hstart⟩
      · exact ⟨isStreaming, List.mem_append_right _ hstart⟩

/-! ## Steps in flight -/

/-- A step that listens and is to be stopped, or was stopped. -/
def IsStopped (p : PlacedStep) (v : StepView) : Prop :=
  (∃ since n taken, v.place = .inside (.flying since n taken false)) ∨
    v.journal.count (.stop p.step.generation) = 1

/-- In a run that was cancelled, a step that listens is stopped first. -/
theorem Next.isStopped (h : v.Next p true v') (hv : v.StopsOnce p) (hstopped : v.IsStopped p) :
    v'.IsStopped p := by
  have hle := (h.stopsOnce hv).allows.le_one
  obtain ⟨es, hjournal, -⟩ := h.journal
  rcases hstopped with ⟨since, n, taken, hflying⟩ | hcount
  · cases h with
    | stay hworks hjournal hes hplace hstored =>
      exact Or.inl ⟨since, n, taken, hplace.trans hflying⟩
    | enter hexecutor hjournal hes hplace hplace' => cases hflying.symm.trans hplace
    | leave hexecutor hjournal hes hplace hplace' hstored => cases hflying.symm.trans hplace
    | advance hadvance hjournal hplace hplace' =>
      obtain rfl := Place.inside.inj (hplace.symm.trans hflying)
      simp only [Activity.advance, Bool.not_false, Bool.and_self, if_true, Option.some.injEq,
        Prod.mk.injEq] at hadvance
      obtain ⟨-, -, rfl⟩ := hadvance
      have hallows := hv.allows
      rw [hplace] at hallows
      have hzero : v.journal.count (.stop p.step.generation) = 0 := hallows
      refine Or.inr ?_
      rw [hjournal, List.count_append, hzero]
      simp
  · refine Or.inr (Nat.le_antisymm hle ?_)
    rw [hjournal, List.count_append, hcount]
    exact Nat.le_add_right 1 _

/-! ## Steps that have not looked yet -/

/-- The step waits, or was cancelled without a dispatch. -/
structure Dropped (g : Generation) (p : PlacedStep) (v : StepView) : Prop where
  untouched : Untouched v.executor.registry g v.journal p
  place : v.place = .ahead ∨ (∃ record, v.place = .inside (.waiting record)) ∨
    v.place = .inside (.ended ⟨.cancelled, 0⟩) ∨
    v.place = .past ∧ v.stored = some (p.step.closed ⟨.cancelled, 0⟩)

/-- A dropped step is stored as cancelled, with no time. -/
theorem Dropped.stored_of_past (h : v.Dropped g p) (hpast : v.place = .past) :
    v.stored = some (p.step.closed ⟨.cancelled, 0⟩) := by
  have hplace := h.place
  simpa [hpast] using hplace

/-- Once the run is cancelled, a step that waits is dropped and nothing else. -/
theorem Next.dropped (h : v.Next p true v') (hv : v.Dropped g p) : v'.Dropped g p := by
  obtain ⟨hu, hplaces⟩ := hv
  cases h with
  | stay hworks hjournal hes hplace hstored =>
    refine ⟨hjournal ▸ (hu.works hworks).mono hes, ?_⟩
    rw [hplace]
    rcases hplaces with h | h | h | ⟨h, hs⟩
    · exact Or.inl h
    · exact Or.inr (Or.inl h)
    · exact Or.inr (Or.inr (Or.inl h))
    · exact Or.inr (Or.inr (Or.inr ⟨h, (hstored h).trans hs⟩))
  | enter hexecutor hjournal hes hplace hplace' =>
    exact ⟨hexecutor ▸ hjournal ▸ hu.mono hes, Or.inr (Or.inl ⟨_, hplace'⟩)⟩
  | leave hexecutor hjournal hes hplace hplace' hstored =>
    refine ⟨hexecutor ▸ hjournal ▸ hu.mono hes, Or.inr (Or.inr (Or.inr ⟨hplace', ?_⟩))⟩
    rw [hplace] at hplaces
    simp only [reduceCtorEq, Place.inside.injEq, exists_const, Activity.ended.injEq, false_and,
      or_false, false_or] at hplaces
    rw [hstored, hplaces]
  | advance hadvance hjournal hplace hplace' =>
    -- a step that waits is cancelled, and one that has ended makes no move
    rw [hplace] at hplaces
    rcases hplaces with h | ⟨record, h⟩ | h | ⟨h, -⟩
    · cases h
    · obtain rfl := Place.inside.inj h
      simp only [Activity.advance, if_true, Activity.endWith, Option.some.injEq,
        Prod.mk.injEq] at hadvance
      obtain ⟨hx, rfl, rfl⟩ := hadvance
      refine ⟨?_, Or.inr (Or.inr (Or.inl hplace'))⟩
      rw [← hx, hjournal]
      exact hu.mono (by simp [Entry.IsAbout])
    · obtain rfl := Place.inside.inj h
      simp [Activity.advance] at hadvance
    · cases h

/-! ## What is kept throughout -/

/-- What a run keeps to with a step, whether it is cancelled or not. -/
structure Traced (loaded : Registry) (p : PlacedStep) (v : StepView) : Prop where
  once : v.StopsOnce p
  delivered : v.Delivered loaded p
  launched : .stop p.step.generation ∈ v.journal →
    ∃ n, LaunchedSince loaded v.executor.registry p.step.generation n

/-- Whatever happens, a step leaves the trace that it should. -/
theorem Next.traced (h : v.Next p isCancelled v') (hag : v.Agrees g p) (hv : v.Traced loaded p) :
    v'.Traced loaded p := by
  obtain ⟨honce, hdelivered, hlaunched⟩ := hv
  refine ⟨h.stopsOnce honce, h.delivered hag hdelivered, fun hmem => ?_⟩
  have hold : ∃ n, LaunchedSince loaded v.executor.registry p.step.generation n := by
    obtain ⟨es, hjournal, hwritten⟩ := h.journal
    rw [hjournal, List.mem_append] at hmem
    rcases hmem with hmem | hnew
    · exact hlaunched hmem
    rcases hwritten with hsilent | ⟨b, clock, x, b', hplace, hadvanced⟩
    · exact absurd rfl (hsilent _ hnew)
    · -- the step stops its flight
      have hflying := hadvanced.isFlying.1 hnew
      have htold := hdelivered.told
      rw [hplace] at htold
      cases b with
      | flying since n taken isStopped => exact ⟨n, htold.1⟩
      | _ => exact hflying.elim
  obtain ⟨n, hn⟩ := hold
  exact ⟨n, hn.not_loaded, h.target? hn.target_eq⟩

/-- A step that has not had its turn has left no trace. -/
theorem traced_of_ahead (hplace : v.place = .ahead) (hjournal : v.journal = []) :
    v.Traced v.executor.registry p where
  once := ⟨by simp [hplace, hjournal, Place.Allows], by simp [hplace, Place.IsFlying], by
    intro before after heq
    simp [hjournal] at heq⟩
  delivered := ⟨fun n hn => hn, by
    rw [hplace]
    exact fun n hn => hn.not_loaded hn.target_eq⟩
  launched := by simp [hjournal]

/-- A step in flight has not been stopped yet. -/
theorem Agrees.isStopped (hag : v.Agrees g p)
    (hflight : v.executor.registry.isInFlight p.step.generation) : v.IsStopped p := by
  have hentry : v.executor.registry.inFlight.get? p.step.generation ≠ none := by
    intro hnone
    simp [isInFlight, Table.contains, hnone] at hflight
  obtain ⟨since, n, taken, isStopped, hplace⟩ : ∃ since n taken isStopped,
      v.place = .inside (.flying since n taken isStopped) := by
    by_contra hnot
    exact hentry (hag.entry_eq fun since n taken isStopped hplace =>
      hnot ⟨since, n, taken, isStopped, hplace⟩)
  unfold Agrees at hag
  rw [hplace] at hag
  obtain ⟨hflying, -⟩ := hag
  cases hflying with
  | live hlive hid htaken hstopped =>
    subst hstopped
    exact Or.inl ⟨since, n, taken, hplace⟩
  | ended hended hid => exact absurd (hid ▸ hended.entry_eq) hentry
  | stopped hstop hid => exact absurd (hid ▸ hstop.entry_eq) hentry

/-- A step that has not looked yet has not touched its generation. -/
theorem Agrees.dropped (hag : v.Agrees g p)
    (hplace : v.place = .ahead ∨ ∃ record, v.place = .inside (.waiting record)) :
    v.Dropped g p := by
  unfold Agrees at hag
  rcases hplace with hplace | ⟨record, hplace⟩
  · rw [hplace] at hag
    exact ⟨hag, Or.inl hplace⟩
  · rw [hplace] at hag
    exact ⟨hag.2, Or.inr (Or.inl ⟨record, hplace⟩)⟩

/-- What was told is on record, once the step has left its sequence or if it
never got there. -/
theorem Agrees.delivered (hag : v.Agrees g p) (hd : v.Delivered loaded p)
    (hplace : v.place = .ahead ∨ v.place = .past) {status : Status} {final : GenerationStatus}
    (htells : Tells loaded v.executor.registry p.step.generation (status, final)) :
    v.executor.registry.HasStatus p.step.generation final ∧
      ∃ step, v.stored = some step ∧ step.status = status := by
  have htold := hd.told
  unfold Agrees at hag
  rcases hplace with hplace | hplace
  · rw [hplace] at htold
    obtain ⟨n, -, -, hn, -⟩ := htells
    exact absurd hn (htold n)
  · rw [hplace] at htold hag
    obtain ⟨step, hstored, hsettled⟩ := hag
    have hstatus := htold _ htells
    rw [hstored, Option.map_some, Option.some.injEq] at hstatus
    refine ⟨?_, step, hstored, hstatus⟩
    obtain ⟨-, -, s, -, -, -, hverdict⟩ := htells
    rw [hstatus] at hsettled
    rcases Signal.verdict?_eq hverdict with ⟨rfl, rfl⟩ | ⟨rfl, rfl⟩
    · cases hsettled with
      | completed hentry hrecord => exact hrecord
    · cases hsettled with
      | failed hentry hrecord hstatus => exact ⟨_, hrecord, hstatus⟩

end StepView

/-! ## Sequences

Once the run is cancelled, it sees this at the latest when it looks for the
next sequence, so no other sequence begins. -/

namespace Run

/-- How many sequences have had their turn. -/
def begun (r : Run) : Nat :=
  match r.control with
  | .opening k _ | .running k _ _ | .closed k _ => k + 1
  | _ => r.ran

/-- The run has still to look whether it was cancelled, before a sequence or
after one. -/
def ChecksAgain (r : Run) : Prop :=
  match r.control with
  | .ready | .opening _ _ | .running _ _ _ | .closed _ _ => True
  | .turn k => k < r.act.sequences.length
  | .winding _ _ | .aborting _ | .done _ => False

/-- The step has still to look whether the run was cancelled. -/
def Unchecked (r : Run) (p : PlacedStep) : Prop :=
  r.place p = .ahead ∨ ∃ record, r.place p = .inside (.waiting record)

variable {w w' : World} {r r' : Run} {a stored : Act}

/-- A sequence has its turn only in a run that was not cancelled. -/
theorem Led.begun (h : Led w r w' r') (hact : r.act = a)
    (hget : w.store.get? a.id = some stored) (hrec : r.Recorded a stored) (hok : ¬ r'.HasFailed) :
    r'.begun = r.begun ∨ r.isCancelled = false ∧ r'.begun = r.begun + 1 := by
  cases h with
  | refuse hc hs => exact absurd trivial hok
  | begin hc hs hsend =>
    obtain ⟨new, -, -, rfl⟩ := updated_of_send hact hget hsend hok
    simp [Run.begun, ran, hc]
  | skip hc hk hi => simp [Run.begun, ran, hc]
  | enter hc hk hi => exact Or.inr ⟨hi, by simp [Run.begun, ran, hc]⟩
  | complete hc hk => simp [Run.begun, ran, hc]
  | missing hc hs hstep hg => exact absurd trivial hok
  | unexpected hc hs hstep hg hstatus => exact absurd trivial hok
  | found hc hs hstep hg hstatus => simp [Run.begun, hc]
  | «open» hc hs hall hsend =>
    obtain ⟨new, -, -, rfl⟩ := updated_of_send hact hget hsend hok
    simp [Run.begun, hc]
  | close hc hs hreports hsend =>
    obtain ⟨new, -, -, rfl⟩ := updated_of_send hact hget hsend hok
    simp [Run.begun, hc]
  | @judge k tally hc =>
    rcases r.judge_eq k tally with ⟨hj, -⟩ | ⟨hj, -⟩ | ⟨hj, -⟩ <;> simp [Run.begun, ran, hc, hj]
  | @finish status k outcome _ _ hc ho hsend =>
    subst ho
    obtain ⟨new, -, -, rfl⟩ := updated_of_send (r := r.record _) hact hget hsend hok
    simp only [Recorded, hc] at hrec
    obtain ⟨progress, hpaused, -⟩ := hrec
    have hlength := hpaused.length_sequences
    -- the outcome counts the sequences that were skipped, and so those that ran
    have hran : r.act.sequences.length - (r.act.sequences.length - k) = k := by
      rw [hact, hlength]
      omega
    simp [Run.begun, ran, hc, outcome, hran]
  | abort hc hsend => exact absurd trivial hok

/-- A notice after a batch was there before, or comes of the continuation. -/
theorem mem_journal_of_send {patches : List Patch} {next : Run → Run} {n : Notice} {P : Prop}
    (h : send w r patches next = (w', r'))
    (hnext : ∀ q : Run, .notice n ∈ (next q).journal → .notice n ∈ q.journal ∨ P)
    (hmem : .notice n ∈ r'.journal) : .notice n ∈ r.journal ∨ P := by
  rcases send_eq h with ⟨store, -, -, rfl⟩ | ⟨e, -, -, rfl⟩
  · exact (hnext _ hmem).imp_left (by simp)
  · exact Or.inl (by simpa using hmem)

/-- A sequence that is announced has had its turn. -/
theorem Led.sequenceStart (h : Led w r w' r') {i : Nat} {s : Sequence}
    (hmem : Entry.notice (.sequenceStart i s) ∈ r'.journal) :
    Entry.notice (.sequenceStart i s) ∈ r.journal ∨ i < r.begun := by
  cases h with
  | @«open» k records _ _ _ hc hs hall hsend =>
    refine mem_journal_of_send hsend (fun q hq => ?_) hmem
    rw [goto_journal, note_journal, List.mem_append, List.mem_singleton] at hq
    refine hq.imp_right fun heq => ?_
    obtain ⟨rfl, -⟩ : i = k ∧ _ := by simpa using heq
    simp [Run.begun, hc]
  | begin hc hs hsend =>
    exact mem_journal_of_send hsend (fun q hq => Or.inl (by simpa using hq)) hmem
  | close hc hs hreports hsend =>
    exact mem_journal_of_send hsend (fun q hq => Or.inl (by simpa using hq)) hmem
  | finish hc ho hsend =>
    have hold := mem_journal_of_send (P := i < r.begun) hsend
      (fun q hq => Or.inl (by simpa using hq)) hmem
    refine hold.imp_left fun hold => ?_
    rw [record_journal, List.mem_append] at hold
    refine hold.resolve_right fun hskip => ?_
    obtain ⟨s', -, heq⟩ := List.mem_map.mp hskip
    cases heq
  | abort hc hsend =>
    rw [goto_journal, note_journal, List.mem_append, List.mem_singleton] at hmem
    exact mem_journal_of_send hsend (fun q hq => Or.inl hq) (hmem.resolve_right (by simp))
  | _ => exact Or.inl hmem

/-- The run ends cancelled, or is to look whether it was. -/
def Winds (r : Run) : Prop :=
  match r.control with
  | .winding status _ => status = .cancelled
  | .done (.ok o) => o.status = .cancelled
  | _ => r.ChecksAgain

/-- A run that is to look whether it was cancelled will see that it was. -/
theorem winds_of_checksAgain (h : r.ChecksAgain) : r.Winds := by
  unfold Winds
  split
  · rename_i status k hc
    simp [ChecksAgain, hc] at h
  · rename_i o hc
    simp [ChecksAgain, hc] at h
  · exact h

/-- A run that was cancelled and looks for that goes no further. -/
theorem Led.winds (h : Led w r w' r') (hact : r.act = a) (hne : a.sequences ≠ [])
    (hget : w.store.get? a.id = some stored) (hi : r.isCancelled) (hok : ¬ r'.HasFailed)
    (hw : r.Winds) : r'.Winds := by
  cases h with
  | refuse hc hs => exact absurd trivial hok
  | begin hc hs hsend =>
    obtain ⟨new, -, -, rfl⟩ := updated_of_send hact hget hsend hok
    show 0 < r.act.sequences.length
    rw [hact]
    exact List.length_pos_iff.mpr hne
  | skip hc hk hi' => rfl
  | enter hc hk hi' =>
    rw [hi] at hi'
    cases hi'
  | complete hc hk =>
    simp only [Winds, ChecksAgain, hc] at hw
    omega
  | missing hc hs hstep hg => exact absurd trivial hok
  | unexpected hc hs hstep hg hstatus => exact absurd trivial hok
  | found hc hs hstep hg hstatus => trivial
  | «open» hc hs hall hsend =>
    obtain ⟨new, -, -, rfl⟩ := updated_of_send hact hget hsend hok
    trivial
  | close hc hs hreports hsend =>
    obtain ⟨new, -, -, rfl⟩ := updated_of_send hact hget hsend hok
    trivial
  | @judge k tally hc =>
    -- a cancelled run is wound up whatever its steps came to
    have hj : r.judge k tally = .winding .cancelled (k + 1) := by simp [Run.judge, hi]
    simp only [Winds, goto_control, hj]
  | @finish status k outcome _ _ hc ho hsend =>
    subst ho
    obtain ⟨new, -, -, rfl⟩ := updated_of_send (r := r.record _) hact hget hsend hok
    simp only [Winds, hc] at hw
    exact hw
  | abort hc hsend => exact absurd trivial hok

/-- Of a run with an outcome, those sequences have begun that were not
skipped. -/
theorem begun_of_done {o : Outcome} (hc : r.control = .done (.ok o)) : r.begun = r.ran := by
  simp [begun, hc]

theorem place_of_done {o : Outcome} (hc : r.control = .done (.ok o)) (p : PlacedStep) :
    r.place p = outside p r.ran := by
  simp [place, hc]

end Run

namespace Scene

variable {a : Act} {loaded : Registry} {c c' : Scene}

/-- Sequences begin one at a time, and only in a run that was not cancelled. -/
theorem Next.begun (h : Next (World.LeavesWork a) c c') (hag : c.Agrees loaded a)
    (hok : ¬ c'.run.HasFailed) :
    c'.run.begun = c.run.begun ∨
      c.run.isCancelled = false ∧ c'.run.begun = c.run.begun + 1 := by
  obtain ⟨hact, stored, hget, hrec⟩ := hag.shows
  cases h with
  | lead h => exact (Run.led_of_lead h).begun hact hget hrec hok
  | step j h =>
    obtain ⟨k, since, steps, _, _, _, _, b', _, hc, -, -, -, -, -, rfl⟩ := Run.stepMove_eq h
    exact Or.inl (by simp [Run.begun, hc])
  | cancel => exact Or.inl rfl
  | others h => exact Or.inl rfl

/-- Only sequences that have had their turn are announced. -/
theorem Next.sequenceStart (h : Next (World.LeavesWork a) c c') (hag : c.Agrees loaded a)
    (hok : ¬ c'.run.HasFailed)
    (hstarts : ∀ i s, .notice (.sequenceStart i s) ∈ c.run.journal → i < c.run.begun) (i : Nat)
    (s : Sequence) (hmem : .notice (.sequenceStart i s) ∈ c'.run.journal) :
    i < c'.run.begun := by
  have hle : c.run.begun ≤ c'.run.begun := by
    rcases h.begun hag hok with heq | ⟨-, heq⟩ <;> omega
  refine Nat.lt_of_lt_of_le ?_ hle
  cases h with
  | lead h => exact ((Run.led_of_lead h).sequenceStart hmem).elim (hstarts i s) id
  | step j h =>
    obtain ⟨k, since, steps, _, step, b, x, b', es, -, -, -, -, hadvance, -, rfl⟩ :=
      Run.stepMove_eq h
    rw [Run.goto_journal, Run.record_journal, List.mem_append] at hmem
    exact hmem.elim (hstarts i s) fun hnew =>
      absurd hnew (Activity.advanced_of_advance hadvance).not_sequenceStart
  | cancel => exact hstarts i s hmem
  | others h => exact hstarts i s hmem

/-- Once cancelled, a run ends cancelled. -/
theorem Next.winds (h : Next (World.LeavesWork a) c c') (hne : a.sequences ≠ [])
    (hag : c.Agrees loaded a) (hi : c.run.isCancelled) (hok : ¬ c'.run.HasFailed)
    (hw : c.run.Winds) : c'.run.Winds := by
  obtain ⟨hact, stored, hget, -⟩ := hag.shows
  cases h with
  | lead h => exact (Run.led_of_lead h).winds hact hne hget hi hok hw
  | step j h =>
    obtain ⟨_, _, _, _, _, _, _, _, _, -, -, -, -, -, -, rfl⟩ := Run.stepMove_eq h
    trivial
  | cancel => exact hw
  | others h => exact hw

/-! ## Whole runs -/

/-- What has become of a step of an act that was loaded with `loaded`, whose
run was cancelled in the scene `c₁` and is over in `c`. -/
structure StepAccount (loaded : Registry) (c₁ c : Scene) (stored : Act) (p : PlacedStep) :
    Prop where
  /-- No generation is stopped twice. -/
  stopped_once : c.run.journal.count (.stop p.step.generation) ≤ 1
  /-- What is stopped was started, with success. -/
  started : StopsStarted c.run.journal p.step.generation
  launched : .stop p.step.generation ∈ c.run.journal →
    ∃ n, LaunchedSince loaded c.world.executor.registry p.step.generation n
  /-- Work that was out when the run was cancelled is stopped. -/
  in_flight : c₁.world.executor.registry.isInFlight p.step.generation →
    c.run.journal.count (.stop p.step.generation) = 1
  /-- A step that had not looked at the cancellation before never starts
  its work. -/
  created : c₁.run.Unchecked p →
    c.world.executor.registry.HasStatus p.step.generation .created
  /-- If its sequence had begun, it is recorded as cancelled, and took no
  time. -/
  dropped : c₁.run.Unchecked p → p.sequence < c₁.run.begun →
    ∃ step, stored.step? p.sequence p.index = some step ∧ step.status = .cancelled ∧
      step.durationMs = some 0
  /-- An ending that was delivered stands on record, and is that of the step. -/
  delivered : ∀ status final,
    Tells loaded c.world.executor.registry p.step.generation (status, final) →
    c.world.executor.registry.HasStatus p.step.generation final ∧
      ∃ step, stored.step? p.sequence p.index = some step ∧ step.status = status

/-- What has become of an act and its steps. -/
structure CancelledAccount (loaded : Registry) (a : Act) (c₁ c : Scene) (stored : Act)
    (o : Outcome) : Prop where
  step : ∀ p, a.Has p → StepAccount loaded c₁ c stored p
  /-- The sequences that had begun are those that are not skipped. -/
  skipped : c₁.run.begun + o.skippedSequences = a.sequences.length
  /-- No sequence is begun after the cancellation. -/
  begun : ∀ i s, .notice (.sequenceStart i s) ∈ c.run.journal → i < c₁.run.begun
  /-- The act is cancelled if the run looks once more; after its last look
  the outcome is settled already. -/
  status : c₁.run.ChecksAgain → o.status = .cancelled ∧ stored.status = .cancelled

/-- A step from the cancellation of its run to the end of it. -/
theorem Reaches.stepAccount {stored : Act} {p : PlacedStep} {c₁ : Scene} {o : Outcome}
    (h : Reaches (World.LeavesWork a) ⟨c₁.world, c₁.run.cancel⟩ c) (hfresh : a.IsFresh)
    (hholds : loaded.Holds a) (hag₁ : c₁.Agrees loaded a) (hag : c.Agrees loaded a) (hp : a.Has p)
    (htraced₁ : (c₁.view a p).Traced loaded p) (hbegun : c.run.begun = c₁.run.begun)
    (hget : c.world.store.get? a.id = some stored) (hdone : c.run.control = .done (.ok o)) :
    StepAccount loaded c₁ c stored p := by
  have hok : ¬ c.run.HasFailed := by simp [Run.HasFailed, hdone]
  have hok₁ : ¬ c₁.run.HasFailed := h.hasFailed hok
  obtain ⟨g, hg, hcreated⟩ := hholds.created _ hp.mem_generations
  have hview₁ : (c₁.view a p).Agrees g p := hag₁.view hp hg hok₁
  have hag₂ : (⟨c₁.world, c₁.run.cancel⟩ : Scene).Agrees loaded a :=
    Next.cancel.agrees hfresh hholds hag₁
  obtain ⟨htraced, hstopped, hdropped⟩ := h.view_induct
    (I := fun v => v.Traced loaded p ∧
      (c₁.world.executor.registry.isInFlight p.step.generation → v.IsStopped p) ∧
      (c₁.run.Unchecked p → v.Dropped g p))
    hfresh hholds hag₂ hp hg hok ⟨htraced₁, hview₁.isStopped, hview₁.dropped⟩
    fun isCancelled v v' hi hag hnext hv => by
      obtain ⟨htraced, hstopped, hdropped⟩ := hv
      obtain rfl := hi rfl
      exact ⟨hnext.traced hag htraced, fun h => hnext.isStopped htraced.once (hstopped h),
        fun h => hnext.dropped (hdropped h)⟩
  -- by now its sequence is over, or was skipped
  have hview := hag.view hp hg hok
  have hplace : (c.view a p).place = Run.outside p c₁.run.begun := by
    rw [view_place, Run.place_of_done hdone, ← hbegun, Run.begun_of_done hdone]
  have hover : (c.view a p).place = .ahead ∨ (c.view a p).place = .past := by
    rw [hplace]
    exact (Run.outside_eq p _).symm
  have hstored : (c.view a p).stored = stored.step? p.sequence p.index := by
    simp [view, hget]
  refine ⟨htraced.once.allows.le_one, htraced.once.after, htraced.launched, fun hflight => ?_,
    fun hunchecked => ⟨g, (hdropped hunchecked).untouched.record_eq, hcreated⟩,
    fun hunchecked hlt => ?_, fun status final htells => ?_⟩
  · rcases hstopped hflight with ⟨since, n, taken, hflying⟩ | hcount
    · rcases hover with h | h <;> cases hflying.symm.trans h
    · exact hcount
  · have hpast : (c.view a p).place = .past := hplace.trans (Run.outside_of_lt hlt)
    have hclosed := (hdropped hunchecked).stored_of_past hpast
    exact ⟨_, hstored.symm.trans hclosed, rfl, rfl⟩
  · rw [← hstored]
    exact hview.delivered htraced.delivered hover htells

/-- **A cancelled run.** Whatever happens to a run up to a scene `c₁` in which
it is cancelled, and from there until it gives back an outcome: every step is
stopped at most once, and is if it is in flight in `c₁`, the steps that had
not looked at the token by then are dropped, what flights have told stands,
and no sequence begins any more. -/
theorem cancellation_accounted {staff : Staff} {before : List Deed} {w : World}
    {isCancelled : Bool} {c₁ : Scene} {o : Outcome}
    (hw : w = (World.fresh staff).afterAll before) (hfresh : a.IsFresh) (hne : a.sequences ≠ [])
    (hholds : w.executor.registry.Holds a) (hget : w.store.get? a.id = some a)
    (hbefore : Reaches (World.LeavesWork a) (begin w a isCancelled) c₁)
    (hafter : Reaches (World.LeavesWork a) ⟨c₁.world, c₁.run.cancel⟩ c)
    (hdone : c.run.control = .done (.ok o)) :
    ∃ stored, c.world.store.get? a.id = some stored ∧
      CancelledAccount w.executor.registry a c₁ c stored o := by
  have hsound : w.executor.registry.Sound :=
    hw ▸ World.afterAll_sound Registry.sound_empty before
  have hag₀ := agrees_begin hsound hholds hget isCancelled
  have hok : ¬ c.run.HasFailed := by simp [Run.HasFailed, hdone]
  have hok₁ : ¬ c₁.run.HasFailed := hafter.hasFailed hok
  -- the scene in which the run is cancelled
  obtain ⟨hag₁, hstarts₁⟩ := hbefore.induct_of_ok
    (P := fun d => ∀ i s, .notice (.sequenceStart i s) ∈ d.run.journal → i < d.run.begun)
    hfresh hholds hag₀ hok₁ (by simp [begin, Run.new])
    fun _ _ hd hag _ hok _ hstarts => hd.sequenceStart hag hok hstarts
  have hag₂ : (⟨c₁.world, c₁.run.cancel⟩ : Scene).Agrees w.executor.registry a :=
    Next.cancel.agrees hfresh hholds hag₁
  -- from there on nothing begins
  obtain ⟨hag, hstarts, hbegun, hwinds⟩ := hafter.induct_of_ok
    (P := fun d => (∀ i s, .notice (.sequenceStart i s) ∈ d.run.journal → i < d.run.begun) ∧
      d.run.begun = c₁.run.begun ∧ (c₁.run.ChecksAgain → d.run.Winds))
    hfresh hholds hag₂ hok ⟨hstarts₁, rfl, Run.winds_of_checksAgain⟩
    fun _ _ hd hag _ hok hi h => by
      obtain ⟨hstarts, hbegun, hwinds⟩ := h
      exact ⟨hd.sequenceStart hag hok hstarts,
        ((hd.begun hag hok).resolve_right fun h => by simp [hi rfl] at h).trans hbegun,
        fun hc => hd.winds hne hag (hi rfl) hok (hwinds hc)⟩
  obtain ⟨hact, stored, hstored, hrec⟩ := hag.shows
  refine ⟨stored, hstored, fun p hp => ?_, ?_, fun i s hmem => hbegun ▸ hstarts i s hmem,
    fun hc => ?_⟩
  · obtain ⟨g, hg, -⟩ := hholds.created _ hp.mem_generations
    have hahead : ((begin w a isCancelled).view a p).place = .ahead :=
      Run.outside_of_le (p := p) (Nat.zero_le p.sequence)
    have htraced₀ : ((begin w a isCancelled).view a p).Traced w.executor.registry p :=
      StepView.traced_of_ahead hahead rfl
    have htraced₁ := hbefore.view_induct (I := fun v => v.Traced w.executor.registry p)
      hfresh hholds hag₀ hp hg hok₁ htraced₀ fun _ _ _ _ hag hnext => hnext.traced hag
    exact hafter.stepAccount hfresh hholds hag₁ hag hp htraced₁ hbegun hstored hdone
  · have hagrees := hag.agrees stored hstored
    simp only [Run.Agrees, hdone] at hagrees
    obtain ⟨n, hn, -⟩ := hagrees
    have hran : c.run.ran = a.sequences.length - o.skippedSequences := by
      simp only [Run.ran, hdone, hact]
    rw [← hbegun, Run.begun_of_done hdone, hran]
    omega
  · have hstatus : o.status = .cancelled := by simpa only [Run.Winds, hdone] using hwinds hc
    simp only [Run.Recorded, hdone] at hrec
    obtain ⟨progress, hover⟩ := hrec
    refine ⟨hstatus, ?_⟩
    rw [hover.stored_eq]
    exact hstatus

/-- The search is started, -/
def sampleStart : List Happening := [.lead, .lead, .lead, .lead, .step 0, .step 0]

/-- and is stopped once the run is cancelled. -/
def sampleStop : List Happening := [.step 0, .deed (.wait 2), .step 0, .lead, .lead, .lead]

theorem sample_cancellation_accounted :
    sampleLoaded = (World.fresh (.workers Operation.all)).afterAll sampleLoading ∧
    Sample.blueprint.act.IsFresh ∧ Sample.blueprint.act.sequences ≠ [] ∧
    sampleLoaded.executor.registry.Holds Sample.blueprint.act ∧
    sampleLoaded.store.get? Sample.blueprint.act.id = some Sample.blueprint.act ∧
    ∃ c₁ c o, Reaches (World.LeavesWork Sample.blueprint.act)
        (begin sampleLoaded Sample.blueprint.act false) c₁ ∧
      Reaches (World.LeavesWork Sample.blueprint.act) ⟨c₁.world, c₁.run.cancel⟩ c ∧
      c.run.control = .done (.ok o) ∧
      (∃ id ∈ Sample.blueprint.act.generations,
        c₁.world.executor.registry.isInFlight id ∧ c.run.journal.count (.stop id) = 1) ∧
      ∃ stored, c.world.store.get? Sample.blueprint.act.id = some stored ∧
        CancelledAccount sampleLoaded.executor.registry Sample.blueprint.act c₁ c stored o := by
  have hget : sampleLoaded.store.get? Sample.blueprint.act.id = some Sample.blueprint.act := by
    decide +kernel
  have hne : Sample.blueprint.act.sequences ≠ [] := by decide +kernel
  have hplayed : (((begin sampleLoaded Sample.blueprint.act false).perform sampleStart).bind
      fun c₁ => (perform ⟨c₁.world, c₁.run.cancel⟩ sampleStop).bind fun c =>
        c.run.outcome?.map fun o => (c₁.world.executor.registry.isInFlight ⟨"gnr-1"⟩,
          c.run.journal.count (.stop ⟨"gnr-1"⟩), o)) =
      some (true, 1, ⟨Sample.blueprint.act.id, .cancelled, 2, 2, 0, 0, 1, 1⟩) := by
    decide +kernel
  simp only [Option.bind_eq_some_iff, Option.map_eq_some_iff, Prod.mk.injEq] at hplayed
  obtain ⟨c₁, hc₁, c, hc, o, houtcome, hflight, hcount, -⟩ := hplayed
  have hnone : ∀ d, .deed d ∈ sampleStart → ∀ w : World,
      w.LeavesWork Sample.blueprint.act (w.after d) := by
    intro d hd
    simp [sampleStart] at hd
  have hwaits : ∀ d, .deed d ∈ sampleStop → ∀ w : World,
      w.LeavesWork Sample.blueprint.act (w.after d) := by
    intro d hd w
    obtain rfl : d = .wait 2 := by simpa [sampleStop] using hd
    exact ⟨rfl, _, rfl, fun command h => by cases h⟩
  have hbefore := reaches_of_perform hnone hc₁
  have hafter := reaches_of_perform hwaits hc
  have hdone := Run.done_of_outcome? houtcome
  have hmem : (⟨"gnr-1"⟩ : GenerationId) ∈ Sample.blueprint.act.generations := by decide +kernel
  exact ⟨rfl, sample_fresh, hne, sample_holds, hget, c₁, c, o, hbefore, hafter, hdone,
    ⟨_, hmem, hflight, hcount⟩,
    cancellation_accounted rfl sample_fresh hne sample_holds hget hbefore hafter hdone⟩

end Scene

end Workflow
