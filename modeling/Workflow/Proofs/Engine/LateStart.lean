/-
Workflow.Proofs.Engine.LateStart — what is started after a run is cancelled.

A step looks at the token once. What follows (its generation is queued, the
observer is told, and only then its work is started) goes on even if the
token fires meanwhile. So after the cancellation exactly those steps are
started that had looked and were announced, each at its next move.

* `starts_after_cancel` — whole runs, whatever others do.
* `late_start` — the token fires while the observer is told of a step, and
  that step is started all the same.
-/
import Workflow.Proofs.Engine.StepView

namespace Workflow

/-- The step has looked at the token, and is about to be started. -/
def Run.IsAnnounced (r : Run) (p : PlacedStep) : Prop :=
  r.act.Has p ∧ ∃ since, r.place p = .inside (.announced since)

/-- The entry by which the run asks for the start of a step. -/
def PlacedStep.startEntry (p : PlacedStep) : Entry :=
  .start p.step.generation p.step.operation.isStreaming

namespace Activity

variable {x x' : Executor} {clock : Nat} {isCancelled : Bool} {p : PlacedStep} {b b' : Activity}
  {es : List Entry} {id : GenerationId} {isStreaming : Bool}

/-- In a cancelled run no step is announced any more. -/
theorem Advanced.not_announced (h : Advanced x clock true p b x' b' es) (since : Nat) :
    b' ≠ .announced since := by
  cases h with
  | announce hi hq hx => cases hi
  | _ => exact Activity.noConfusion

/-- A start is what an announced step does next, and no other step does it. -/
theorem Advanced.start_mem_iff (h : Advanced x clock isCancelled p b x' b' es) :
    .start id isStreaming ∈ es ↔
      (∃ since, b = .announced since) ∧ p.startEntry = .start id isStreaming := by
  cases h with
  | settle hr =>
    rcases recordFailure_eq hr with ⟨-, rfl⟩ | ⟨failed, -, rfl⟩ <;> simp
  | _ => simp [PlacedStep.startEntry, eq_comm]

end Activity

namespace Run

variable {w w' : World} {r r' : Run} {p : PlacedStep}

/-- A step is inside its sequence exactly when that runs. -/
theorem place_eq_inside {b : Activity} : r.place p = .inside b ↔
    ∃ since steps, r.control = .running p.sequence since steps ∧ steps[p.index]? = some b := by
  have houtside (n : Nat) : outside p n ≠ .inside b := by
    unfold outside
    split <;> exact Place.noConfusion
  constructor
  · intro h
    unfold place at h
    split at h
    · rename_i k since steps hc
      split at h
      · rename_i hk
        subst hk
        cases hb : steps[p.index]? with
        | none =>
          rw [hb] at h
          cases h
        | some b' =>
          rw [hb] at h
          exact ⟨since, steps, hc, hb.trans (congrArg some (Place.inside.inj h))⟩
      · exact absurd h (houtside k)
    · exact absurd h (houtside r.ran)
  · rintro ⟨since, steps, hc, hb⟩
    exact place_running hc rfl hb

/-- A batch that lets no step in announces none. -/
theorem place_ne_of_send {patches : List Patch} {next : Run → Run} {b : Activity}
    (h : send w r patches next = (w', r')) (hnext : ∀ q : Run, (next q).place p ≠ .inside b) :
    r'.place p ≠ .inside b := by
  rcases send_eq h with ⟨store, -, -, rfl⟩ | ⟨e, -, -, rfl⟩
  · exact hnext _
  · simp [place_eq_inside]

/-- The run itself moves on only when no step is about to be started, and
announces none. -/
theorem Led.not_announced (h : Led w r w' r') : ¬ r.IsAnnounced p ∧ ¬ r'.IsAnnounced p := by
  constructor
  · rintro ⟨-, since, hplace⟩
    obtain ⟨since', steps, hc, hb⟩ := place_eq_inside.mp hplace
    cases h with
    -- the only move inside a sequence comes when all steps have ended
    | close hc' hs hreports hsend =>
      cases hc.symm.trans hc'
      rw [Activity.eq_map_ended hreports, List.getElem?_map, Option.map_eq_some_iff] at hb
      obtain ⟨report, -, hreport⟩ := hb
      cases hreport
    | _ hc' => cases hc.symm.trans hc'
  · rintro ⟨-, since, hplace⟩
    revert hplace
    cases h with
    | begin hc hs hsend => exact place_ne_of_send hsend fun q => by simp [place_eq_inside]
    | «open» hc hs hall hsend =>
      refine place_ne_of_send hsend fun q => ?_
      rw [Ne, place_eq_inside]
      -- the steps of a sequence that opens wait
      rintro ⟨since', steps, hrun, hb⟩
      cases hrun
      rw [List.getElem?_map, Option.map_eq_some_iff] at hb
      obtain ⟨g, -, hg⟩ := hb
      cases hg
    | close hc hs hreports hsend => exact place_ne_of_send hsend fun q => by simp [place_eq_inside]
    | @judge k tally hc =>
      rcases r.judge_eq k tally with ⟨hj, -⟩ | ⟨hj, -⟩ | ⟨hj, -⟩ <;> simp [place_eq_inside, hj]
    | finish hc ho hsend => exact place_ne_of_send hsend fun q => by simp [place_eq_inside]
    | _ => simp [place_eq_inside]

/-- Nothing is about to be started in a run that is over. -/
theorem not_announced_of_result (h : r.result?.isSome) : ¬ r.IsAnnounced p := by
  rintro ⟨-, since, hplace⟩
  obtain ⟨since', steps, hc, -⟩ := place_eq_inside.mp hplace
  simp [result?, hc] at h

end Run

namespace Scene

variable {others : Interference} {c c' c'' : Scene} {es es' : List Entry}

/-- What is written between two scenes, by a run that was cancelled before,
starts only steps that are announced in the first of them, and all of them
that are not so any more in the second. -/
structure Starts (c c' : Scene) (es : List Entry) : Prop where
  journal_eq : c'.run.journal = c.run.journal ++ es
  /-- Only announced steps are started. -/
  announced : ∀ id isStreaming, .start id isStreaming ∈ es →
    ∃ p, c.run.IsAnnounced p ∧ p.startEntry = .start id isStreaming
  /-- No further step is announced, as the run was cancelled. -/
  back : ∀ p, c'.run.IsAnnounced p → c.run.IsAnnounced p
  /-- A step that is not announced any more was started. -/
  started : ∀ p, c.run.IsAnnounced p → c'.run.IsAnnounced p ∨ p.startEntry ∈ es

/-- A move that records nothing and announces nothing. -/
theorem Starts.nil (hjournal : c'.run.journal = c.run.journal)
    (hannounced : ∀ p, c'.run.IsAnnounced p ↔ c.run.IsAnnounced p) : Starts c c' [] where
  journal_eq := hjournal.trans (List.append_nil _).symm
  announced := by simp
  back := fun p => (hannounced p).mp
  started := fun p hp => Or.inl ((hannounced p).mpr hp)

/-- Moves after each other. -/
theorem Starts.trans (h : Starts c c' es) (h' : Starts c' c'' es') : Starts c c'' (es ++ es') where
  journal_eq := by rw [h'.journal_eq, h.journal_eq, List.append_assoc]
  announced := fun id isStreaming hmem => by
    rcases List.mem_append.mp hmem with hold | hnew
    · exact h.announced id isStreaming hold
    · obtain ⟨p, hp, heq⟩ := h'.announced id isStreaming hnew
      exact ⟨p, h.back p hp, heq⟩
  back := fun p hp => h.back p (h'.back p hp)
  started := fun p hp => by
    rcases h.started p hp with hp | hmem
    · exact (h'.started p hp).imp_right (List.mem_append_right _)
    · exact Or.inr (List.mem_append_left _ hmem)

/-- A move of a step of a cancelled run. -/
theorem starts_of_stepMove {w w' : World} {r r' : Run} {j : Nat}
    (h : r.stepMove w j = some (w', r')) (hi : r.isCancelled) :
    ∃ es, Starts ⟨w, r⟩ ⟨w', r'⟩ es := by
  obtain ⟨k, since, steps, s, step, b, y, b', es, hc, hs, hstep, hb, hadvance, rfl, rfl⟩ :=
    Run.stepMove_eq h
  rw [hi] at hadvance
  have hadvanced := Activity.advanced_of_advance hadvance
  have hp : r.act.Has ⟨k, j, step⟩ := by
    rw [Act.Has, Act.step?, hs]
    exact hstep
  have hlt := (List.getElem?_eq_some_iff.mp hb).1
  refine ⟨es, rfl, fun id isStreaming hmem => ?_, ?_, ?_⟩
  · obtain ⟨⟨since', rfl⟩, hentry⟩ := hadvanced.start_mem_iff.mp hmem
    exact ⟨_, ⟨hp, since', Run.place_eq_inside.mpr ⟨_, _, hc, hb⟩⟩, hentry⟩
  · rintro q ⟨hq, since', hplace⟩
    refine ⟨hq, since', Run.place_eq_inside.mpr ?_⟩
    obtain ⟨_, _, hc', hb'⟩ := Run.place_eq_inside.mp hplace
    cases hc'
    by_cases hj : j = q.index
    · -- the step that has moved is not announced
      rw [← hj, List.getElem?_set_self hlt] at hb'
      exact absurd (Option.some.inj hb') (hadvanced.not_announced since')
    · exact ⟨_, _, hc, (List.getElem?_set_ne hj).symm.trans hb'⟩
  · rintro q ⟨hq, since', hplace⟩
    obtain ⟨_, _, hc', hb'⟩ := Run.place_eq_inside.mp hplace
    cases hc.symm.trans hc'
    by_cases hj : j = q.index
    · -- it starts
      rw [← hj] at hb'
      have hmem : PlacedStep.startEntry ⟨q.sequence, j, step⟩ ∈ es :=
        hadvanced.start_mem_iff.mpr ⟨⟨since', Option.some.inj (hb.symm.trans hb')⟩, rfl⟩
      exact Or.inr (hp.eq hq rfl hj ▸ hmem)
    · exact Or.inl ⟨hq, since', Run.place_eq_inside.mpr
        ⟨_, _, rfl, (List.getElem?_set_ne hj).trans hb'⟩⟩

/-- Whatever happens in a cancelled run, only announced steps are started. -/
theorem Next.starts (h : Next others c c') (hi : c.run.isCancelled) : ∃ es, Starts c c' es := by
  cases h with
  | lead h =>
    have hled := Run.led_of_lead h
    obtain ⟨es, hes, hrun⟩ := hled.continues.journal
    refine ⟨es, hes, fun id isStreaming hmem => ?_, fun p hp => absurd hp hled.not_announced.2,
      fun p hp => absurd hp hled.not_announced.1⟩
    exact absurd (hrun _ hmem) (by simp [Entry.isOfRun])
  | step j h => exact starts_of_stepMove h hi
  | cancel => exact ⟨[], .nil rfl fun _ => .rfl⟩
  | others h => exact ⟨[], .nil rfl fun _ => .rfl⟩

/-- **Starts after the cancellation.** A run that is cancelled in a scene `c₁`
starts from there on only steps that are announced in `c₁`; if it comes to an
end, it starts all of them. -/
theorem starts_after_cancel {c₁ : Scene} (h : Reaches others ⟨c₁.world, c₁.run.cancel⟩ c) :
    ∃ es, c.run.journal = c₁.run.journal ++ es ∧
      (∀ id isStreaming, .start id isStreaming ∈ es →
        ∃ p, c₁.run.IsAnnounced p ∧ p.startEntry = .start id isStreaming) ∧
      (c.run.result?.isSome → ∀ p, c₁.run.IsAnnounced p → p.startEntry ∈ es) := by
  obtain ⟨-, es, hstarts⟩ : c.run.isCancelled ∧ ∃ es, Starts ⟨c₁.world, c₁.run.cancel⟩ c es := by
    refine h.induct (P := fun d => d.run.isCancelled ∧ ∃ es, Starts _ d es)
      ⟨rfl, [], .nil rfl fun _ => .rfl⟩ ?_
    rintro d d' hd ⟨hi, es, hes⟩
    obtain ⟨es', hes'⟩ := hd.starts hi
    exact ⟨hd.isCancelled hi, _, hes.trans hes'⟩
  refine ⟨es, hstarts.journal_eq, hstarts.announced, fun hover p hp => ?_⟩
  exact (hstarts.started p hp).resolve_left (Run.not_announced_of_result hover)

/-- The observer is told of the search, -/
def sampleAnnounced : List Happening := [.lead, .lead, .lead, .lead, .step 0]

/-- which is then started, and stopped at once. -/
def sampleLateStart : List Happening := [.step 0, .step 0, .step 0, .lead, .lead, .lead]

theorem sample_late : ∃ c₁ c : Scene,
    Reaches (World.LeavesWork Sample.blueprint.act)
      (begin sampleLoaded Sample.blueprint.act false) c₁ ∧
    Reaches (World.LeavesWork Sample.blueprint.act) ⟨c₁.world, c₁.run.cancel⟩ c ∧
    .start ⟨"gnr-1"⟩ false ∉ c₁.run.journal ∧ .start ⟨"gnr-1"⟩ false ∈ c.run.journal ∧
    c.run.result?.isSome := by
  have hplayed : (((begin sampleLoaded Sample.blueprint.act false).perform sampleAnnounced).bind
      fun c₁ => (perform ⟨c₁.world, c₁.run.cancel⟩ sampleLateStart).map fun c =>
        (c₁.run.journal.contains (.start ⟨"gnr-1"⟩ false),
          c.run.journal.contains (.start ⟨"gnr-1"⟩ false), c.run.result?.isSome)) =
      some (false, true, true) := by
    decide +kernel
  simp only [Option.bind_eq_some_iff, Option.map_eq_some_iff, Prod.mk.injEq,
    List.contains_eq_mem, decide_eq_true_eq, decide_eq_false_iff_not] at hplayed
  obtain ⟨c₁, hc₁, c, hc, hnot, hstart, hover⟩ := hplayed
  exact ⟨c₁, c, reaches_of_perform (by simp [sampleAnnounced]) hc₁,
    reaches_of_perform (by simp [sampleLateStart]) hc, hnot, hstart, hover⟩

theorem sample_starts_after_cancel :
    ∃ c₁ c : Scene, Reaches (World.LeavesWork Sample.blueprint.act) ⟨c₁.world, c₁.run.cancel⟩ c ∧
      (.start ⟨"gnr-1"⟩ false ∉ c₁.run.journal ∧ .start ⟨"gnr-1"⟩ false ∈ c.run.journal ∧
        c.run.result?.isSome) ∧
      ∃ es, c.run.journal = c₁.run.journal ++ es ∧
        (∀ id isStreaming, .start id isStreaming ∈ es →
          ∃ p, c₁.run.IsAnnounced p ∧ p.startEntry = .start id isStreaming) ∧
        (c.run.result?.isSome → ∀ p, c₁.run.IsAnnounced p → p.startEntry ∈ es) := by
  obtain ⟨c₁, c, -, hreach, hnot, hstart, hover⟩ := sample_late
  exact ⟨c₁, c, hreach, ⟨hnot, hstart, hover⟩, starts_after_cancel hreach⟩

/-- The token fires while the observer is told of a step, and the step is
started all the same. -/
theorem late_start :
    ¬ ∀ c₁ c : Scene,
      Reaches (World.LeavesWork Sample.blueprint.act)
        (begin sampleLoaded Sample.blueprint.act false) c₁ →
      Reaches (World.LeavesWork Sample.blueprint.act) ⟨c₁.world, c₁.run.cancel⟩ c →
      ∀ id isStreaming, .start id isStreaming ∈ c.run.journal →
        .start id isStreaming ∈ c₁.run.journal := by
  intro hnone
  obtain ⟨c₁, c, hbefore, hafter, hnot, hstart, -⟩ := sample_late
  exact hnot (hnone c₁ c hbefore hafter _ _ hstart)

end Scene

end Workflow
