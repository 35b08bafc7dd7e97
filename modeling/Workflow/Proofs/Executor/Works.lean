/-
Workflow.Proofs.Executor.Works — what may happen to a generation that
nobody else sets, starts or stops.

`Registry.Works id` is all that can happen to it then: things happen
elsewhere, and text and the end of its work come in. So a generation that is
not in flight stays as it is (`Works.idle`), one that is created stays
created, and no other one becomes so (`Works.created_iff`).
`Executor.run_works` says that no other command does more.
-/
import Workflow.Proofs.Executor.Sound
import Workflow.Proofs.Generation.Flights

namespace Workflow

namespace Registry

variable {r r' r'' : Registry} {id : GenerationId}

/-- Others are busy elsewhere, and work on the generation goes on. -/
inductive Works (id : GenerationId) (r : Registry) : Registry → Prop where
  | refl : Works id r r
  | apart {r' r'' : Registry} (h : Works id r r') (ha : Apart id r' r'') : Works id r r''
  | delta {r' : Registry} (h : Works id r r') (text : String) : Works id r (r'.delta id text).1
  | finish {r' : Registry} (h : Works id r r') (result : WorkResult) (now : Timestamp) :
    Works id r (r'.finish id result now).1

namespace Works

theorem of_apart (h : Apart id r r') : Works id r r' := .apart .refl h

/-- Work and more work. -/
theorem trans (h : Works id r r') (h' : Works id r' r'') : Works id r r'' := by
  induction h' with
  | refl => exact h
  | apart _ ha ih => exact ih.apart ha
  | delta _ text ih => exact ih.delta text
  | finish _ result now ih => exact ih.finish result now

/-- A generation that is not in flight has no work that could change it. -/
theorem idle (h : Works id r r') (hfree : r.inFlight.get? id = none) :
    r'.get? id = r.get? id ∧ r'.inFlight.get? id = none := by
  induction h with
  | refl => exact ⟨rfl, hfree⟩
  | apart _ ha ih => exact ⟨ha.record_eq.trans ih.1, ha.entry_eq.trans ih.2⟩
  | delta _ text ih => rwa [delta_of_free ih.2]
  | finish _ result now ih => rwa [finish_of_free ih.2]

end Works

/-! ## Generations that were never dispatched -/

/-- Only a record that was dispatched is made final, so that neither side of an end is created. -/
theorem not_created_of_settle {record final : Generation} {isStreaming : Bool}
    {result : WorkResult} {now : Timestamp} {s : Signal}
    (h : settle record isStreaming result now = .ok (some final, s)) :
    record.status ≠ .created ∧ final.status ≠ .created := by
  cases result with
  | ok outputs =>
    simp only [settle] at h
    cases hdone : record.complete outputs now with
    | error e => simp [hdone, bind, Except.bind] at h
    | ok done =>
      obtain ⟨hrunning, rfl⟩ := Generation.complete_eq hdone
      simp only [hdone, bind, Except.bind, pure, Except.pure, Except.ok.injEq, Prod.mk.injEq,
        Option.some.injEq] at h
      obtain ⟨rfl, -⟩ := h
      simp [hrunning]
  | error message =>
    simp only [settle] at h
    split at h
    · simp at h
    · cases hfailed : record.fail message now with
      | error e => simp [hfailed, bind, Except.bind] at h
      | ok failed =>
        obtain ⟨-, hsource, hfailed'⟩ := Generation.move_bind_eq hfailed
        simp only [hfailed, bind, Except.bind, pure, Except.pure, Except.ok.injEq,
          Prod.mk.injEq, Option.some.injEq] at h
        obtain ⟨rfl, -⟩ := h
        subst hfailed'
        refine ⟨?_, by simp⟩
        intro hcreated
        simp [hcreated] at hsource

/-- The end of its work does not tell whether a generation is created. -/
theorem hasStatus_created_finish (result : WorkResult) (now : Timestamp) :
    (r.finish id result now).1.HasStatus id .created ↔ r.HasStatus id .created := by
  unfold finish
  split
  · rename_i r' h
    unfold resolve at h
    split at h
    · cases h
      exact .rfl
    · cases h
      exact .rfl
    · split at h
      · cases h
        exact .rfl
      · cases h
  · rename_i r' d h
    unfold resolve at h
    split at h
    · cases h
    · cases h
    · rename_i n record hn hrecord
      split at h
      · cases h
      · rename_i final s hsettle
        cases h
        cases final with
        | none => exact .rfl
        | some final =>
          obtain ⟨hbefore, hafter⟩ := not_created_of_settle hsettle
          -- neither the record that is ended nor the one that is written in its place
          -- is created
          have hold : ¬ r.HasStatus id .created := by
            rintro ⟨g, hg, hcreated⟩
            obtain rfl := Option.some.inj (hrecord.symm.trans hg)
            exact hbefore hcreated
          have hnew : ¬ (r.put id final).HasStatus id .created := by
            rw [hasStatus_put, if_pos rfl]
            exact hafter
          exact iff_of_false hnew hold

/-- Whether a generation is created is left to those who set, start and stop
it. -/
theorem Works.created_iff (h : Works id r r') :
    r'.HasStatus id .created ↔ r.HasStatus id .created := by
  induction h with
  | refl => exact .rfl
  | apart _ ha ih => exact (hasStatus_congr ha.record_eq).trans ih
  | delta _ text ih =>
    refine Iff.trans ?_ ih
    unfold Registry.delta
    split
    · exact .rfl
    · simp only
      split <;> exact .rfl
  | finish _ result now ih => exact (hasStatus_created_finish result now).trans ih

end Registry

namespace Executor

open Registry

variable {x : Executor} {id : GenerationId}

/-- A command by which nobody sets, starts or stops the generation. -/
def Command.Leaves (id : GenerationId) : Command → Prop
  | .set g => g.id ≠ id
  | .start key _ | .stop key => key ≠ id
  | _ => True

/-- A command that leaves a generation alone, but for its work, does no more
than work on it. -/
theorem run_works (hs : x.registry.Sound) {c : Command} (hc : c.Leaves id) (now : Timestamp) :
    Works id x.registry (x.run now c).1.registry := by
  have hwithin : c.Within now (fun _ _ => True) fun r r' => r.Sound → r'.Sound ∧ Works id r r' :=
    { refl := fun _ hs => ⟨hs, .refl⟩
      trans := fun h h' hs => ⟨(h' (h hs).1).1, (h hs).2.trans (h' (h hs).1).2⟩
      set := by
        rintro r r' g rfl hr hs
        exact ⟨(Registry.set_sound hs hr).1, .of_apart ((changes_set hr).apart hs hc)⟩
      start := by
        rintro r r' key isStreaming n rfl hr hs
        exact ⟨(Registry.begin_sound hs hr).1, .of_apart (apart_begin hr hs hc)⟩
      stop := by
        rintro r r' key wasLive rfl hr hs
        exact ⟨(Registry.stop_sound hs hr).1, .of_apart ((changes_stop hr).apart hs hc)⟩
      delta := by
        intro r key text hs
        refine ⟨(Registry.delta_sound hs).1, ?_⟩
        by_cases hkey : key = id
        · exact hkey ▸ .delta .refl text
        · exact .of_apart ((changes_delta text).apart hs hkey)
      finish := by
        intro r key result _ hs
        refine ⟨(Registry.finish_sound hs).1, ?_⟩
        by_cases hkey : key = id
        · exact hkey ▸ .finish .refl result now
        · exact .of_apart ((changes_finish result now).apart hs hkey) }
  exact (hwithin.run x (fun _ _ _ _ => trivial) hs).2

end Executor

end Workflow
