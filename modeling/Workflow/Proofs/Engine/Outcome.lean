/-
Workflow.Proofs.Engine.Outcome — what a tally says of its reports.

A tally of several lists of reports is the sum of their tallies; it counts
every report once, under the status with which its step is stored, and adds
up their durations.
-/
import Mathlib.Algebra.Ring.Nat
import Workflow.Engine.Outcome

namespace Workflow.Tally

theorem ofReports_cons (r : StepReport) (rest : List StepReport) :
    ofReports (r :: rest) = (ofReport r).add (ofReports rest) := rfl

theorem zero_add (t : Tally) : zero.add t = t := by
  simp [zero, add]

theorem add_assoc (t u v : Tally) : (t.add u).add v = t.add (u.add v) := by
  simp [add, Nat.add_assoc]

theorem ofReports_append (rs qs : List StepReport) :
    ofReports (rs ++ qs) = (ofReports rs).add (ofReports qs) := by
  induction rs with
  | nil => exact (zero_add _).symm
  | cons r rest ih => rw [List.cons_append, ofReports_cons, ih, ofReports_cons, add_assoc]

/-- Every report is counted, once. -/
theorem count_eq (rs : List StepReport) : (ofReports rs).completed + (ofReports rs).failed +
    (ofReports rs).cancelled = rs.length := by
  induction rs with
  | nil => rfl
  | cons r rest ih =>
    obtain ⟨outcome, ms⟩ := r
    rw [ofReports_cons, List.length_cons, ← ih]
    cases outcome <;> simp only [add, ofReport] <;> omega

/-- The time of a tally is the time of its reports. -/
theorem totalTaskMs_eq (rs : List StepReport) :
    (ofReports rs).totalTaskMs = (rs.map (·.durationMs)).sum := by
  induction rs with
  | nil => rfl
  | cons r rest ih =>
    obtain ⟨outcome, ms⟩ := r
    rw [ofReports_cons, List.map_cons, List.sum_cons, ← ih]
    cases outcome <;> rfl

/-- A tally counts how often each status occurs. -/
theorem count_status (rs : List StepReport) :
    (rs.map (·.outcome.status)).count .completed = (ofReports rs).completed ∧
    (rs.map (·.outcome.status)).count .failed = (ofReports rs).failed ∧
    (rs.map (·.outcome.status)).count .cancelled = (ofReports rs).cancelled ∧
    (rs.map (·.outcome.status)).count .queued = 0 ∧
    (rs.map (·.outcome.status)).count .running = 0 := by
  induction rs with
  | nil => exact ⟨rfl, rfl, rfl, rfl, rfl⟩
  | cons r rest ih =>
    obtain ⟨hc, hf, hz, hq, hr⟩ := ih
    obtain ⟨outcome, ms⟩ := r
    rw [ofReports_cons, List.map_cons]
    generalize rest.map (·.outcome.status) = statuses at hc hf hz hq hr ⊢
    cases outcome <;> simp [StepOutcome.status, add, ofReport, hc, hf, hz, hq, hr] <;> omega

/-- Where nothing failed and nothing was cancelled, all is completed. -/
theorem completed_of_ofReports {rs : List StepReport} (hf : (ofReports rs).failed = 0)
    (hc : (ofReports rs).cancelled = 0) : ∀ r ∈ rs, r.outcome = .completed := by
  induction rs with
  | nil => simp
  | cons r rest ih =>
    rw [ofReports_cons] at hf hc
    obtain ⟨outcome, ms⟩ := r
    simp only [add] at hf hc
    refine List.forall_mem_cons.mpr ⟨?_, ih (by omega) (by omega)⟩
    cases outcome with
    | completed => rfl
    | failed message => simp [ofReport] at hf
    | cancelled => simp [ofReport] at hc

/-- A tally makes a final status. -/
theorem status_isTerminal (t : Tally) : t.status.isTerminal := by
  unfold status
  split
  · rfl
  · split <;> rfl

theorem status_of_completed {rs : List StepReport} (h : ∀ r ∈ rs, r.outcome = .completed) :
    (ofReports rs).status = .completed := by
  have hnone {st : Status} (hst : st ≠ .completed) : (rs.map (·.outcome.status)).count st = 0 := by
    refine List.count_eq_zero.mpr ?_
    intro hmem
    obtain ⟨r, hr, rfl⟩ := List.mem_map.mp hmem
    rw [h r hr] at hst
    exact hst rfl
  obtain ⟨-, hf, hz, -, -⟩ := count_status rs
  rw [hnone (by decide)] at hf hz
  simp [status, ← hf, ← hz]

end Workflow.Tally
