/-
Workflow.Proofs.Executor.Resolution — every accepted start is resolved at
most once.

In a history that stores no record over a generation in flight, an accepted
start has a flight that is live until one command resolves it, by the end
of its work or by a stop. From then on the flight stays as it is.

* `Ordered` — the invariant: the registry is tidy with respect to the work
  that has not been reported, and a relay has one ticket for each.
* `Ordered.run` — one command keeps it, and passes the flights on.
* `resolved_once` — whole histories.
-/
import Mathlib.Tactic.IntervalCases
import Workflow.Proofs.Executor.Sound
import Workflow.Proofs.Generation.Exclusive

namespace Workflow.Executor

open Registry

/-- Commands in the order in which they are taken. -/
abbrev History := List (Timestamp × Command)

/-- The executor once the first commands of a history are taken. -/
def after (x : Executor) (h : History) (i : Nat) : Executor := (x.runAll (h.take i)).1

namespace Command

/-- The flight whose work a command reports. -/
def reported? : Command → Option Nat
  | .report n _ => some n
  | _ => none

/-- Whether a command ends the work of a flight. The tickets that still
wait are dropped with the last of the two sides of a relay. -/
def EndsWork (n : Nat) : Command → Prop
  | .report m _ | .dropTicket m => m = n
  | .dropDriver | .disown => True
  | _ => False

end Command

/-- The flights of which work was reported. -/
def reports (h : History) : List Nat := h.filterMap (·.2.reported?)

/-- A history as those who take part in it may make it: no record is stored
over a generation in flight, and a worker has one result for each flight.
The tickets of a relay see to the latter by themselves. -/
structure Orderly (x : Executor) (h : History) : Prop where
  set_free : ∀ (i : Nat) (now : Timestamp) (g : Generation), h[i]? = some (now, .set g) →
    (x.after h i).isInFlight g.id = false
  report_once : ∀ (i : Nat) (now : Timestamp) (n : Nat) (result : WorkResult)
    (operations : List Operation), h[i]? = some (now, .report n result) →
    (x.after h i).staff = .workers operations → n ∉ reports (h.take i)

/-- A command that ends the flight `f`, which was live. -/
inductive Resolves (x : Executor) (now : Timestamp) (c : Command) (n : Nat) (f : Flight) : Prop
  /-- The work of the flight ends, and this is heard. -/
  | finish (s : Signal) (hc : c.EndsWork n) (h : Ended (x.run now c).1.registry n f s)
  /-- The generation is stopped. -/
  | stop (hc : c = .stop f.generation) (h : Stopped (x.run now c).1.registry n f)

variable {x x' : Executor} {id : GenerationId} {n : Nat} {now : Timestamp} {h : History}
  {i j : Nat} {c : Command} {f : Flight} {done : List Nat} {pending : Nat → Prop}

/-! ## Histories -/

theorem runAll_append (x : Executor) (h : History) (e : Timestamp × Command) :
    (x.runAll (h ++ [e])).1 = ((x.runAll h).1.run e.1 e.2).1 := by
  induction h generalizing x with
  | nil => rfl
  | cons d rest ih => exact ih (x.run d.1 d.2).1

theorem after_succ (hc : h[i]? = some (now, c)) :
    x.after h (i + 1) = ((x.after h i).run now c).1 := by
  rw [after, List.take_add_one, hc]
  exact runAll_append x (h.take i) (now, c)

theorem reports_succ (hc : h[i]? = some (now, c)) :
    reports (h.take (i + 1)) = reports (h.take i) ++ c.reported?.toList := by
  rw [List.take_add_one, hc, reports, List.filterMap_append]
  cases hr : c.reported? <;> simp [reports, hr]

/-! ## The end of work -/

/-- The flights whose work may end. -/
def Pending (x : Executor) (done : List Nat) (n : Nat) : Prop :=
  match x.staff with
  | .workers _ => n ∉ done
  | .relay relay => n ∈ relay.waiting ∨ n ∈ relay.held

theorem pending_of_workers {operations : List Operation} (h : x.staff = .workers operations) :
    x.Pending done n ↔ n ∉ done := by
  simp [Pending, h]

theorem pending_of_relay {relay : Relay} (h : x.staff = .relay relay) :
    x.Pending done n ↔ n ∈ relay.waiting ∨ n ∈ relay.held := by
  simp [Pending, h]

/-- The invariant of orderly histories: the work that may end is tidy, and the
tickets of a relay are of different flights. -/
structure Ordered (x : Executor) (done : List Nat) : Prop where
  tidy : x.registry.Tidy (x.Pending done)
  tickets : ∀ relay, x.staff = .relay relay → (relay.waiting ++ relay.held).Nodup ∧
    ∀ n ∈ relay.waiting ++ relay.held, n < x.registry.flights.length

/-- Reports that were made elsewhere. -/
theorem Ordered.more (hx : x.Ordered done) (more : List Nat) : x.Ordered (done ++ more) := by
  refine ⟨hx.tidy.mono fun n hn => ?_, hx.tickets⟩
  unfold Pending at hn ⊢
  cases hstaff : x.staff with
  | workers operations =>
    simp only [hstaff, List.mem_append, not_or] at hn ⊢
    exact hn.1
  | relay relay => simpa only [hstaff] using hn

/-- An end of work changes the registry only, and not the number of its
flights. -/
theorem finish_staff (n : Nat) (result : WorkResult) (now : Timestamp) :
    (x.finish n result now).1.staff = x.staff := by
  unfold finish
  split <;> rfl

theorem finish_length (n : Nat) (result : WorkResult) (now : Timestamp) :
    (x.finish n result now).1.registry.flights.length = x.registry.flights.length := by
  unfold finish
  split
  · rfl
  · exact length_finish _ result now

/-- An end does not change a flight that has ended. -/
theorem finish_ended {m : Nat} {s : Signal} (hs : x.registry.Sound) (h : Ended x.registry m f s)
    (n : Nat) (result : WorkResult) (now : Timestamp) :
    Ended (x.finish n result now).1.registry m f s := by
  unfold finish
  split
  · exact h
  · exact h.finish hs _ result now

/-- The end of the work of a flight is one of this flight only, and happens
once. -/
theorem finish_passes (ht : x.registry.Tidy pending) (hn : pending n) (result : WorkResult)
    (now : Timestamp) :
    Passes x.registry (x.finish n result now).1.registry (fun m f => m = n ∧
        ∃ s, Ended (x.finish n result now).1.registry m f s) ∧
      (x.finish n result now).1.registry.Tidy fun m => pending m ∧ m ≠ n := by
  have hpasses : Passes x.registry (x.finish n result now).1.registry (fun m f => m = n ∧
        ∃ s, Ended (x.finish n result now).1.registry m f s) := by
    unfold finish
    split
    · exact .refl ht.sound _
    · rename_i id htarget
      exact ht.finish_passes hn htarget result now
  refine ⟨hpasses, ht.passes hpasses ?_ fun _ _ hm => hm.1⟩
  rintro m f ⟨rfl, hended⟩
  exact Or.inr (Or.inl ⟨hended, fun hm => hm.2 rfl⟩)

/-- Work whose flight is not live ends in vain. -/
theorem finish_of_not_live (ht : x.registry.Tidy pending) (hn : pending n)
    (hlive : ∀ f, ¬ Live x.registry n f) (result : WorkResult) (now : Timestamp) :
    x.finish n result now = (x, false) := by
  unfold finish
  split
  · rfl
  · rename_i id htarget
    rw [ht.finish_of_not_live hn htarget hlive result now]

/-- Work that ends for one flight after another. -/
theorem finish_all_passes (tickets : List Nat) (ht : x.registry.Tidy pending)
    (hpending : ∀ n ∈ tickets, pending n) (hnodup : tickets.Nodup) (now : Timestamp) :
    let last := tickets.foldl (fun x n => (x.finish n (.error lostTicket) now).1) x
    Passes x.registry last.registry
        (fun m f => m ∈ tickets ∧ ∃ s, Ended last.registry m f s) ∧
      last.registry.flights.length = x.registry.flights.length ∧ last.staff = x.staff ∧
      ∀ m f s, Ended x.registry m f s → Ended last.registry m f s := by
  induction tickets generalizing x pending with
  | nil => exact ⟨.refl ht.sound _, rfl, rfl, fun _ _ _ h => h⟩
  | cons n rest ih =>
    obtain ⟨hn, hrest⟩ := List.nodup_cons.mp hnodup
    obtain ⟨hfirst, ht'⟩ := finish_passes ht (hpending n List.mem_cons_self) (.error lostTicket) now
    obtain ⟨hothers, hlength, hstaff, hended⟩ := ih ht' (fun m hm =>
      ⟨hpending m (List.mem_cons_of_mem n hm), fun heq => hn (heq ▸ hm)⟩) hrest
    have hlength' := hlength.trans (finish_length n (.error lostTicket) now)
    refine ⟨(hfirst.trans hothers hlength').imp ?_, hlength', hstaff.trans (finish_staff ..),
      fun m f s h => hended m f s (finish_ended ht.sound h n (.error lostTicket) now)⟩
    rintro m f (⟨rfl, s, hs⟩ | ⟨hm, hs⟩)
    · exact ⟨List.mem_cons_self, s, hended m f s hs⟩
    · exact ⟨List.mem_cons_of_mem n hm, hs⟩

/-! ## One command

Whatever the command, each live flight stays live, hears text, or meets a fate
that the command may bring. -/

/-- What a command may do to a live flight: let more text be heard of it,
or resolve it. -/
def Fate (x : Executor) (now : Timestamp) (c : Command) (n : Nat) (f : Flight) : Prop :=
  (∃ heard, Live (x.run now c).1.registry n { f with heard := f.heard ++ heard }) ∨
    x.Resolves now c n f

/-- A change of the registry alone. -/
theorem Ordered.passes (hx : x.Ordered done) {r : Registry} {fate : Nat → Flight → Prop}
    (h : Passes x.registry r fate)
    (hfate : ∀ n f, fate n f → (∃ heard, Live r n { f with heard := f.heard ++ heard }) ∨
      (∃ s, Ended r n f s) ∧ ¬ x.Pending done n ∨ Stopped r n f) :
    Ordered { x with registry := r } done :=
  ⟨hx.tidy.passes h hfate fun _ _ hn => hn, fun relay hrelay =>
    ⟨(hx.tickets relay hrelay).1, fun n hn => h.grows.lt ((hx.tickets relay hrelay).2 n hn)⟩⟩

/-- A change of the relay that keeps its tickets. -/
theorem Ordered.withRelay (hx : x.Ordered done) (change : Relay → Relay)
    (hwaiting : ∀ r, (change r).waiting = r.waiting) (hheld : ∀ r, (change r).held = r.held) :
    (x.withRelay change).Ordered done := by
  cases hstaff : x.staff with
  | workers operations =>
    have hsame : x.withRelay change = x := by simp [Executor.withRelay, hstaff]
    rwa [hsame]
  | relay relay =>
    have heq : x.withRelay change = { x with staff := .relay (change relay) } := by
      simp [Executor.withRelay, hstaff]
    rw [heq]
    refine ⟨hx.tidy.mono fun n hn => ?_, fun relay' hrelay => ?_⟩
    · rw [pending_of_relay rfl, hwaiting, hheld] at hn
      exact (pending_of_relay hstaff).mpr hn
    · cases hrelay
      rw [hwaiting, hheld]
      exact hx.tickets relay hstaff

/-- A start adds a flight, and a ticket of it if there is a relay. -/
theorem Ordered.start (hx : x.Ordered done) {isStreaming : Bool}
    (h : x.start id isStreaming now = .ok (x', n)) :
    x'.Ordered done ∧ Passes x.registry x'.registry fun _ _ => False := by
  obtain ⟨r, hr, rfl⟩ := start_eq h
  have hpasses := hx.tidy.begin_passes hr
  obtain ⟨-, hn, hlength, -⟩ := begin_of_free (hx.tidy.free_of_begin hr) hr
  refine ⟨?_, hpasses⟩
  cases hstaff : x.staff with
  | workers operations =>
    have hordered := hx.passes hpasses fun _ _ h => h.elim
    rwa [hstaff] at hordered
  | relay relay =>
    obtain ⟨hnodup, hlt⟩ := hx.tickets relay hstaff
    -- tickets are of earlier flights, so the new one is not among them
    have hnew : n ∉ relay.waiting ++ relay.held := fun hmem => by
      have := hlt n hmem
      omega
    refine ⟨hx.tidy.passes hpasses (fun _ _ h => h.elim) fun m hm hpending => ?_,
      fun relay' hrelay => ?_⟩
    · rw [pending_of_relay rfl] at hpending
      rw [pending_of_relay hstaff]
      simp only [List.mem_append, List.mem_singleton] at hpending
      rcases hpending with (hwaiting | rfl) | hheld
      · exact Or.inl hwaiting
      · omega
      · exact Or.inr hheld
    · cases hrelay
      simp only [List.append_assoc]
      refine ⟨?_, fun m hm => ?_⟩
      · refine (List.perm_append_comm_assoc _ _ _).nodup_iff.mpr ?_
        exact List.nodup_cons.mpr ⟨hnew, hnodup⟩
      · show m < r.flights.length
        rcases List.mem_append.mp hm with hwaiting | hrest
        · have := hlt m (List.mem_append_left _ hwaiting)
          omega
        · rcases List.mem_cons.mp hrest with rfl | hheld
          · omega
          · have := hlt m (List.mem_append_right _ hheld)
            omega

/-- Taking a ticket keeps it. -/
theorem Ordered.take (hx : x.Ordered done) (h : x.take = some (x', n)) : x'.Ordered done := by
  obtain ⟨relay, rest, hstaff, hwaiting, rfl⟩ := take_eq h
  have htickets := hx.tickets relay hstaff
  have hperm : (rest ++ (relay.held ++ [n])).Perm (relay.waiting ++ relay.held) := by
    rw [hwaiting, ← List.append_assoc]
    exact List.perm_append_comm
  refine ⟨hx.tidy.mono fun m hm => ?_, fun relay' hrelay => ?_⟩
  · rw [pending_of_relay rfl, ← List.mem_append, hperm.mem_iff] at hm
    exact (pending_of_relay hstaff).mpr (List.mem_append.mp hm)
  · cases hrelay
    exact ⟨hperm.nodup_iff.mpr htickets.1, fun m hm => htickets.2 m (hperm.mem_iff.mp hm)⟩

/-- A worker's report. -/
theorem Ordered.finish (hx : x.Ordered done) {operations : List Operation}
    (hstaff : x.staff = .workers operations) (hn : n ∉ done) (result : WorkResult)
    (now : Timestamp) :
    (x.finish n result now).1.Ordered (done ++ [n]) ∧
      Passes x.registry (x.finish n result now).1.registry fun m f => m = n ∧
        ∃ s, Ended (x.finish n result now).1.registry m f s := by
  obtain ⟨hpasses, htidy⟩ := finish_passes hx.tidy ((pending_of_workers hstaff).mpr hn) result now
  have hstaff' := (finish_staff n result now).trans hstaff
  refine ⟨⟨htidy.mono fun m hm => ?_, fun relay hrelay => ?_⟩, hpasses⟩
  · rw [pending_of_workers hstaff'] at hm
    simp only [List.mem_append, List.mem_singleton, not_or] at hm
    exact ⟨(pending_of_workers hstaff).mpr hm.1, hm.2⟩
  · rw [hstaff'] at hrelay
    cases hrelay

/-- One ticket less, and the end of its work. -/
theorem Ordered.finish_ticket (hx : x.Ordered done) {relay : Relay} (relay' : Relay)
    (hstaff : x.staff = .relay relay)
    (hperm : (n :: (relay'.waiting ++ relay'.held)).Perm (relay.waiting ++ relay.held))
    (result : WorkResult) (now : Timestamp) :
    let x' := (Executor.finish ⟨x.registry, .relay relay'⟩ n result now).1
    x'.Ordered done ∧ Passes x.registry x'.registry fun m f => m = n ∧
      ∃ s, Ended x'.registry m f s := by
  obtain ⟨hnodup, hlt⟩ := hx.tickets relay hstaff
  obtain ⟨hn, hnodup'⟩ := List.nodup_cons.mp (hperm.nodup_iff.mpr hnodup)
  have hpending : ∀ m, m = n ∨ m ∈ relay'.waiting ++ relay'.held → x.Pending done m := by
    intro m hm
    rw [pending_of_relay hstaff, ← List.mem_append, ← hperm.mem_iff]
    exact List.mem_cons.mpr hm
  obtain ⟨hpasses, htidy⟩ := finish_passes (x := ⟨x.registry, .relay relay'⟩) hx.tidy
    (hpending n (Or.inl rfl)) result now
  refine ⟨⟨htidy.mono fun m hm => ?_, fun r hr => ?_⟩, hpasses⟩
  · rw [pending_of_relay (finish_staff ..), ← List.mem_append] at hm
    exact ⟨hpending m (Or.inr hm), fun heq => hn (heq ▸ hm)⟩
  · rw [finish_staff] at hr
    cases hr
    refine ⟨hnodup', fun m hm => ?_⟩
    rw [finish_length]
    exact hlt m (hperm.mem_iff.mp (List.mem_cons_of_mem n hm))

/-- A ticket is used up by one report. -/
theorem Ordered.redeem (hx : x.Ordered done) (n : Nat) (result : WorkResult) (now : Timestamp) :
    (x.redeem n result now).1.Ordered done ∧
      Passes x.registry (x.redeem n result now).1.registry fun m f => m = n ∧
        ∃ s, Ended (x.redeem n result now).1.registry m f s := by
  unfold Executor.redeem
  by_cases hheld : x.isHeld n
  · cases hstaff : x.staff with
    | workers operations => simp [isHeld, relay?, hstaff] at hheld
    | relay relay =>
      have hmem : n ∈ relay.held := by simpa [isHeld, relay?, hstaff] using hheld
      have hperm : (n :: (relay.waiting ++ relay.held.erase n)).Perm
          (relay.waiting ++ relay.held) :=
        List.perm_middle.symm.trans ((List.perm_cons_erase hmem).symm.append_left relay.waiting)
      simp only [hheld, if_true, Executor.withRelay, hstaff]
      exact hx.finish_ticket { relay with held := relay.held.erase n } hstaff hperm result now
  · simp only [hheld]
    exact ⟨hx, .refl hx.tidy.sound _⟩

/-- The tickets that nobody can take any more are used up. -/
theorem Ordered.sweep (hx : x.Ordered done) (now : Timestamp) :
    (x.sweep now).Ordered done ∧ Passes x.registry (x.sweep now).registry fun m f =>
      ∃ s, Ended (x.sweep now).registry m f s := by
  unfold Executor.sweep relay?
  cases hstaff : x.staff with
  | workers operations => exact ⟨hx, .refl hx.tidy.sound _⟩
  | relay relay =>
    simp only
    split
    · obtain ⟨hnodup, hlt⟩ := hx.tickets relay hstaff
      obtain ⟨hwaiting, hheld, hdisjoint⟩ := List.nodup_append.mp hnodup
      have hpending : ∀ n ∈ relay.waiting ++ relay.held, x.Pending done n := fun n hn =>
        (pending_of_relay hstaff).mpr (List.mem_append.mp hn)
      simp only [Executor.withRelay, hstaff]
      obtain ⟨hpasses, hlength, hstaff', -⟩ := finish_all_passes
        (x := ⟨x.registry, .relay { relay with waiting := [] }⟩) relay.waiting hx.tidy
        (fun n hn => hpending n (List.mem_append_left _ hn)) hwaiting now
      refine ⟨⟨hx.tidy.passes hpasses ?_ fun m _ hm => ?_, fun r hr => ?_⟩,
        hpasses.imp fun m f h => h.2⟩
      · -- a ticket that is lost is not held as well, so its work is over
        rintro m f ⟨hm, hended⟩
        refine Or.inr (Or.inl ⟨hended, fun hstill => ?_⟩)
        rw [pending_of_relay hstaff'] at hstill
        exact hdisjoint m hm m (by simpa using hstill) rfl
      · rw [pending_of_relay hstaff'] at hm
        exact hpending m (List.mem_append_right _ (by simpa using hm))
      · rw [hstaff'] at hr
        cases hr
        refine ⟨by simpa using hheld, fun m hm => ?_⟩
        rw [hlength]
        exact hlt m (List.mem_append_right _ (by simpa using hm))
    · exact ⟨hx, .refl hx.tidy.sound _⟩

/-- A reported result ends the work of one flight. -/
theorem Ordered.report (hx : x.Ordered done) (n : Nat) (result : WorkResult) (now : Timestamp)
    (hn : ∀ operations, x.staff = .workers operations → n ∉ done) :
    (x.report n result now).1.Ordered (done ++ [n]) ∧
      Passes x.registry (x.report n result now).1.registry fun m f => m = n ∧
        ∃ s, Ended (x.report n result now).1.registry m f s := by
  unfold Executor.report
  cases hstaff : x.staff with
  | workers operations => exact hx.finish hstaff (hn operations hstaff) result now
  | relay relay => exact (hx.redeem n result now).imp_left fun h => h.more [n]

/-- One command keeps the order, and passes the flights on to their fates. -/
theorem Ordered.run (hx : x.Ordered done)
    (hset : ∀ g, c = .set g → x.isInFlight g.id = false)
    (hreport : ∀ operations n, x.staff = .workers operations → c.reported? = some n → n ∉ done)
    (now : Timestamp) : (x.run now c).1.Ordered (done ++ c.reported?.toList) ∧
      Passes x.registry (x.run now c).1.registry (x.Fate now c) := by
  have hrefl {fate} : Passes x.registry x.registry fate := .refl hx.tidy.sound fate
  have hended {c : Command} {m : Nat} {f : Flight} (hc : c.EndsWork m)
      (h : ∃ s, Ended (x.run now c).1.registry m f s) : x.Fate now c m f :=
    h.elim fun s h => Or.inr (.finish s hc h)
  -- refused commands change nothing; accepted ones let all live flights pass, as the
  -- spec of the call on the registry says
  unfold Fate at hended ⊢
  cases c with
  | set g =>
    simp only [Executor.run] at hended ⊢
    split
    · rename_i x' h
      obtain ⟨r, hr, rfl⟩ := set_eq h
      have hpasses := hx.tidy.set_passes hr (hset g rfl)
      exact ⟨(hx.passes hpasses fun _ _ h => h.elim).more _, hpasses.imp fun _ _ h => h.elim⟩
    · exact ⟨hx.more _, hrefl⟩
  | get id => exact ⟨hx.more _, hrefl⟩
  | start id isStreaming =>
    simp only [Executor.run]
    split
    · rename_i x' n h
      obtain ⟨hordered, hpasses⟩ := hx.start h
      exact ⟨hordered.more _, hpasses.imp fun _ _ h => h.elim⟩
    · exact ⟨hx.more _, hrefl⟩
  | stop id =>
    cases h : x.stop id now with
    | error e =>
      have heq : (x.run now (.stop id)).1 = x := by simp [Executor.run, h]
      rw [heq]
      exact ⟨hx.more _, hrefl⟩
    | ok x' =>
      have heq : (x.run now (.stop id)).1 = x' := by simp [Executor.run, h]
      obtain ⟨r, wasLive, hr, rfl⟩ := stop_eq h
      have hpasses := hx.tidy.stop_passes hr
      rw [heq]
      refine ⟨(hx.passes hpasses fun n f hf => Or.inr (Or.inr hf.2)).more _,
        hpasses.imp fun n f hf => Or.inr (.stop (by rw [hf.1]) ?_)⟩
      rw [heq]
      exact hf.2
  | delta n text =>
    simp only [Executor.run, delta]
    split
    · exact ⟨hx.more _, hrefl⟩
    · rename_i id _
      have hpasses := hx.tidy.delta_passes id text
      exact ⟨(hx.passes hpasses fun n f hf => Or.inl hf).more _,
        hpasses.imp fun n f hf => Or.inl hf⟩
  | report n result =>
    obtain ⟨hordered, hpasses⟩ := hx.report n result now fun operations hstaff =>
      hreport operations n hstaff rfl
    exact ⟨hordered, hpasses.imp fun m f h => hended h.1.symm h.2⟩
  | take =>
    simp only [Executor.run]
    split
    · rename_i x' n h
      rw [take_registry h]
      exact ⟨(hx.take h).more _, hrefl⟩
    · exact ⟨hx.more _, hrefl⟩
  | dropTicket n =>
    obtain ⟨hordered, hpasses⟩ := hx.redeem n (.error lostTicket) now
    exact ⟨hordered.more _, hpasses.imp fun m f h => hended h.1.symm h.2⟩
  | addDriver =>
    have hordered := hx.withRelay
      (fun r => if r.drivers = 0 then r else { r with drivers := r.drivers + 1 })
      (fun r => by split <;> rfl) fun r => by split <;> rfl
    simp only [Executor.run, addDriver, withRelay_registry]
    exact ⟨hordered.more _, hrefl⟩
  | dropDriver =>
    obtain ⟨hordered, hpasses⟩ := (hx.withRelay (fun r => { r with drivers := r.drivers - 1 })
      (fun _ => rfl) (fun _ => rfl)).sweep now
    rw [withRelay_registry] at hpasses
    exact ⟨hordered.more _, hpasses.imp fun m f h => hended trivial h⟩
  | disown =>
    obtain ⟨hordered, hpasses⟩ := (hx.withRelay ({ · with isOwned := false })
      (fun _ => rfl) (fun _ => rfl)).sweep now
    rw [withRelay_registry] at hpasses
    exact ⟨hordered.more _, hpasses.imp fun m f h => hended trivial h⟩

/-! ## Whole histories -/

/-- The command at a position resolves the flight, which was live. -/
def ResolvedAt (x : Executor) (h : History) (n : Nat) (f : Flight) (i : Nat) : Prop :=
  ∃ now c, h[i]? = some (now, c) ∧ Live (x.after h i).registry n f ∧
    (x.after h i).Resolves now c n f

/-- What has become of an accepted start after the first `t` commands. -/
inductive Standing (x : Executor) (h : History) (n : Nat) (id : GenerationId) (isStreaming : Bool)
    (t : Nat) : Prop
  /-- Its flight is still live. -/
  | inFlight (f : Flight) (hid : f.generation = id) (hkind : f.isStreaming = isStreaming)
      (hlive : Live (x.after h t).registry n f) (hnone : ∀ i < t, ∀ g, ¬ x.ResolvedAt h n g i)
  /-- One command resolved it, and its flight is as this command left it. -/
  | resolved (i : Nat) (f : Flight) (hid : f.generation = id) (hkind : f.isStreaming = isStreaming)
      (hi : i < t) (hresolved : x.ResolvedAt h n f i)
      (honce : ∀ j < t, ∀ g, x.ResolvedAt h n g j → j = i)
      (hsince : (x.after h t).registry.flights[n]? = (x.after h (i + 1)).registry.flights[n]?)

theorem ordered_ofRelay : ofRelay.Ordered [] :=
  ⟨tidy_empty _, fun relay h => by cases h; simp [Relay.new]⟩

theorem ordered_ofWorkers (operations : List Operation) : (ofWorkers operations).Ordered [] :=
  ⟨tidy_empty _, fun relay h => by cases h⟩

/-- One command of an orderly history: the invariant holds after it, and each
live flight meets a fate that the command may bring. -/
theorem Orderly.run (ho : x.Orderly h) (hx : (x.after h i).Ordered (reports (h.take i)))
    (hc : h[i]? = some (now, c)) :
    (x.after h (i + 1)).Ordered (reports (h.take (i + 1))) ∧
      Passes (x.after h i).registry (x.after h (i + 1)).registry ((x.after h i).Fate now c) := by
  rw [after_succ hc, reports_succ hc]
  refine hx.run (fun g hg => ho.set_free i now g (hg ▸ hc)) (fun operations n hstaff hn => ?_) now
  cases c with
  | report m result =>
    cases hn
    exact ho.report_once i now n result operations hc hstaff
  | _ => cases hn

/-- The invariant holds throughout an orderly history. -/
theorem Orderly.ordered (ho : x.Orderly h) (hx : x.Ordered []) (hi : i ≤ h.length) :
    (x.after h i).Ordered (reports (h.take i)) := by
  induction i with
  | zero => exact hx
  | succ i ih => exact (ho.run (ih (by omega)) (List.getElem?_eq_getElem (by omega))).1

theorem Resolves.closed (hr : x.Resolves now c n f) :
    ∃ g, Closed (x.run now c).1.registry n g := by
  cases hr with
  | finish s _ h => exact ⟨_, h.closed⟩
  | stop _ h => exact ⟨_, h.closed⟩

/-- A flight that is over stays as it is, and is not resolved again. -/
theorem Orderly.closed_since (ho : x.Orderly h) (hx : x.Ordered [])
    (hf : Closed (x.after h i).registry n f) {t : Nat} (hi : i ≤ t) (ht : t ≤ h.length) :
    Closed (x.after h t).registry n f ∧ ∀ j, i ≤ j → j < t → ∀ g, ¬ x.ResolvedAt h n g j := by
  induction hi with
  | refl => exact ⟨hf, fun j hij hjt => by omega⟩
  | @step t hit ih =>
    obtain ⟨hclosed, hnone⟩ := ih (by omega)
    have hpasses := (ho.run (ho.ordered hx (by omega)) (List.getElem?_eq_getElem ht)).2
    refine ⟨hpasses.closed n f hclosed, fun j hij hjt g hj => ?_⟩
    rcases Nat.lt_succ_iff_lt_or_eq.mp hjt with hlt | rfl
    · exact hnone j hij hlt g hj
    · obtain ⟨now, c, -, hlive, -⟩ := hj
      exact hclosed.not_live g hlive

/-- A command that leaves a flight live did not resolve it. -/
theorem ResolvedAt.not_live {g : Flight} (hr : x.ResolvedAt h n f i) :
    ¬ Live (x.after h (i + 1)).registry n g := by
  obtain ⟨now, c, hc, -, hresolves⟩ := hr
  obtain ⟨k, hclosed⟩ := hresolves.closed
  rw [after_succ hc]
  exact hclosed.not_live g

/-- One more command. -/
theorem Orderly.standing_succ (ho : x.Orderly h) (hx : x.Ordered []) {isStreaming : Bool} {t : Nat}
    (ht : t < h.length) (hs : x.Standing h n id isStreaming t) :
    x.Standing h n id isStreaming (t + 1) := by
  obtain ⟨⟨now, c⟩, hc⟩ : ∃ e, h[t]? = some e := ⟨_, List.getElem?_eq_getElem ht⟩
  have hpasses := (ho.run (ho.ordered hx (Nat.le_of_lt ht)) hc).2
  cases hs with
  | inFlight f hid hkind hlive hnone =>
    -- a flight that is live now has not been resolved by this command either
    have hstill : ∀ f', f'.generation = id → f'.isStreaming = isStreaming →
        Live (x.after h (t + 1)).registry n f' → x.Standing h n id isStreaming (t + 1) := by
      refine fun f' hid' hkind' hlive' => .inFlight f' hid' hkind' hlive' fun i hi g hg => ?_
      rcases Nat.lt_succ_iff_lt_or_eq.mp hi with hlt | rfl
      · exact hnone i hlt g hg
      · exact hg.not_live hlive'
    -- the command leaves the flight alone, lets it hear text, or resolves it
    rcases hpasses.live n f hlive with hlive' | ⟨heard, hlive'⟩ | hresolves
    · exact hstill f hid hkind hlive'
    · rw [← after_succ hc] at hlive'
      exact hstill { f with heard := f.heard ++ heard } hid hkind hlive'
    · refine .resolved t f hid hkind (Nat.lt_succ_self t) ⟨now, c, hc, hlive, hresolves⟩ ?_ rfl
      intro j hj g hg
      rcases Nat.lt_succ_iff_lt_or_eq.mp hj with hlt | rfl
      · exact absurd hg (hnone j hlt g)
      · rfl
  | resolved i f hid hkind hi hresolved honce hsince =>
    have hat := hresolved
    obtain ⟨now', c', hc', -, hresolves⟩ := hat
    obtain ⟨k, hclosed⟩ := hresolves.closed
    rw [← after_succ hc'] at hclosed
    -- a closed flight never comes to life again, so nothing else resolves it
    obtain ⟨hclosed', hnone⟩ := ho.closed_since hx hclosed (t := t + 1) (by omega) ht
    refine .resolved i f hid hkind (by omega) hresolved (fun j hj g hg => ?_)
      (hclosed'.flight_eq.trans hclosed.flight_eq.symm)
    rcases Nat.lt_succ_iff_lt_or_eq.mp hj with hlt | rfl
    · exact honce j hlt g hg
    · exact absurd hg (hnone j hi hj g)

/-- Flights do not go away. -/
theorem Orderly.length_le (ho : x.Orderly h) (hx : x.Ordered []) {t : Nat} (hi : i ≤ t)
    (ht : t ≤ h.length) (hn : n < (x.after h i).registry.flights.length) :
    n < (x.after h t).registry.flights.length := by
  induction hi with
  | refl => exact hn
  | @step t hit ih =>
    exact (ho.run (ho.ordered hx (by omega)) (List.getElem?_eq_getElem ht)).2.grows.lt
      (ih (by omega))

/-- Right after its start, a flight is live, as it was none before. -/
theorem Orderly.standing_start (ho : x.Orderly h) (hx : x.Ordered []) {isStreaming : Bool}
    (hc : h[i]? = some (now, .start id isStreaming))
    (hstarted : ((x.after h i).run now (.start id isStreaming)).2 = .started n) :
    x.Standing h n id isStreaming (i + 1) := by
  have hi := (List.getElem?_eq_some_iff.mp hc).1
  have hordered := ho.ordered hx (Nat.le_of_lt hi)
  simp only [Executor.run] at hstarted
  split at hstarted
  · rename_i x' m hstart
    obtain ⟨r, hr, rfl⟩ := start_eq hstart
    cases hstarted
    obtain ⟨-, hn, -, g, hlive⟩ := begin_of_free (hordered.tidy.free_of_begin hr) hr
    have heq : (x.after h (i + 1)).registry = r := by
      rw [after_succ hc]
      simp only [Executor.run, hstart]
    refine .inFlight _ rfl rfl (heq ▸ hlive) fun j hj g' hg' => ?_
    obtain ⟨-, -, -, hlive', -⟩ := hg'
    have hlt := (List.getElem?_eq_some_iff.mp hlive'.flight_eq).1
    have := ho.length_le hx (Nat.le_of_lt_succ hj) (Nat.le_of_lt hi) hlt
    omega
  · cases hstarted

/-- From its start on, a flight is live or was resolved by exactly one
command. -/
theorem Orderly.standing (ho : x.Orderly h) (hx : x.Ordered []) {isStreaming : Bool}
    (hc : h[i]? = some (now, .start id isStreaming))
    (hstarted : ((x.after h i).run now (.start id isStreaming)).2 = .started n) {t : Nat}
    (hi : i < t) (ht : t ≤ h.length) : x.Standing h n id isStreaming t := by
  induction hi with
  | refl => exact ho.standing_start hx hc hstarted
  | @step t _ ih => exact ho.standing_succ hx ht (ih (by omega))

/-- A ticket whose flight is not live changes nothing but the tickets. -/
theorem Ordered.redeem_in_vain (hx : x.Ordered done) (hlive : ∀ f, ¬ Live x.registry n f)
    (result : WorkResult) (now : Timestamp) :
    (x.redeem n result now).2 = false ∧ (x.redeem n result now).1.registry = x.registry := by
  unfold Executor.redeem
  by_cases hheld : x.isHeld n
  · cases hstaff : x.staff with
    | workers operations => simp [isHeld, relay?, hstaff] at hheld
    | relay relay =>
      have hmem : n ∈ relay.held := by simpa [isHeld, relay?, hstaff] using hheld
      have htidy : (x.withRelay fun r => { r with held := r.held.erase n }).registry.Tidy
          (x.Pending done) := by
        simpa using hx.tidy
      have hpending : x.Pending done n := (pending_of_relay hstaff).mpr (Or.inr hmem)
      simp [hheld, finish_of_not_live htidy hpending (by simpa using hlive) result now]
  · simp [hheld]

/-- A result whose flight is not live is told so, and changes no record. -/
theorem Ordered.report_in_vain (hx : x.Ordered done) (hlive : ∀ f, ¬ Live x.registry n f)
    (hn : ∀ operations, x.staff = .workers operations → n ∉ done) (result : WorkResult)
    (now : Timestamp) :
    (x.report n result now).2 = false ∧ (x.report n result now).1.registry = x.registry := by
  unfold Executor.report
  cases hstaff : x.staff with
  | workers operations =>
    have hpending := (pending_of_workers hstaff).mpr (hn operations hstaff)
    simp [finish_of_not_live hx.tidy hpending hlive result now]
  | relay relay => exact hx.redeem_in_vain hlive result now

/-- **Exclusive resolution.** In an orderly history of an executor, an
accepted start is live until exactly one command resolves it; the end of
work for a flight that is not live is answered so and changes no record, no
entry and no flight; and a refused start changes nothing at all. -/
theorem resolved_once (hx : x = ofRelay ∨ ∃ operations, x = ofWorkers operations)
    (ho : x.Orderly h) :
    (∀ i now id isStreaming n, h[i]? = some (now, .start id isStreaming) →
      ((x.after h i).run now (.start id isStreaming)).2 = .started n →
      ∀ t, i < t → t ≤ h.length → x.Standing h n id isStreaming t) ∧
    (∀ i now n result, h[i]? = some (now, .report n result) →
      (∀ f, ¬ Live (x.after h i).registry n f) →
      ((x.after h i).run now (.report n result)).2 = .heard false ∧
        (x.after h (i + 1)).registry = (x.after h i).registry) ∧
    (∀ i now n, h[i]? = some (now, .dropTicket n) → (∀ f, ¬ Live (x.after h i).registry n f) →
      (x.after h (i + 1)).registry = (x.after h i).registry) ∧
    (∀ i now id isStreaming e, h[i]? = some (now, .start id isStreaming) →
      ((x.after h i).run now (.start id isStreaming)).2 = .refused e →
      x.after h (i + 1) = x.after h i) := by
  have hstart : x.Ordered [] := by
    rcases hx with rfl | ⟨operations, rfl⟩
    · exact ordered_ofRelay
    · exact ordered_ofWorkers operations
  -- the invariant holds before each command
  have hordered {i now c} (hc : h[i]? = some (now, c)) :=
    ho.ordered hstart (Nat.le_of_lt (List.getElem?_eq_some_iff.mp hc).1)
  refine ⟨fun i now id isStreaming n hc hstarted t hi ht => ho.standing hstart hc hstarted hi ht,
    fun i now n result hc hlive => ?_, fun i now n hc hlive => ?_,
    fun i now id isStreaming e hc hrefused => ?_⟩
  · obtain ⟨hanswer, hregistry⟩ := (hordered hc).report_in_vain hlive
      (fun operations => ho.report_once i now n result operations hc) result now
    rw [after_succ hc]
    exact ⟨congrArg Answer.heard hanswer, hregistry⟩
  · rw [after_succ hc]
    exact ((hordered hc).redeem_in_vain hlive (.error lostTicket) now).2
  · rw [after_succ hc]
    simp only [Executor.run] at hrefused ⊢
    split
    · rename_i h
      rw [h] at hrefused
      cases hrefused
    · rfl

/-- A generation whose stream breaks, that is queued and started again, and
then stopped, while its second ticket is still held. -/
def sampleHistory : History :=
  let queued : Generation := { (default : Generation) with id := ⟨"gnr-1"⟩, status := .queued }
  [.set queued, .start queued.id true, .take, .delta 0 "so far", .report 0 (.error "lost"),
    .set queued, .start queued.id false, .take, .stop queued.id, .dropTicket 1].map (default, ·)

theorem sample_resolved_once : ofRelay.Orderly sampleHistory ∧
    ofRelay.Standing sampleHistory 0 ⟨"gnr-1"⟩ true 10 ∧
    ofRelay.Standing sampleHistory 1 ⟨"gnr-1"⟩ false 10 := by
  have horderly : ofRelay.Orderly sampleHistory := by
    constructor
    · intro i now g hset
      have hi : i < 10 := (List.getElem?_eq_some_iff.mp hset).1
      interval_cases i <;> cases hset <;> decide +kernel
    · intro i now n result operations hreport hstaff
      have hi : i < 10 := (List.getElem?_eq_some_iff.mp hreport).1
      interval_cases i <;> cases hreport
      cases hstaff
  obtain ⟨hstanding, -⟩ := resolved_once (Or.inl rfl) horderly
  exact ⟨horderly, hstanding 1 _ _ _ 0 rfl rfl 10 (by decide) (by decide),
    hstanding 6 _ _ _ 1 rfl rfl 10 (by decide) (by decide)⟩

end Workflow.Executor
