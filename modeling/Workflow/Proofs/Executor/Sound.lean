/-
Workflow.Proofs.Executor.Sound — whatever an executor is asked, its registry
stays sound and only grows.

`Command.Within.run` says once what a command can do to the registry, and
`run_sound` follows for one command, and so for a history of them, whoever
gives the commands and in whichever order.
-/
import Workflow.Executor.Command
import Workflow.Proofs.Generation.Registry

namespace Workflow.Executor

variable {x x' : Executor} {id : GenerationId} {n : Nat} {now : Timestamp}

/-! ## Calls -/

/-- What an accepted call does to the registry; what it does to the staff is
said only where it does something. -/
theorem set_eq {g : Generation} (h : x.set g = .ok x') :
    ∃ r, x.registry.set g = .ok r ∧ x' = { x with registry := r } := by
  unfold set at h
  cases hr : x.registry.set g with
  | error e => simp [hr, Except.map] at h
  | ok r =>
    simp only [hr, Except.map, Except.ok.injEq] at h
    exact ⟨r, rfl, h.symm⟩

/-- An accepted start begins a flight, which is given to the staff. -/
theorem start_eq {isStreaming : Bool} (h : x.start id isStreaming now = .ok (x', n)) :
    ∃ r, x.registry.begin id isStreaming now = .ok (r, n) ∧ x' = ⟨r, assign n x.staff⟩ := by
  unfold start at h
  cases hc : x.checkStaff id with
  | error e => simp [hc, bind, Except.bind] at h
  | ok u =>
    cases hb : x.registry.begin id isStreaming now with
    | error e => simp [hc, hb, bind, Except.bind] at h
    | ok started =>
      simp only [hc, hb, bind, Except.bind, pure, Except.pure, Except.ok.injEq,
        Prod.mk.injEq] at h
      obtain ⟨rfl, rfl⟩ := h
      exact ⟨started.1, rfl, rfl⟩

theorem stop_eq (h : x.stop id now = .ok x') :
    ∃ r wasLive, x.registry.stop id now = .ok (r, wasLive) ∧ x' = { x with registry := r } := by
  unfold stop at h
  cases hr : x.registry.stop id now with
  | error e => simp [hr, Except.map] at h
  | ok stopped =>
    simp only [hr, Except.map, Except.ok.injEq] at h
    exact ⟨stopped.1, stopped.2, rfl, h.symm⟩

theorem set_sound (hs : x.registry.Sound) {g : Generation} (h : x.set g = .ok x') :
    x'.registry.Sound ∧ x.registry.Grows x'.registry := by
  obtain ⟨r, hr, rfl⟩ := set_eq h
  exact Registry.set_sound hs hr

/-- An accepted start has a flight of its own. -/
theorem start_sound (hs : x.registry.Sound) {isStreaming : Bool}
    (h : x.start id isStreaming now = .ok (x', n)) :
    x'.registry.Sound ∧ x.registry.Grows x'.registry ∧ x'.registry.target? n = some id := by
  obtain ⟨r, hr, rfl⟩ := start_eq h
  exact Registry.begin_sound hs hr

theorem stop_sound (hs : x.registry.Sound) (h : x.stop id now = .ok x') :
    x'.registry.Sound ∧ x.registry.Grows x'.registry := by
  obtain ⟨r, wasLive, hr, rfl⟩ := stop_eq h
  exact Registry.stop_sound hs hr

/-! ## Relays -/

@[simp] theorem withRelay_registry (f : Relay → Relay) :
    (x.withRelay f).registry = x.registry := by
  unfold withRelay
  split <;> rfl

@[simp] theorem target?_withRelay (f : Relay → Relay) :
    (x.withRelay f).target? n = x.target? n := by
  simp only [target?, withRelay_registry]

/-- An end of work leaves flights with their generations. -/
theorem target?_finish {m : Nat} {result : WorkResult} :
    (x.finish m result now).1.target? n = x.target? n := by
  unfold finish
  split
  · rfl
  · exact Registry.target?_finish

/-- A ticket that is taken is the oldest that waits, and is held from then
on. -/
theorem take_eq (h : x.take = some (x', n)) :
    ∃ relay rest, x.staff = .relay relay ∧ relay.waiting = n :: rest ∧
      x' = { x with
        staff := .relay { relay with waiting := rest, held := relay.held ++ [n] } } := by
  simp only [take, Option.bind_eq_bind, Option.bind_eq_some_iff, relay?] at h
  obtain ⟨relay, hrelay, h⟩ := h
  split at hrelay
  · cases hrelay
  · rename_i relay' hstaff
    cases hrelay
    split at h
    · cases h
    · simp only [Option.bind_eq_some_iff, Option.pure_def, Option.some.injEq, Prod.mk.injEq] at h
      obtain ⟨m, hm, rfl, rfl⟩ := h
      obtain ⟨rest, hwaiting⟩ := List.head?_eq_some_iff.mp hm
      exact ⟨relay, rest, hstaff, hwaiting, by simp [withRelay, hstaff, hwaiting]⟩

theorem take_registry (h : x.take = some (x', n)) : x'.registry = x.registry := by
  obtain ⟨relay, rest, -, -, rfl⟩ := take_eq h
  rfl

/-! ## Commands -/

/-- The results that come in when nobody can take the waiting tickets any
more, with their flights. -/
def lost (x : Executor) : List (Nat × WorkResult) :=
  match x.relay? with
  | none => []
  | some relay =>
    if relay.drivers = 0 && !relay.isOwned then relay.waiting.map (·, .error lostTicket) else []

/-- The result that comes in with a ticket, if it is held. -/
def redeemed (x : Executor) (n : Nat) (result : WorkResult) : List (Nat × WorkResult) :=
  if x.isHeld n then [(n, result)] else []

/-- The results of work that a command brings in, with their flights. -/
def results (x : Executor) : Command → List (Nat × WorkResult)
  | .report n result =>
    match x.staff with
    | .workers _ => [(n, result)]
    | .relay _ => x.redeemed n result
  | .dropTicket n => x.redeemed n (.error lostTicket)
  | .dropDriver => (x.withRelay fun r => { r with drivers := r.drivers - 1 }).lost
  | .disown => (x.withRelay ({ · with isOwned := false })).lost
  | .set _ | .get _ | .start _ _ | .stop _ | .delta _ _ | .take | .addDriver => []

/-- A relation of registries that holds for all that a command can be made
of: setting, starting and stopping as the command says, any deltas, and ends
of work with the results that are given for its generation. -/
structure Command.Within (c : Command) (now : Timestamp)
    (gives : GenerationId → WorkResult → Prop) (P : Registry → Registry → Prop) : Prop where
  refl : ∀ r, P r r
  trans : ∀ {r r' r''}, P r r' → P r' r'' → P r r''
  set : ∀ {r r' g}, c = .set g → r.set g = .ok r' → P r r'
  start : ∀ {r r' id isStreaming n}, c = .start id isStreaming →
    r.begin id isStreaming now = .ok (r', n) → P r r'
  stop : ∀ {r r' id wasLive}, c = .stop id → r.stop id now = .ok (r', wasLive) → P r r'
  delta : ∀ r id text, P r (r.delta id text).1
  finish : ∀ r id result, gives id result → P r (r.finish id result now).1

namespace Command.Within

variable {c : Command} {gives : GenerationId → WorkResult → Prop}
  {P : Registry → Registry → Prop}

/-- The end of the work of a flight is an end for its generation, as far as
there is one. -/
theorem executor_finish (h : c.Within now gives P) (x : Executor) (n : Nat) (result : WorkResult)
    (hgives : ∀ id, x.target? n = some id → gives id result) :
    P x.registry (x.finish n result now).1.registry := by
  unfold Executor.finish
  split
  · exact h.refl _
  · rename_i id hid
    exact h.finish _ id result (hgives id hid)

/-- A ticket that is redeemed ends work if it was held. -/
theorem redeem (h : c.Within now gives P) (x : Executor) (n : Nat) (result : WorkResult)
    (hgives : ∀ e ∈ x.redeemed n result, ∀ id, x.target? e.1 = some id → gives id e.2) :
    P x.registry (x.redeem n result now).1.registry := by
  unfold Executor.redeem
  split
  · rename_i hheld
    rw [← withRelay_registry (x := x) fun r => { r with held := r.held.erase n }]
    refine h.executor_finish _ n result fun id hid => hgives (n, result) ?_ id ?_
    · simp [redeemed, hheld]
    · rwa [target?_withRelay] at hid
  · exact h.refl _

/-- A sweep ends the work of all lost tickets, one after the other. -/
theorem sweep (h : c.Within now gives P) (x : Executor)
    (hgives : ∀ e ∈ x.lost, ∀ id, x.target? e.1 = some id → gives id e.2) :
    P x.registry (x.sweep now).registry := by
  have hfold (tickets : List Nat) (y : Executor)
      (hgives : ∀ n ∈ tickets, ∀ id, y.target? n = some id → gives id (.error lostTicket)) :
      P y.registry
        (tickets.foldl (fun y n => (y.finish n (.error lostTicket) now).1) y).registry := by
    induction tickets generalizing y with
    | nil => exact h.refl _
    | cons n rest ih =>
      obtain ⟨hfirst, hrest⟩ := List.forall_mem_cons.mp hgives
      refine h.trans (h.executor_finish y n (.error lostTicket) hfirst) (ih _ fun m hm id hid => ?_)
      exact hrest m hm id (by rwa [target?_finish] at hid)
  unfold Executor.sweep
  split
  · exact h.refl _
  · rename_i relay hrelay
    split
    · rename_i hover
      rw [← withRelay_registry (x := x) fun r => { r with waiting := [] }]
      refine hfold relay.waiting _ fun n hn id hid => hgives (n, .error lostTicket) ?_ id ?_
      · simp [lost, hrelay, hover, hn]
      · rwa [target?_withRelay] at hid
    · exact h.refl _

/-- One step of any history. -/
theorem run (h : c.Within now gives P) (x : Executor)
    (hgives : ∀ e ∈ x.results c, ∀ id, x.target? e.1 = some id → gives id e.2) :
    P x.registry (x.run now c).1.registry := by
  -- each accepted command makes one of the changes that `Within` speaks of, or ends
  -- work for the results that it gives
  cases c with
  | set g =>
    simp only [Executor.run]
    split
    · rename_i x' hset
      obtain ⟨r, hr, rfl⟩ := set_eq hset
      exact h.set rfl hr
    · exact h.refl _
  | get id => exact h.refl _
  | start id isStreaming =>
    simp only [Executor.run]
    split
    · rename_i x' n hstart
      obtain ⟨r, hr, rfl⟩ := start_eq hstart
      exact h.start rfl hr
    · exact h.refl _
  | stop id =>
    simp only [Executor.run]
    split
    · rename_i x' hstop
      obtain ⟨r, wasLive, hr, rfl⟩ := stop_eq hstop
      exact h.stop rfl hr
    · exact h.refl _
  | delta n text =>
    simp only [Executor.run, Executor.delta]
    split
    · exact h.refl _
    · exact h.delta ..
  | report n result =>
    simp only [results] at hgives
    simp only [Executor.run, Executor.report]
    cases hstaff : x.staff with
    | workers operations =>
      simp only [hstaff, List.forall_mem_singleton] at hgives ⊢
      exact h.executor_finish x n result hgives
    | relay relay =>
      simp only [hstaff] at hgives ⊢
      exact h.redeem x n result hgives
  | take =>
    simp only [Executor.run]
    split
    · rename_i x' n htake
      rw [take_registry htake]
      exact h.refl _
    · exact h.refl _
  | dropTicket n => exact h.redeem x n (.error lostTicket) hgives
  | addDriver =>
    simp only [Executor.run, Executor.addDriver, withRelay_registry]
    exact h.refl _
  | dropDriver =>
    rw [← withRelay_registry (x := x) fun r => { r with drivers := r.drivers - 1 }]
    exact h.sweep _ fun e he id hid => hgives e he id (by rwa [target?_withRelay] at hid)
  | disown =>
    rw [← withRelay_registry (x := x) ({ · with isOwned := false })]
    exact h.sweep _ fun e he id hid => hgives e he id (by rwa [target?_withRelay] at hid)

end Command.Within

/-- Every command keeps the registry sound, and takes nothing back. -/
theorem run_sound (hs : x.registry.Sound) (now : Timestamp) (command : Command) :
    (x.run now command).1.registry.Sound ∧ x.registry.Grows (x.run now command).1.registry := by
  have hwithin : command.Within now (fun _ _ => True)
      fun r r' => r.Sound → r'.Sound ∧ r.Grows r' :=
    { refl := fun _ hs => ⟨hs, .refl _⟩
      trans := fun h h' hs => ⟨(h' (h hs).1).1, (h hs).2.trans (h' (h hs).1).2⟩
      set := fun _ hr hs => Registry.set_sound hs hr
      start := fun _ hr hs => ⟨(Registry.begin_sound hs hr).1, (Registry.begin_sound hs hr).2.1⟩
      stop := fun _ hr hs => Registry.stop_sound hs hr
      delta := fun _ _ _ hs => Registry.delta_sound hs
      finish := fun _ _ _ _ hs => Registry.finish_sound hs }
  exact hwithin.run x (fun _ _ _ _ => trivial) hs

/-- Loading records is a history of its own. -/
theorem insertAll_sound (hs : x.registry.Sound) (generations : List Generation) :
    (x.insertAll generations).1.registry.Sound := by
  induction generations generalizing x with
  | nil => exact hs
  | cons g rest ih =>
    unfold insertAll
    split
    · exact hs
    · rename_i x' h
      exact ih (set_sound hs h).1

end Workflow.Executor
