/-
Workflow.Proofs.Executor.Effect — what one command does, in two equations.

A command changes the registry and the staff, and neither of the two changes
depends on more of the other than an answer or a list of results.

* `run_effect` — to the registry it is a call on one generation, or the ends
  of work that `results` lists, one after the other.
* `run_staff` — to a relay it is what `Relay.after` says; workers stay.
-/
import Workflow.Proofs.Executor.Resolution

namespace Workflow

/-- What holds of the empty history, and is kept by each entry, holds of every
first part. -/
theorem take_induction {α : Type} {P : List α → Prop} {as : List α} (nil : P [])
    (step : ∀ i a, as[i]? = some a → P (as.take i) → P (as.take i ++ [a])) (i : Nat) :
    P (as.take i) := by
  induction i with
  | zero => exact nil
  | succ i ih =>
    rw [List.take_add_one]
    cases ha : as[i]? with
    | none => rwa [Option.toList_none, List.append_nil]
    | some a => exact step i a ha ih

namespace Registry

/-- The end of the work of a flight. -/
def endWork (r : Registry) (now : Timestamp) (e : Nat × WorkResult) : Registry :=
  match r.target? e.1 with
  | none => r
  | some id => (r.finish id e.2 now).1

/-- Ends of work in order. -/
def endAll (r : Registry) (now : Timestamp) (es : List (Nat × WorkResult)) : Registry :=
  es.foldl (·.endWork now ·) r

/-- What a command does, with the results that it brings in and the flight
that it starts, if any. -/
inductive Effect (r : Registry) (now : Timestamp) :
    Executor.Command → List (Nat × WorkResult) → Option Nat → Registry → Prop where
  | set {g : Generation} {r' : Registry} (h : r.set g = .ok r') : Effect r now (.set g) [] none r'
  | start {id : GenerationId} {isStreaming : Bool} {r' : Registry} {n : Nat}
      (h : r.begin id isStreaming now = .ok (r', n)) :
      Effect r now (.start id isStreaming) [] (some n) r'
  | stop {id : GenerationId} {r' : Registry} {wasLive : Bool}
      (h : r.stop id now = .ok (r', wasLive)) : Effect r now (.stop id) [] none r'
  /-- A delta is about the generation of its flight. -/
  | delta {n : Nat} {id : GenerationId} (h : r.target? n = some id) (text : String) :
      Effect r now (.delta n text) [] none (r.delta id text).1
  /-- Every other command does nothing to the registry but bring in
  results. -/
  | ends (c : Executor.Command) (es : List (Nat × WorkResult)) :
      Effect r now c es none (r.endAll now es)

/-- A start brings in no results. -/
theorem Effect.results_of_started {r r' : Registry} {now : Timestamp} {c : Executor.Command}
    {es : List (Nat × WorkResult)} {n : Nat} (h : r.Effect now c es (some n) r') : es = [] := by
  cases h
  rfl

/-- A start makes its flight. -/
theorem Effect.lt_of_started {r r' : Registry} {now : Timestamp} {c : Executor.Command}
    {es : List (Nat × WorkResult)} {n : Nat} (hs : r.Sound) (h : r.Effect now c es (some n) r') :
    n < r'.flights.length := by
  cases h with
  | start h =>
    obtain ⟨f, hf, -⟩ := Option.map_eq_some_iff.mp (begin_sound hs h).2.2
    exact (List.getElem?_eq_some_iff.mp hf).1

/-! ## The two tables

Ends of work are followed in the table of records and in that of entries,
before they are put together as commands. -/

variable {r r' : Registry} {id : GenerationId} {n : Nat} {now : Timestamp}

/-- A record that is accepted is stored, and nothing else. -/
theorem set_eq_put {g : Generation} (h : r.set g = .ok r') : r' = r.put g.id g := by
  unfold Registry.set at h
  split at h
  · exact (Except.ok.inj h).symm
  · split at h
    · cases h
    · exact (Except.ok.inj h).symm

/-- Text changes neither table. -/
theorem delta_tables (id : GenerationId) (text : String) :
    (r.delta id text).1.records = r.records ∧ (r.delta id text).1.inFlight = r.inFlight := by
  unfold Registry.delta
  split
  · exact ⟨rfl, rfl⟩
  · simp only
    split <;> exact ⟨rfl, rfl⟩

/-- The end of work leaves no entry. -/
theorem inFlight_finish (id : GenerationId) (result : WorkResult) (now : Timestamp) :
    (r.finish id result now).1.inFlight.get? id = none := by
  unfold Registry.finish Registry.resolve
  cases hentry : r.inFlight.get? id with
  | none => exact hentry
  | some n =>
    cases r.get? id with
    | none => simp
    | some record =>
      cases hsettle : settle record (r.isStreaming n) result now <;> simp [hsettle, deliver]

/-- A change of one generation brings no entry. -/
theorem Edits.inFlight_of {key : GenerationId} {own : Nat → Prop} {heard : Signal → Prop}
    (h : Edits key own heard r r') (hentry : r'.inFlight.get? id = some n) :
    r.inFlight.get? id = some n := by
  induction h with
  | refl => exact hentry
  | put _ g ih => exact ih hentry
  | land _ ih =>
    rw [inFlight_land] at hentry
    split at hentry
    · cases hentry
    · exact ih hentry
  | modify _ _ _ _ ih => exact ih hentry

/-- The end of the work of a flight takes the entry away that leads to it. -/
theorem inFlight_endWork (hs : Sound r) {e : Nat × WorkResult}
    (h : (r.endWork now e).inFlight.get? id = some n) : r.inFlight.get? id = some n ∧ n ≠ e.1 := by
  unfold endWork at h
  cases htarget : r.target? e.1 with
  | none =>
    simp only [htarget] at h
    refine ⟨h, ?_⟩
    rintro rfl
    simp [hs.inFlight_target id _ h] at htarget
  | some key =>
    simp only [htarget] at h
    have hold := Edits.inFlight_of (changes_finish e.2 now) h
    refine ⟨hold, ?_⟩
    rintro rfl
    obtain rfl := Option.some.inj (htarget.symm.trans (hs.inFlight_target id _ hold))
    simp [inFlight_finish] at h

/-- An end of work keeps the registry sound. -/
theorem endWork_sound (hs : Sound r) (e : Nat × WorkResult) : Sound (r.endWork now e) := by
  unfold endWork
  split
  · exact hs
  · exact (finish_sound hs).1

/-- An entry that is left was there before, and none of the ends was its own. -/
theorem inFlight_endAll (hs : Sound r) {es : List (Nat × WorkResult)}
    (h : (r.endAll now es).inFlight.get? id = some n) :
    r.inFlight.get? id = some n ∧ n ∉ es.map (·.1) := by
  induction es generalizing r with
  | nil => exact ⟨h, List.not_mem_nil⟩
  | cons e rest ih =>
    obtain ⟨hrest, hnot⟩ := ih (endWork_sound hs e) h
    obtain ⟨hentry, hne⟩ := inFlight_endWork hs hrest
    exact ⟨hentry, fun hn => (List.mem_cons.mp hn).elim hne hnot⟩

/-- The flight of a start is new, and the entry of its generation leads to
it. -/
theorem begin_eq {isStreaming : Bool} (h : r.begin id isStreaming now = .ok (r', n)) :
    n = r.flights.length ∧ r'.flights.length = n + 1 ∧ r'.inFlight.get? id = some n := by
  obtain ⟨r₁, g, hchanges, hlaunch⟩ := changes_begin h
  obtain ⟨rfl, rfl⟩ := Prod.mk.inj hlaunch
  exact ⟨Edits.length_eq hchanges, by simp, by simp⟩

/-- The entries after a command are those from before whose work it does not
end, and that of a start. -/
theorem Effect.inFlight_of (hs : Sound r) {c : Executor.Command} {es : List (Nat × WorkResult)}
    {started : Option Nat} (he : r.Effect now c es started r')
    (h : r'.inFlight.get? id = some n) :
    r.inFlight.get? id = some n ∧ n ∉ es.map (·.1) ∨ started = some n := by
  cases he with
  | set hr =>
    rw [set_eq_put hr] at h
    exact Or.inl ⟨h, List.not_mem_nil⟩
  | @start key _ _ m hr =>
    by_cases hkey : key = id
    · subst hkey
      exact Or.inr ((begin_eq hr).2.2.symm.trans h)
    · rw [(apart_begin hr hs hkey).entry_eq] at h
      exact Or.inl ⟨h, List.not_mem_nil⟩
  | stop hr => exact Or.inl ⟨Edits.inFlight_of (changes_stop hr) h, List.not_mem_nil⟩
  | delta _ text => exact Or.inl ⟨Edits.inFlight_of (changes_delta text) h, List.not_mem_nil⟩
  | ends => exact Or.inl (inFlight_endAll hs h)

end Registry

namespace Staff

/-- Changes the relay, if there is one. -/
def onRelay (f : Relay → Relay) : Staff → Staff
  | .workers operations => .workers operations
  | .relay r => .relay (f r)

theorem onRelay_id (s : Staff) : s.onRelay id = s := by cases s <;> rfl

theorem onRelay_onRelay (s : Staff) (f g : Relay → Relay) :
    (s.onRelay f).onRelay g = s.onRelay fun r => g (f r) := by
  cases s <;> rfl

end Staff

/-- The tickets that are not used up. -/
def Relay.tickets (relay : Relay) : List Nat := relay.waiting ++ relay.held

/-- The tickets that wait are lost once both sides are gone. -/
def Relay.swept (relay : Relay) : Relay :=
  if relay.drivers = 0 && !relay.isOwned then { relay with waiting := [] } else relay

/-- A relay after a command that was answered so. -/
def Relay.after (relay : Relay) : Executor.Command → Executor.Answer → Relay
  | .start _ _, .started n => { relay with waiting := relay.waiting ++ [n] }
  | .take, .taken (some n) =>
    { relay with waiting := relay.waiting.tail, held := relay.held ++ [n] }
  | .report n _, _ | .dropTicket n, _ => { relay with held := relay.held.erase n }
  | .addDriver, _ =>
    if relay.drivers = 0 then relay else { relay with drivers := relay.drivers + 1 }
  | .dropDriver, _ => { relay with drivers := relay.drivers - 1 }.swept
  | .disown, _ => { relay with isOwned := false }.swept
  | _, _ => relay

/-- The flight of an accepted start. -/
def Executor.Answer.started? : Executor.Answer → Option Nat
  | .started n => some n
  | _ => none

namespace Executor

open Registry

variable {x : Executor} {relay : Relay} {n : Nat} {result : WorkResult} {now : Timestamp}

/-! ## The registry -/

/-- Each part of a command, as ends of work: these equations make up
`run_effect`. -/
theorem finish_registry (x : Executor) (n : Nat) (result : WorkResult) (now : Timestamp) :
    (x.finish n result now).1.registry = x.registry.endWork now (n, result) := by
  unfold finish endWork
  cases h : x.target? n with
  | none =>
    have htarget : x.registry.target? n = none := h
    simp only [htarget]
  | some id =>
    have htarget : x.registry.target? n = some id := h
    simp only [htarget]

/-- A ticket that was held ends the work of its flight. -/
theorem redeem_registry (x : Executor) (n : Nat) (result : WorkResult) (now : Timestamp) :
    (x.redeem n result now).1.registry = x.registry.endAll now (x.redeemed n result) := by
  unfold redeem redeemed
  split
  · rw [finish_registry, withRelay_registry]
    rfl
  · rfl

/-- Tickets that are lost end their work one after the other. -/
theorem finish_all_registry (ns : List Nat) (x : Executor) (now : Timestamp) :
    (ns.foldl (fun x n => (x.finish n (.error lostTicket) now).1) x).registry =
      x.registry.endAll now (ns.map (·, .error lostTicket)) := by
  induction ns generalizing x with
  | nil => rfl
  | cons n rest ih =>
    rw [List.foldl_cons, ih, finish_registry]
    rfl

/-- A sweep loses the tickets that wait, if both sides are gone. -/
theorem sweep_registry (x : Executor) (now : Timestamp) :
    (x.sweep now).registry = x.registry.endAll now x.lost := by
  unfold sweep lost
  cases x.relay? with
  | none => rfl
  | some relay =>
    simp only
    split
    · rw [finish_all_registry, withRelay_registry]
    · rfl

/-- Whatever a command does to the registry. -/
theorem run_effect (x : Executor) (now : Timestamp) (c : Command) :
    Effect x.registry now c (x.results c) (x.run now c).2.started? (x.run now c).1.registry := by
  -- a refused command is an effect without ends; reports, lost tickets and sweeps are
  -- lists of ends
  cases c with
  | set g =>
    simp only [run]
    split
    · rename_i x' h
      obtain ⟨r, hr, rfl⟩ := set_eq h
      exact .set hr
    · exact .ends ..
  | get id => exact .ends ..
  | start id isStreaming =>
    simp only [run]
    split
    · rename_i x' n h
      obtain ⟨r, hr, rfl⟩ := start_eq h
      exact .start hr
    · exact .ends ..
  | stop id =>
    simp only [run]
    split
    · rename_i x' h
      obtain ⟨r, wasLive, hr, rfl⟩ := stop_eq h
      exact .stop hr
    · exact .ends ..
  | delta n text =>
    simp only [run, delta]
    cases h : x.target? n with
    | none => exact .ends ..
    | some id => exact .delta h text
  | report n result =>
    have hends : (x.run now (.report n result)).1.registry =
        x.registry.endAll now (x.results (.report n result)) := by
      simp only [run, report, results]
      cases x.staff with
      | workers operations => exact finish_registry x n result now
      | relay relay => exact redeem_registry x n result now
    rw [hends]
    exact .ends ..
  | take =>
    simp only [run]
    split
    · rename_i x' n h
      rw [take_registry h]
      exact .ends ..
    · exact .ends ..
  | dropTicket n =>
    have hends : (x.run now (.dropTicket n)).1.registry =
        x.registry.endAll now (x.results (.dropTicket n)) := redeem_registry x n _ now
    rw [hends]
    exact .ends ..
  | addDriver =>
    simp only [run, addDriver, withRelay_registry]
    exact .ends ..
  | dropDriver =>
    have hends : (x.run now .dropDriver).1.registry =
        x.registry.endAll now (x.results .dropDriver) :=
      (sweep_registry _ now).trans (by rw [withRelay_registry]; rfl)
    rw [hends]
    exact .ends ..
  | disown =>
    have hends : (x.run now .disown).1.registry =
        x.registry.endAll now (x.results .disown) :=
      (sweep_registry _ now).trans (by rw [withRelay_registry]; rfl)
    rw [hends]
    exact .ends ..

/-- The flight of an accepted start is new. -/
theorem started_eq {c : Command} (h : (x.run now c).2.started? = some n) :
    n = x.registry.flights.length ∧ n < (x.run now c).1.registry.flights.length := by
  have heffect := run_effect x now c
  rw [h] at heffect
  cases heffect with
  | start hr =>
    obtain ⟨hn, hlength, -⟩ := begin_eq hr
    exact ⟨hn, by omega⟩

/-! ## The staff -/

/-- Each part of a command, as a change of the relay: these equations make up
`run_staff`. -/
theorem withRelay_staff (x : Executor) (f : Relay → Relay) :
    (x.withRelay f).staff = x.staff.onRelay f := by
  unfold withRelay
  cases h : x.staff with
  | workers operations => exact h
  | relay relay => rfl

/-- A ticket that is used leaves those that are held. -/
theorem redeem_staff (x : Executor) (n : Nat) (result : WorkResult) (now : Timestamp) :
    (x.redeem n result now).1.staff =
      x.staff.onRelay fun r => { r with held := r.held.erase n } := by
  unfold redeem
  split
  · rw [finish_staff, withRelay_staff]
  · rename_i hheld
    cases h : x.staff with
    | workers operations => rfl
    | relay relay =>
      have hmem : n ∉ relay.held := by simpa [isHeld, relay?, h] using hheld
      simp only [Staff.onRelay, List.erase_of_not_mem hmem]

theorem finish_all_staff (ns : List Nat) (x : Executor) (now : Timestamp) :
    (ns.foldl (fun x n => (x.finish n (.error lostTicket) now).1) x).staff = x.staff := by
  induction ns generalizing x with
  | nil => rfl
  | cons n rest ih => exact (ih _).trans (finish_staff ..)

/-- A sweep leaves no tickets waiting where both sides are gone. -/
theorem sweep_staff (x : Executor) (now : Timestamp) :
    (x.sweep now).staff = x.staff.onRelay Relay.swept := by
  unfold sweep relay?
  cases h : x.staff with
  | workers operations => exact h
  | relay relay =>
    simp only [Staff.onRelay, Relay.swept]
    split
    · rw [finish_all_staff, withRelay_staff, h]
      rfl
    · exact h

/-- Whatever a command does to the staff. -/
theorem run_staff (x : Executor) (now : Timestamp) (c : Command) :
    (x.run now c).1.staff = x.staff.onRelay (·.after c (x.run now c).2) := by
  have hsame : x.staff = x.staff.onRelay id := x.staff.onRelay_id.symm
  cases c with
  | set g =>
    simp only [run]
    split
    · rename_i x' h
      obtain ⟨r, -, rfl⟩ := set_eq h
      exact hsame
    · exact hsame
  | get id => exact hsame
  | start id isStreaming =>
    simp only [run]
    split
    · rename_i x' n h
      obtain ⟨r, -, rfl⟩ := start_eq h
      cases hstaff : x.staff <;> simp [assign, Staff.onRelay, Relay.after]
    · exact hsame
  | stop id =>
    simp only [run]
    split
    · rename_i x' h
      obtain ⟨r, wasLive, -, rfl⟩ := stop_eq h
      exact hsame
    · exact hsame
  | delta n text =>
    simp only [run, delta]
    split <;> exact hsame
  | report n result =>
    simp only [run, report]
    cases h : x.staff with
    | workers operations => exact (finish_staff ..).trans h
    | relay relay => exact (redeem_staff ..).trans (by rw [h]; rfl)
  | take =>
    simp only [run]
    split
    · rename_i x' n h
      obtain ⟨relay, rest, hrelay, hwaiting, rfl⟩ := take_eq h
      simp [hrelay, hwaiting, Staff.onRelay, Relay.after]
    · exact hsame
  | dropTicket n => exact redeem_staff ..
  | addDriver => exact withRelay_staff ..
  | dropDriver =>
    exact (sweep_staff ..).trans (by rw [withRelay_staff, Staff.onRelay_onRelay]; rfl)
  | disown =>
    exact (sweep_staff ..).trans (by rw [withRelay_staff, Staff.onRelay_onRelay]; rfl)

/-! ## Tickets -/

/-- A ticket is used up or still there. -/
theorem redeemed_tickets (h : x.staff = .relay relay) (n : Nat) (result : WorkResult) :
    ((x.redeemed n result).map (·.1) ++
      ({ relay with held := relay.held.erase n } : Relay).tickets).Perm relay.tickets := by
  unfold redeemed Relay.tickets
  split
  · rename_i hheld
    have hmem : n ∈ relay.held := by simpa [isHeld, relay?, h] using hheld
    show (n :: (relay.waiting ++ relay.held.erase n)).Perm _
    exact List.perm_middle.symm.trans ((List.perm_cons_erase hmem).symm.append_left relay.waiting)
  · rename_i hheld
    have hmem : n ∉ relay.held := by simpa [isHeld, relay?, h] using hheld
    simp [List.erase_of_not_mem hmem]

/-- A ticket is lost or still there. -/
theorem lost_tickets (h : x.staff = .relay relay) :
    x.lost.map (·.1) ++ relay.swept.tickets = relay.tickets := by
  have hrelay : x.relay? = some relay := by simp [relay?, h]
  unfold lost Relay.swept
  rw [hrelay]
  simp only
  split
  · simp [Relay.tickets, Function.comp_def]
  · rfl

/-- No ticket is lost without a trace: what there was and what a start adds
is still there, or the work of its flight has ended. -/
theorem tickets_conserved (h : x.staff = .relay relay) (now : Timestamp) (c : Command) :
    ((x.results c).map (·.1) ++ (relay.after c (x.run now c).2).tickets).Perm
      (relay.tickets ++ (x.run now c).2.started?.toList) := by
  -- only a start makes a ticket, and only the end of work uses one up
  cases c with
  | set g =>
    simp only [run]
    split <;> simp [results, Relay.after, Answer.started?]
  | get id => simp [run, results, Relay.after, Answer.started?]
  | start id isStreaming =>
    simp only [run]
    split
    · simp only [results, Relay.after, Answer.started?, Relay.tickets, List.map_nil,
        List.nil_append, Option.toList_some, List.append_assoc]
      exact List.perm_append_comm.append_left relay.waiting
    · simp [results, Relay.after, Answer.started?]
  | stop id =>
    simp only [run]
    split <;> simp [results, Relay.after, Answer.started?]
  | delta n text => simp [run, results, Relay.after, Answer.started?]
  | report n result =>
    simp only [run, results, h, Relay.after, Answer.started?, Option.toList_none, List.append_nil]
    exact redeemed_tickets h n result
  | take =>
    simp only [run]
    split
    · rename_i x' n htake
      obtain ⟨relay', rest, hrelay, hwaiting, rfl⟩ := take_eq htake
      obtain rfl := Staff.relay.inj (h.symm.trans hrelay)
      simp only [results, Relay.after, Answer.started?, Relay.tickets, hwaiting, List.tail_cons,
        List.map_nil, List.nil_append, Option.toList_none, List.append_nil]
      rw [← List.append_assoc]
      exact List.perm_append_comm
    · simp [results, Relay.after, Answer.started?]
  | dropTicket n =>
    simp only [run, results, Relay.after, Answer.started?, Option.toList_none, List.append_nil]
    exact redeemed_tickets h n _
  | addDriver =>
    have hsame : (relay.after .addDriver .done).tickets = relay.tickets := by
      simp only [Relay.after]
      split <;> rfl
    simp [run, results, Answer.started?, hsame]
  | dropDriver =>
    have hstaff := (withRelay_staff x fun r => { r with drivers := r.drivers - 1 }).trans
      (congrArg (Staff.onRelay _) h)
    simp only [run, results, Relay.after, Answer.started?, Option.toList_none, List.append_nil]
    rw [lost_tickets hstaff]
    rfl
  | disown =>
    have hstaff := (withRelay_staff x ({ · with isOwned := false })).trans
      (congrArg (Staff.onRelay _) h)
    simp only [run, results, Relay.after, Answer.started?, Option.toList_none, List.append_nil]
    rw [lost_tickets hstaff]
    rfl

/-! ## Loading -/

/-- Records that are loaded change neither entries nor flights. -/
theorem insertAll_tables (x : Executor) (generations : List Generation) :
    (x.insertAll generations).1.staff = x.staff ∧
      (x.insertAll generations).1.registry.inFlight = x.registry.inFlight ∧
      (x.insertAll generations).1.registry.flights = x.registry.flights := by
  induction generations generalizing x with
  | nil => exact ⟨rfl, rfl, rfl⟩
  | cons g rest ih =>
    unfold insertAll
    cases h : x.set g with
    | error e => exact ⟨rfl, rfl, rfl⟩
    | ok x' =>
      obtain ⟨r, hr, rfl⟩ := set_eq h
      obtain ⟨hstaff, hentries, hflights⟩ := ih { x with registry := r }
      obtain rfl := set_eq_put hr
      exact ⟨hstaff, hentries, hflights⟩

end Executor

end Workflow
