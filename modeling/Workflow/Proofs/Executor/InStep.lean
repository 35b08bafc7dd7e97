/-
Workflow.Proofs.Executor.InStep — records and entries go together.

The registry is two tables, and storing a record looks at only one of them.
As long as nobody stores a record that is not running over a generation in
flight, the two tables stay in step.

* `Registry.InStep` — every generation in flight has a running record.
* `Registry.Accounted r pending` — moreover, work that goes on belongs to
  the entry of its generation, or to a generation that was stopped.
* `entries_in_step` — any history of calls: the record runs, a stop stops,
  and no flight is ended by the work of another.
* `entry_out_of_step` — a record that is stored over a generation in flight
  lets it be started again, and the end of the first start ends the second.
-/
import Workflow.Proofs.Executor.Effect
import Workflow.Proofs.Executor.Final

namespace Workflow

namespace Registry

variable {r r' : Registry} {id key : GenerationId} {n m : Nat} {now : Timestamp}
  {pending pending' : Nat → Prop} {heard : Signal → Prop}

/-- Every generation in flight has a running record. -/
structure InStep (r : Registry) : Prop where
  sound : Sound r
  running : ∀ id n, r.inFlight.get? id = some n → r.HasStatus id .running

theorem inStep_empty : InStep empty := ⟨sound_empty, fun _ _ h => by simp [empty] at h⟩

theorem HasStatus.unique {s t : GenerationStatus} (h : r.HasStatus id s) (h' : r.HasStatus id t) :
    s = t := by
  obtain ⟨g, hg, rfl⟩ := h
  obtain ⟨k, hk, rfl⟩ := h'
  rw [Option.some.inj (hg.symm.trans hk)]

/-- A generation with a record that is not running is not in flight. -/
theorem InStep.free (h : InStep r) {status : GenerationStatus} (hs : r.HasStatus id status)
    (hne : status ≠ .running) : r.inFlight.get? id = none := by
  cases hentry : r.inFlight.get? id with
  | none => rfl
  | some n => exact absurd (hs.unique (h.running id n hentry)) hne

/-- Other generations are as they were, so only one has to be looked at. -/
theorem InStep.of_apart (h : InStep r) (hs : Sound r') (hapart : ∀ key, id ≠ key → Apart key r r')
    (hself : ∀ n, r'.inFlight.get? id = some n → r'.HasStatus id .running) : InStep r' := by
  refine ⟨hs, fun key n hentry => ?_⟩
  by_cases hkey : id = key
  · exact hkey ▸ hself n (hkey ▸ hentry)
  · have happart := hapart key hkey
    exact (hasStatus_congr happart.record_eq).mpr
      (h.running key n (happart.entry_eq.symm.trans hentry))

/-! ## One call -/

/-- Storing keeps step if no record that is not running is stored over a
generation in flight. -/
theorem InStep.set (h : InStep r) {g : Generation} (hset : r.set g = .ok r')
    (hrunning : r.isInFlight g.id → g.status = .running) : InStep r' := by
  refine h.of_apart (set_sound h.sound hset).1 (fun _ => (changes_set hset).apart h.sound)
    fun n hentry => ?_
  obtain rfl := set_eq_put hset
  rw [inFlight_put] at hentry
  exact ⟨g, by simp, hrunning (by simp [isInFlight, Table.contains, hentry])⟩

/-- A start writes the running record before the entry. -/
theorem InStep.begin (h : InStep r) {isStreaming : Bool}
    (hbegin : r.begin id isStreaming now = .ok (r', n)) : InStep r' := by
  obtain ⟨g, hrunning, hlive⟩ := live_begin hbegin
  exact h.of_apart (begin_sound h.sound hbegin).1 (fun _ => apart_begin hbegin h.sound)
    fun _ _ => ⟨g, hlive.record_eq, hrunning⟩

/-- A start that is accepted finds its generation queued, so not in flight. -/
theorem InStep.free_of_begin (h : InStep r) {isStreaming : Bool}
    (hbegin : r.begin id isStreaming now = .ok (r', n)) :
    r.HasStatus id .queued ∧ r.inFlight.get? id = none := by
  have hqueued : r.HasStatus id .queued := by
    unfold Registry.begin at hbegin
    split at hbegin
    · cases hbegin
    · rename_i record hrecord
      split at hbegin
      · cases hbegin
      · rename_i running hstart
        exact ⟨record, hrecord, (Generation.start_eq hstart).1⟩
  exact ⟨hqueued, h.free hqueued (by decide)⟩

/-- Text touches neither of the two tables. -/
theorem InStep.delta (h : InStep r) (id : GenerationId) (text : String) :
    InStep (r.delta id text).1 := by
  obtain ⟨hrecords, hentries⟩ := delta_tables (r := r) id text
  refine ⟨(delta_sound h.sound).1, fun key n hentry => ?_⟩
  rw [hentries] at hentry
  exact (hasStatus_congr (congrArg (Table.get? · key) hrecords)).mpr (h.running key n hentry)

/-- An end takes the entry away, whatever becomes of the record. -/
theorem InStep.finish (h : InStep r) (id : GenerationId) (result : WorkResult) (now : Timestamp) :
    InStep (r.finish id result now).1 :=
  h.of_apart (finish_sound h.sound).1 (fun _ => (changes_finish result now).apart h.sound)
    fun n hentry => by simp [inFlight_finish] at hentry

/-- A stop that is answered leaves a generation that was in flight cancelled,
and none that was not. -/
theorem InStep.stop_eq (h : InStep r) {wasLive : Bool} (hstop : r.stop id now = .ok (r', wasLive)) :
    r'.inFlight.get? id = none ∧ (r' = r ∨ r'.HasStatus id .cancelled) := by
  unfold Registry.stop at hstop
  split at hstop
  · cases hstop
  · rename_i record hrecord
    split at hstop
    · rename_i hover
      cases hstop
      refine ⟨?_, Or.inl rfl⟩
      simp only [Bool.or_eq_true, Bool.and_eq_true, decide_eq_true_eq, Bool.not_eq_true',
        isInFlight, Table.contains, Option.isSome_eq_false_iff, Option.isNone_iff_eq_none] at hover
      -- a final record is not running, and so not in flight
      rcases hover with hfinal | ⟨-, hfree⟩
      · refine h.free ⟨record, hrecord, rfl⟩ fun hrunning => ?_
        simp [Generation.isTerminal_of_running hrunning] at hfinal
      · exact hfree
    · split at hstop
      · cases hstop
      · rename_i cancelled hcancel
        have hstatus : cancelled.status = .cancelled := by rw [(Generation.cancel_eq hcancel).2]
        split at hstop
        · rename_i hfree
          cases hstop
          exact ⟨hfree, Or.inr ⟨cancelled, by simp, hstatus⟩⟩
        · rename_i n hentry
          cases hstop
          refine ⟨?_, Or.inr ⟨cancelled, by simp, hstatus⟩⟩
          simp [Registry.forget, hentry]

/-- A stop takes the entry away with the record that it cancels. -/
theorem InStep.stop (h : InStep r) {wasLive : Bool} (hstop : r.stop id now = .ok (r', wasLive)) :
    InStep r' :=
  h.of_apart (stop_sound h.sound hstop).1 (fun _ => (changes_stop hstop).apart h.sound)
    fun n hentry => by simp [(h.stop_eq hstop).1] at hentry

/-- A stop of a generation in flight is answered and takes effect. -/
theorem InStep.stops (h : InStep r) (hentry : r.inFlight.get? id = some n) (now : Timestamp) :
    ∃ r', r.stop id now = .ok (r', true) ∧ r'.HasStatus id .cancelled ∧
      r'.inFlight.get? id = none := by
  obtain ⟨record, hrecord, hrunning⟩ := h.running id n hentry
  have hopen := Generation.isTerminal_of_running hrunning
  obtain ⟨r', hr'⟩ : ∃ r', r.stop id now = .ok (r', true) := by
    simp [Registry.stop, hrecord, hopen, Generation.cancel_of_open hopen, isInFlight,
      Table.contains, hentry]
  obtain ⟨hfree, hsame | hcancelled⟩ := h.stop_eq hr'
  · simp [hsame, hentry] at hfree
  · exact ⟨r', hr', hcancelled, hfree⟩

/-- So does the end of the work of a flight, since it is an end of its
generation. -/
theorem InStep.endWork (h : InStep r) (now : Timestamp) (e : Nat × WorkResult) :
    InStep (r.endWork now e) := by
  unfold Registry.endWork
  split
  · exact h
  · exact h.finish _ e.2 now

theorem InStep.endAll (h : InStep r) (now : Timestamp) (es : List (Nat × WorkResult)) :
    InStep (r.endAll now es) := by
  induction es generalizing r with
  | nil => exact h
  | cons e rest ih => exact ih (h.endWork now e)

variable {c : Executor.Command} {es : List (Nat × WorkResult)} {started : Option Nat}

/-- Whatever a command does, only a record that is stored can put the tables
out of step. -/
theorem InStep.effect (h : InStep r) (he : r.Effect now c es started r')
    (hset : ∀ g, c = .set g → r.set g = .ok r' → r.isInFlight g.id → g.status = .running) :
    InStep r' := by
  cases he with
  | set hr => exact h.set hr (hset _ rfl hr)
  | start hr => exact h.begin hr
  | stop hr => exact h.stop hr
  | delta _ text => exact h.delta _ text
  | ends => exact h.endAll now es

/-! ## Work that goes on

A command ends the work of flights by their numbers. That this is the work in
the entry needs the numbers to be pending. -/

/-- Moreover, work that goes on belongs to the entry of its generation, or its
generation was stopped. -/
structure Accounted (r : Registry) (pending : Nat → Prop) : Prop extends InStep r where
  work : ∀ n id, pending n → r.target? n = some id →
    r.inFlight.get? id = some n ∨ r.HasStatus id .cancelled

theorem accounted_empty (pending : Nat → Prop) : Accounted empty pending :=
  ⟨inStep_empty, fun n id _ h => by simp [empty, target?] at h⟩

theorem Accounted.mono (h : Accounted r pending) (hsub : ∀ n, pending' n → pending n) :
    Accounted r pending' :=
  ⟨h.toInStep, fun n id hn => h.work n id (hsub n hn)⟩

/-- The work that goes on for a generation in flight is that of its entry. -/
theorem Accounted.unique (h : Accounted r pending) (hentry : r.inFlight.get? id = some m)
    (hn : pending n) (htarget : r.target? n = some id) : n = m := by
  rcases h.work n id hn htarget with hsame | hcancelled
  · exact Option.some.inj (hsame.symm.trans hentry)
  · exact absurd ((h.running id m hentry).unique hcancelled) (by decide)

theorem Grows.target_eq (h : Grows r r') (hn : n < r.flights.length) :
    r'.target? n = r.target? n := by
  have htarget : r.target? n = some r.flights[n].generation := by simp [target?, hn]
  exact (h.target n _ htarget).trans htarget.symm

/-- A change of one generation that starts nothing. -/
theorem Accounted.of_changes (h : Accounted r pending) (hs : InStep r') (hg : Grows r r')
    (hchanges : Changes id heard r r') (hsub : ∀ n, pending' n → pending n)
    (hself : ∀ n, pending' n → r.target? n = some id →
      r'.inFlight.get? id = some n ∨ r'.HasStatus id .cancelled) : Accounted r' pending' := by
  refine ⟨hs, fun n key hn htarget => ?_⟩
  have hlt : n < r.flights.length := by
    obtain ⟨f, hf, -⟩ := Option.map_eq_some_iff.mp htarget
    exact Edits.length_eq hchanges ▸ (List.getElem?_eq_some_iff.mp hf).1
  rw [hg.target_eq hlt] at htarget
  by_cases hkey : id = key
  · subst hkey
    exact hself n hn htarget
  · have happart := hchanges.apart h.sound hkey
    rw [happart.entry_eq, hasStatus_congr happart.record_eq]
    exact h.work n key (hsub n hn) htarget

/-- Storing does not change whose work goes on. -/
theorem Accounted.set (h : Accounted r pending) {g : Generation} (hset : r.set g = .ok r')
    (hrunning : r.isInFlight g.id → g.status = .running) : Accounted r' pending := by
  have hgrows := (set_sound h.sound hset).2
  refine h.of_changes (h.toInStep.set hset hrunning) hgrows (changes_set hset) (fun _ => id)
    fun n hn htarget => ?_
  refine (h.work n g.id hn htarget).imp (fun hentry => ?_) (hgrows.status _ .cancelled rfl)
  rwa [set_eq_put hset, inFlight_put]

/-- A start adds its own work. The generation was not in flight, so no work of
an earlier start is left unless that was stopped. -/
theorem Accounted.begin (h : Accounted r pending) {isStreaming : Bool}
    (hbegin : r.begin id isStreaming now = .ok (r', n))
    (hsub : ∀ m, pending' m → pending m ∨ m = n) : Accounted r' pending' := by
  obtain ⟨hqueued, hfree⟩ := h.free_of_begin hbegin
  obtain ⟨-, hgrows, htarget⟩ := begin_sound h.sound hbegin
  obtain ⟨-, rfl, hlength, g, hlive⟩ := begin_of_free hfree hbegin
  refine ⟨h.toInStep.begin hbegin, fun m key hm hkey => ?_⟩
  by_cases hnew : m = r.flights.length
  · subst hnew
    obtain rfl := Option.some.inj (htarget.symm.trans hkey)
    exact Or.inl hlive.entry_eq
  · have hlt : m < r.flights.length := by
      obtain ⟨f, hf, -⟩ := Option.map_eq_some_iff.mp hkey
      have := (List.getElem?_eq_some_iff.mp hf).1
      omega
    rw [hgrows.target_eq hlt] at hkey
    have hwork := h.work m key ((hsub m hm).resolve_right hnew) hkey
    have hne : id ≠ key := by
      rintro rfl
      rcases hwork with hentry | hcancelled
      · simp [hfree] at hentry
      · exact absurd (hqueued.unique hcancelled) (by decide)
    have happart := apart_begin hbegin h.sound hne
    rwa [happart.entry_eq, hasStatus_congr happart.record_eq]

/-- Text ends no work. -/
theorem Accounted.delta (h : Accounted r pending) (id : GenerationId) (text : String) :
    Accounted (r.delta id text).1 pending := by
  have hgrows : Grows r (r.delta id text).1 := (delta_sound h.sound).2
  refine h.of_changes (h.toInStep.delta id text) hgrows (changes_delta text) (fun _ hn => hn)
    fun n hn htarget => ?_
  rw [(delta_tables id text).2]
  exact (h.work n id hn htarget).imp_right (hgrows.status _ .cancelled rfl)

/-- A stop leaves work of a cancelled generation. -/
theorem Accounted.stop (h : Accounted r pending) {wasLive : Bool}
    (hstop : r.stop id now = .ok (r', wasLive)) : Accounted r' pending := by
  rcases (h.stop_eq hstop).2 with rfl | hcancelled
  · exact h
  · exact h.of_changes (h.toInStep.stop hstop) (stop_sound h.sound hstop).2 (changes_stop hstop)
      (fun _ hn => hn) fun _ _ _ => Or.inr hcancelled

/-- The end of the work of a flight. -/
theorem Accounted.endWork (h : Accounted r pending) (hn : pending n) (result : WorkResult)
    (now : Timestamp) : Accounted (r.endWork now (n, result)) fun m => pending m ∧ m ≠ n := by
  have hinStep := h.toInStep.endWork now (n, result)
  unfold Registry.endWork at hinStep ⊢
  cases htarget : r.target? n with
  | none =>
    simp only
    exact h.mono fun m hm => hm.1
  | some id =>
    simp only [htarget] at hinStep ⊢
    have hgrows : Grows r (r.finish id result now).1 := (finish_sound h.sound).2
    refine h.of_changes hinStep hgrows (changes_finish result now) (fun m hm => hm.1)
      fun m hm hsame => ?_
    rcases h.work m id hm.1 hsame with hentry | hcancelled
    · exact absurd (h.unique hentry hn htarget).symm hm.2
    · exact Or.inr (hgrows.status _ .cancelled rfl hcancelled)

/-- The end of the work of one flight is nothing to another that is in
flight, of the same generation or not. -/
theorem Accounted.endWork_apart (h : Accounted r pending) (hn : pending n)
    (hentry : r.inFlight.get? id = some m) (hne : n ≠ m) (result : WorkResult) (now : Timestamp) :
    Apart id r (r.endWork now (n, result)) := by
  unfold Registry.endWork
  cases htarget : r.target? n with
  | none => exact .refl id r
  | some key =>
    have hkey : key ≠ id := by
      rintro rfl
      exact hne (h.unique hentry hn htarget)
    exact (changes_finish result now).apart h.sound hkey

/-- Ends of different flights, all of them pending: none ends the work of
another. -/
theorem Accounted.endAll (h : Accounted r pending) (hes : ∀ e ∈ es, pending e.1)
    (hnodup : (es.map (·.1)).Nodup) (now : Timestamp) :
    Accounted (r.endAll now es) (fun n => pending n ∧ n ∉ es.map (·.1)) ∧
      ∀ id m, r.inFlight.get? id = some m → m ∉ es.map (·.1) → Apart id r (r.endAll now es) := by
  induction es generalizing r pending with
  | nil => exact ⟨h.mono fun n hn => hn.1, fun id _ _ _ => .refl id r⟩
  | cons e rest ih =>
    obtain ⟨he, hrest⟩ := List.nodup_cons.mp hnodup
    have hfirst := hes e List.mem_cons_self
    obtain ⟨hothers, happart⟩ := ih (h.endWork hfirst e.2 now)
      (fun d hd => ⟨hes d (List.mem_cons_of_mem e hd), fun heq =>
        he (List.mem_map.mpr ⟨d, hd, heq⟩)⟩) hrest
    refine ⟨hothers.mono fun n hn => ?_, fun id m hentry hm => ?_⟩
    · obtain ⟨hpending, hnot⟩ := hn
      obtain ⟨hne, hnot⟩ := not_or.mp (mt List.mem_cons.mpr hnot)
      exact ⟨⟨hpending, hne⟩, hnot⟩
    · obtain ⟨hne, hnot⟩ := not_or.mp (mt List.mem_cons.mpr hm)
      have hstep := h.endWork_apart hfirst hentry (Ne.symm hne) e.2 now
      exact hstep.trans (happart id m (hstep.entry_eq.trans hentry) hnot)

/-- One command, if what it stores is running where it has to be, and the work
that it ends goes on. -/
theorem Accounted.effect (h : Accounted r pending) (he : r.Effect now c es started r')
    (hset : ∀ g, c = .set g → r.set g = .ok r' → r.isInFlight g.id → g.status = .running)
    (hes : ∀ e ∈ es, pending e.1) (hnodup : (es.map (·.1)).Nodup)
    (hsub : ∀ n, pending' n → pending n ∧ n ∉ es.map (·.1) ∨ started = some n) :
    Accounted r' pending' := by
  have hold : ∀ n, started = none → pending' n → pending n ∧ n ∉ es.map (·.1) :=
    fun n hnone hn => (hsub n hn).resolve_right (by simp [hnone])
  cases he with
  | set hr => exact (h.set hr (hset _ rfl hr)).mono fun n hn => (hold n rfl hn).1
  | start hr =>
    exact h.begin hr fun n hn => (hsub n hn).imp And.left fun heq => (Option.some.inj heq).symm
  | stop hr => exact (h.stop hr).mono fun n hn => (hold n rfl hn).1
  | delta _ text => exact (h.delta _ text).mono fun n hn => (hold n rfl hn).1
  | ends => exact (h.endAll hes hnodup now).1.mono fun n hn => hold n rfl hn

/-! ## Flights that go on -/

/-- The generation stays in flight with the same flight, which has heard at
most text. -/
structure GoesOn (id : GenerationId) (m : Nat) (r r' : Registry) : Prop where
  entry_eq : r'.inFlight.get? id = some m
  flight : ∀ f, r.flights[m]? = some f →
    ∃ texts : List String, r'.flights[m]? = some { f with heard := f.heard ++ texts.map .delta }

theorem goesOn_of_flights (hentry : r'.inFlight.get? id = some m) (h : r'.flights = r.flights) :
    GoesOn id m r r' :=
  ⟨hentry, fun f hf => ⟨[], by simpa [h] using hf⟩⟩

/-- Calls on other generations let a flight go on. -/
theorem Apart.goesOn (h : Apart id r r') (hs : Sound r) (hentry : r.inFlight.get? id = some m) :
    GoesOn id m r r' := by
  refine ⟨h.entry_eq.trans hentry, fun f hf => ⟨[], ?_⟩⟩
  have htarget := hs.inFlight_target id m hentry
  rw [target?_of_flight hf, Option.some.injEq] at htarget
  simpa using (h.flight_iff m f htarget).mpr hf

/-- Text is all that a flight may hear as it goes on. -/
theorem delta_goesOn (hs : Sound r) (hentry : r.inFlight.get? id = some m) (key : GenerationId)
    (text : String) : GoesOn id m r (r.delta key text).1 := by
  by_cases hkey : key = id
  · subst hkey
    simp only [Registry.delta, hentry]
    split
    · exact ⟨hentry, fun f hf => ⟨[text], by simp [hf]⟩⟩
    · exact goesOn_of_flights hentry rfl
  · exact ((changes_delta text).apart hs hkey).goesOn hs hentry

/-- Only a stop and the end of its own work take a generation out of
flight. -/
theorem Accounted.goesOn (h : Accounted r pending) (he : r.Effect now c es started r')
    (hes : ∀ e ∈ es, pending e.1) (hnodup : (es.map (·.1)).Nodup)
    (hentry : r.inFlight.get? id = some m) (hstop : c ≠ .stop id) (hm : m ∉ es.map (·.1)) :
    GoesOn id m r r' := by
  cases he with
  | set hr =>
    obtain rfl := set_eq_put hr
    exact goesOn_of_flights hentry rfl
  | @start key _ _ _ hr =>
    have hne : key ≠ id := by
      rintro rfl
      simp [(h.free_of_begin hr).2] at hentry
    exact (apart_begin hr h.sound hne).goesOn h.sound hentry
  | @stop key _ _ hr =>
    have hne : key ≠ id := fun heq => hstop (heq ▸ rfl)
    exact ((changes_stop hr).apart h.sound hne).goesOn h.sound hentry
  | delta _ text => exact delta_goesOn h.sound hentry _ text
  | ends => exact ((h.endAll hes hnodup now).2 id m hentry hm).goesOn h.sound hentry

end Registry

namespace Executor

open Registry

variable {x : Executor} {id : GenerationId} {n : Nat} {now : Timestamp} {c : Command}
  {done : List Nat}

/-! ## Work and tickets -/

/-- An executor whose registry accounts for the work of its staff, and whose
tickets are of different flights. -/
structure Accounted (x : Executor) (done : List Nat) : Prop where
  registry : x.registry.Accounted (x.Pending done)
  tickets : ∀ relay, x.staff = .relay relay → relay.tickets.Nodup ∧
    ∀ n ∈ relay.tickets, n < x.registry.flights.length

theorem accounted_ofRelay : ofRelay.Accounted [] :=
  ⟨accounted_empty _, fun relay h => by cases h; simp [Relay.new, Relay.tickets]⟩

theorem accounted_ofWorkers (operations : List Operation) : (ofWorkers operations).Accounted [] :=
  ⟨accounted_empty _, fun relay h => by cases h⟩

theorem pending_iff_ticket {relay : Relay} (h : x.staff = .relay relay) :
    x.Pending done n ↔ n ∈ relay.tickets := by
  rw [pending_of_relay h, Relay.tickets, List.mem_append]

/-- The tickets after a command, and those whose work it ends. -/
theorem Accounted.relay_tickets (hx : x.Accounted done) {relay : Relay}
    (hstaff : x.staff = .relay relay) (now : Timestamp) (c : Command) :
    let tickets := (relay.after c (x.run now c).2).tickets
    ((x.results c).map (·.1) ++ tickets).Nodup ∧
      ∀ n, n ∈ (x.results c).map (·.1) ++ tickets →
        n ∈ relay.tickets ∨ (x.run now c).2.started? = some n := by
  obtain ⟨hnodup, hlt⟩ := hx.tickets relay hstaff
  have hperm := tickets_conserved hstaff now c
  refine ⟨hperm.nodup_iff.mpr ?_, fun n hn => ?_⟩
  · cases hstarted : (x.run now c).2.started? with
    | none => simpa using hnodup
    | some n =>
      have hnew := (started_eq hstarted).1
      refine List.nodup_append.mpr ⟨hnodup, by simp, fun m hm k hk => ?_⟩
      have := hlt m hm
      obtain rfl : k = n := by simpa using hk
      omega
  · simpa using hperm.mem_iff.mp hn

/-- The results that a command brings in are of work that goes on, and of
each flight there is one. -/
theorem Accounted.results_pending (hx : x.Accounted done)
    (hreport : ∀ operations n, x.staff = .workers operations → c.reported? = some n → n ∉ done)
    (now : Timestamp) :
    (∀ e ∈ x.results c, x.Pending done e.1) ∧ ((x.results c).map (·.1)).Nodup := by
  cases hstaff : x.staff with
  | workers operations =>
    cases c with
    | report n result =>
      simp only [results, hstaff, List.forall_mem_singleton, List.map_cons, List.map_nil]
      exact ⟨(pending_of_workers hstaff).mpr (hreport operations n hstaff rfl), by simp⟩
    | _ => simp [results, redeemed, isHeld, lost, relay?, withRelay, hstaff]
  | relay relay =>
    obtain ⟨hnodup, hmem⟩ := hx.relay_tickets hstaff now c
    refine ⟨fun e he => ?_, (List.nodup_append.mp hnodup).1⟩
    have hflight : e.1 ∈ (x.results c).map (·.1) := List.mem_map_of_mem he
    rcases hmem e.1 (List.mem_append_left _ hflight) with hticket | hstarted
    · exact (pending_iff_ticket hstaff).mpr hticket
    · have heffect := run_effect x now c
      rw [hstarted] at heffect
      simp [heffect.results_of_started] at he

/-- The work that goes on after a command. -/
theorem Accounted.pending_run (hx : x.Accounted done) (now : Timestamp) (c : Command) {n : Nat}
    (hn : (x.run now c).1.Pending (done ++ c.reported?.toList) n) :
    x.Pending done n ∧ n ∉ (x.results c).map (·.1) ∨ (x.run now c).2.started? = some n := by
  have hstaff' := run_staff x now c
  cases hstaff : x.staff with
  | workers operations =>
    rw [hstaff] at hstaff'
    rw [pending_of_workers hstaff', List.mem_append, not_or] at hn
    refine Or.inl ⟨(pending_of_workers hstaff).mpr hn.1, ?_⟩
    cases c with
    | report m result => simpa [results, hstaff, Command.reported?] using hn.2
    | _ => simp [results, redeemed, isHeld, lost, relay?, withRelay, hstaff]
  | relay relay =>
    rw [hstaff] at hstaff'
    obtain ⟨hnodup, hmem⟩ := hx.relay_tickets hstaff now c
    have hticket := (pending_iff_ticket hstaff').mp hn
    refine (hmem n (List.mem_append_right _ hticket)).imp_left fun hold => ?_
    exact ⟨(pending_iff_ticket hstaff).mpr hold, fun hresult =>
      (List.nodup_append.mp hnodup).2.2 n hresult n hticket rfl⟩

/-- One command. -/
theorem Accounted.run (hx : x.Accounted done)
    (hset : ∀ g r, c = .set g → x.registry.set g = .ok r → x.isInFlight g.id → g.status = .running)
    (hreport : ∀ operations n, x.staff = .workers operations → c.reported? = some n → n ∉ done)
    (now : Timestamp) :
    (x.run now c).1.Accounted (done ++ c.reported?.toList) ∧
      ∀ id m, x.registry.inFlight.get? id = some m → c ≠ .stop id →
        m ∉ (x.results c).map (·.1) → GoesOn id m x.registry (x.run now c).1.registry := by
  have heffect := run_effect x now c
  obtain ⟨hpending, hnodup⟩ := hx.results_pending hreport now
  refine ⟨⟨hx.registry.effect heffect (fun g => hset g _) hpending hnodup
    fun n => hx.pending_run now c, fun relay' hrelay' => ?_⟩,
    fun id m => hx.registry.goesOn heffect hpending hnodup⟩
  have hstaff' := run_staff x now c
  cases hstaff : x.staff with
  | workers operations =>
    rw [hstaff, hrelay'] at hstaff'
    cases hstaff'
  | relay relay =>
    rw [hstaff, hrelay'] at hstaff'
    obtain rfl := Staff.relay.inj hstaff'
    obtain ⟨hboth, hmem⟩ := hx.relay_tickets hstaff now c
    refine ⟨(List.nodup_append.mp hboth).2.1, fun n hn => ?_⟩
    rcases hmem n (List.mem_append_right _ hn) with hold | hstarted
    · exact (run_sound hx.registry.sound now c).2.lt ((hx.tickets relay hstaff).2 n hold)
    · exact (started_eq hstarted).2

/-! ## Histories of calls -/

/-- The records that are stored, up to the first that is refused. -/
def accepted (x : Executor) : List Generation → List Generation
  | [] => []
  | g :: rest =>
    match x.set g with
    | .error _ => []
    | .ok x => g :: x.accepted rest

/-- The records that a call stores. -/
def stored (x : Executor) : Call → List Generation
  | .command (.set g) => x.accepted [g]
  | .command _ => []
  | .insertAll generations => x.accepted generations

/-- The flights whose work a call reports. -/
def Call.reported? : Call → Option Nat
  | .command c => c.reported?
  | .insertAll _ => none

/-- The flights whose work a call ends. -/
def ending (x : Executor) : Call → List Nat
  | .command c => (x.results c).map (·.1)
  | .insertAll _ => []

/-- A record that is stored over a generation in flight is a running one. -/
def KeepsRunning (x : Executor) (calls : List (Timestamp × Call)) : Prop :=
  ∀ i now c, calls[i]? = some (now, c) → ∀ g ∈ (x.callAll (calls.take i)).stored c,
    (x.callAll (calls.take i)).isInFlight g.id → g.status = .running

/-- A worker has one result for each flight. -/
def ReportsOnce (x : Executor) (calls : List (Timestamp × Call)) : Prop :=
  ∀ i now c n operations, calls[i]? = some (now, c) → c.reported? = some n →
    (x.callAll (calls.take i)).staff = .workers operations →
    n ∉ (calls.take i).filterMap (·.2.reported?)

theorem callAll_append (x : Executor) (calls : List (Timestamp × Call)) (e : Timestamp × Call) :
    x.callAll (calls ++ [e]) = (x.callAll calls).call e.1 e.2 := by
  induction calls generalizing x with
  | nil => rfl
  | cons d rest ih => exact ih (x.call d.1 d.2)

theorem callAll_take_succ {calls : List (Timestamp × Call)} {i : Nat} {call : Call}
    (hc : calls[i]? = some (now, call)) :
    x.callAll (calls.take (i + 1)) = (x.callAll (calls.take i)).call now call := by
  rw [List.take_add_one, hc]
  exact callAll_append x (calls.take i) (now, call)

/-- What storing keeps, unless it is another record over a generation in
flight, loading keeps. -/
theorem insertAll_induction {P : Registry → Prop}
    (hset : ∀ r r' g, P r → r.set g = .ok r' → (r.isInFlight g.id → g.status = .running) → P r')
    {generations : List Generation} (hx : P x.registry)
    (hrunning : ∀ g ∈ x.accepted generations, x.isInFlight g.id → g.status = .running) :
    P (x.insertAll generations).1.registry := by
  induction generations generalizing x with
  | nil => exact hx
  | cons g rest ih =>
    unfold insertAll
    unfold accepted at hrunning
    cases h : x.set g with
    | error e => exact hx
    | ok x' =>
      simp only [h, List.forall_mem_cons] at hrunning
      obtain ⟨r, hr, rfl⟩ := set_eq h
      have hentries : r.inFlight = x.registry.inFlight := by rw [set_eq_put hr, inFlight_put]
      refine ih (hset _ _ g hx hr hrunning.1) fun k hk hflying => hrunning.2 k hk ?_
      simpa [Executor.isInFlight, Registry.isInFlight, hentries] using hflying

theorem mem_stored_set {g : Generation} {r : Registry} (h : x.registry.set g = .ok r) :
    g ∈ x.stored (.command (.set g)) := by
  simp [stored, accepted, Executor.set, h, Except.map]

/-- One call keeps the two tables in step, if it keeps running records
running. -/
theorem call_inStep (hx : x.registry.InStep) {call : Call}
    (hrunning : ∀ g ∈ x.stored call, x.isInFlight g.id → g.status = .running) (now : Timestamp) :
    (x.call now call).registry.InStep := by
  cases call with
  | command c =>
    refine hx.effect (run_effect x now c) fun g hc hr => ?_
    subst hc
    exact hrunning g (mem_stored_set hr)
  | insertAll generations =>
    exact insertAll_induction (fun _ _ _ h hr hflying => h.set hr hflying) hx hrunning

/-- One call, with the work that it reports: what goes on is accounted for, and
no flight is ended by the work of another. -/
theorem Accounted.call (hx : x.Accounted done) {call : Call}
    (hrunning : ∀ g ∈ x.stored call, x.isInFlight g.id → g.status = .running)
    (hreport : ∀ operations n, x.staff = .workers operations → call.reported? = some n → n ∉ done)
    (now : Timestamp) :
    (x.call now call).Accounted (done ++ call.reported?.toList) ∧
      ∀ id m, x.registry.inFlight.get? id = some m → call ≠ .command (.stop id) →
        m ∉ x.ending call → GoesOn id m x.registry (x.call now call).registry := by
  cases call with
  | command c =>
    obtain ⟨haccounted, hgoesOn⟩ := hx.run (c := c) (fun g r hc hr => by
      subst hc
      exact hrunning g (mem_stored_set hr)) hreport now
    exact ⟨haccounted, fun id m hentry hstop => hgoesOn id m hentry fun hc => hstop (hc ▸ rfl)⟩
  | insertAll generations =>
    have hregistry : (x.insertAll generations).1.registry.Accounted (x.Pending done) :=
      insertAll_induction (P := (Registry.Accounted · (x.Pending done)))
        (fun _ _ _ h hr hflying => h.set hr hflying) hx.registry hrunning
    obtain ⟨hstaff, hentries, hflights⟩ := x.insertAll_tables generations
    have heq : x.call now (.insertAll generations) = (x.insertAll generations).1 := rfl
    rw [heq]
    refine ⟨⟨hregistry.mono fun n hn => ?_, fun relay hrelay => ?_⟩, fun id m hentry _ _ => ?_⟩
    · simpa [Pending, Call.reported?, hstaff] using hn
    · have htickets := hx.tickets relay (hstaff.symm.trans hrelay)
      rwa [← hflights] at htickets
    · exact goesOn_of_flights (by rw [hentries]; exact hentry) hflights

section Histories

variable {calls : List (Timestamp × Call)} {i : Nat}

/-- Any history that keeps running records running keeps the two tables in
step. -/
theorem KeepsRunning.inStep (h : x.KeepsRunning calls) (hx : x.registry.InStep) (i : Nat) :
    (x.callAll (calls.take i)).registry.InStep := by
  refine take_induction (P := fun cs => (x.callAll cs).registry.InStep) hx (fun i e hc ih => ?_) i
  rw [callAll_append]
  exact call_inStep ih (h i e.1 e.2 hc) e.1

/-- Any such history, with each flight reported once, accounts for all work. -/
theorem KeepsRunning.accounted (h : x.KeepsRunning calls) (honce : x.ReportsOnce calls)
    (hx : x.Accounted []) (i : Nat) :
    (x.callAll (calls.take i)).Accounted ((calls.take i).filterMap (·.2.reported?)) := by
  refine take_induction (P := fun cs => (x.callAll cs).Accounted (cs.filterMap (·.2.reported?))) hx
    (fun i e hc ih => ?_) i
  have hreported : (calls.take i ++ [e]).filterMap (·.2.reported?) =
      (calls.take i).filterMap (·.2.reported?) ++ e.2.reported?.toList := by
    rw [List.filterMap_append]
    cases he : e.2.reported? <;> simp [he]
  rw [callAll_append, hreported]
  exact (ih.call (h i e.1 e.2 hc) (fun operations n hstaff hn =>
    honce i e.1 e.2 n operations hc hn hstaff) e.1).1

/-- **In step.** As long as no call stores a record that is not running over
a generation in flight: every generation in flight has a running record; a
stop of it is answered, leaves it cancelled and takes it out of flight; and
besides a stop only the end of its own work does, so that no flight is ended
by the work of an earlier or a later one. -/
theorem entries_in_step (hx : x = ofRelay ∨ ∃ operations, x = ofWorkers operations)
    (hrunning : x.KeepsRunning calls) (i : Nat) :
    let y := x.callAll (calls.take i)
    (∀ id, y.isInFlight id → y.registry.HasStatus id .running) ∧
    (∀ id now, y.isInFlight id →
      ∃ z, y.stop id now = .ok z ∧ z.registry.HasStatus id .cancelled ∧ z.isInFlight id = false) ∧
    (x.ReportsOnce calls → ∀ now call id m, calls[i]? = some (now, call) →
      y.registry.inFlight.get? id = some m → call ≠ .command (.stop id) → m ∉ y.ending call →
      GoesOn id m y.registry (x.callAll (calls.take (i + 1))).registry) := by
  intro y
  have hempty : x.registry.InStep ∧ x.Accounted [] := by
    rcases hx with rfl | ⟨operations, rfl⟩
    · exact ⟨inStep_empty, accounted_ofRelay⟩
    · exact ⟨inStep_empty, accounted_ofWorkers operations⟩
  have hinStep := hrunning.inStep hempty.1 i
  refine ⟨fun id hflying => ?_, fun id now hflying => ?_, fun honce now call id m hc hentry => ?_⟩
  · obtain ⟨n, hentry⟩ := Option.isSome_iff_exists.mp hflying
    exact hinStep.running id n hentry
  · obtain ⟨n, hentry⟩ := Option.isSome_iff_exists.mp hflying
    obtain ⟨r, hstop, hcancelled, hfree⟩ := hinStep.stops hentry now
    refine ⟨{ y with registry := r }, ?_, hcancelled, ?_⟩
    · simp [Executor.stop, y, hstop, Except.map]
    · simp [Executor.isInFlight, Registry.isInFlight, Table.contains, hfree]
  · rw [callAll_take_succ hc]
    exact ((hrunning.accounted honce hempty.2 i).call (hrunning i now call hc)
      (fun operations n hstaff hn => honce i now call n operations hc hn hstaff) now).2 id m hentry

/-- A queued record. -/
def sampleQueued : Generation :=
  { (default : Generation) with id := ⟨"gnr-1"⟩, status := .queued }

/-- The record is loaded, runs, is stored again as a running one, breaks, and
is started anew. -/
def sampleRestart : List (Timestamp × Call) :=
  let id := sampleQueued.id
  [.insertAll [sampleQueued], .command (.start id true), .command .take,
    .command (.set { sampleQueued with status := .running, error := some "retried" }),
    .command (.report 0 (.error "lost")), .command (.set sampleQueued),
    .command (.start id false), .command .take, .command (.delta 0 "late")].map (default, ·)

theorem sample_entries_in_step : ofRelay.KeepsRunning sampleRestart ∧
    ofRelay.ReportsOnce sampleRestart ∧
    (∃ z, (ofRelay.callAll sampleRestart).stop sampleQueued.id default = .ok z ∧
      z.registry.HasStatus sampleQueued.id .cancelled ∧ z.isInFlight sampleQueued.id = false) ∧
    GoesOn sampleQueued.id 1 (ofRelay.callAll (sampleRestart.take 8)).registry
      (ofRelay.callAll sampleRestart).registry := by
  have hrunning : ofRelay.KeepsRunning sampleRestart := by
    intro i now c hc
    have hi : i < 9 := (List.getElem?_eq_some_iff.mp hc).1
    interval_cases i <;> cases hc <;> decide +kernel
  have honce : ofRelay.ReportsOnce sampleRestart := by
    intro i now c n operations hc hn hstaff
    have hi : i < 9 := (List.getElem?_eq_some_iff.mp hc).1
    interval_cases i <;> cases hc <;> cases hn
    cases hstaff
  obtain ⟨-, hstop, -⟩ := entries_in_step (Or.inl rfl) hrunning 9
  obtain ⟨-, -, hgoesOn⟩ := entries_in_step (Or.inl rfl) hrunning 8
  exact ⟨hrunning, honce, hstop sampleQueued.id default (by decide +kernel),
    hgoesOn honce default _ sampleQueued.id 1 rfl (by decide +kernel) (by simp)
      (by decide +kernel)⟩

/-- A record that is stored over a generation in flight can put the tables out
of step. Then a generation in flight need not have a running record, a stop
need not take it out of flight, and the end of one start can end another. -/
theorem entry_out_of_step :
    (¬ ∀ calls id, (ofRelay.callAll calls).isInFlight id →
      (ofRelay.callAll calls).registry.HasStatus id .running) ∧
    (¬ ∀ calls id now y, (ofRelay.callAll calls).isInFlight id →
      (ofRelay.callAll calls).stop id now = .ok y → y.isInFlight id = false) ∧
    ¬ ∀ calls id now n m result, (ofRelay.callAll calls).registry.inFlight.get? id = some m →
      n ≠ m → GoesOn id m (ofRelay.callAll calls).registry
        ((ofRelay.callAll calls).run now (.report n result)).1.registry := by
  refine ⟨fun h => ?_, fun h => ?_, fun h => ?_⟩
  · have hstatus := h ([.command (.set sampleQueued), .command (.start sampleQueued.id false),
      .command (.set sampleQueued)].map (default, ·)) sampleQueued.id (by decide +kernel)
    exact absurd hstatus (by decide +kernel)
  · have hfree := h ([.command (.set sampleQueued), .command (.start sampleQueued.id false),
      .command (.set { sampleQueued with status := .completed })].map (default, ·))
      sampleQueued.id default _ (by decide +kernel) rfl
    exact absurd hfree (by decide +kernel)
  · have hentry := (h ([.command (.set sampleQueued), .command (.start sampleQueued.id false),
      .command (.set sampleQueued), .command (.start sampleQueued.id false),
      .command .take].map (default, ·)) sampleQueued.id default 0 1 (.ok [])
      (by decide +kernel) (by decide)).entry_eq
    exact absurd hentry (by decide +kernel)

end Histories

end Executor

end Workflow
