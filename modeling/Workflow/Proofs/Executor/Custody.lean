/-
Workflow.Proofs.Executor.Custody — who has the ticket of a generation in
flight.

A start on a relay has three parts, and others may come between them: a
driver is seen, the generation is put in flight, and the ticket is sent to
the queue. A ticket is in hand while such a start or a driver has it, and
otherwise it waits.

* `Custody` — the invariant: the ticket of every generation in flight is in
  hand or waits.
* `tickets_attended` — if the last driver leaves no ticket of a generation in
  flight in the queue, then at all times those that wait have a driver.
* `ticket_stranded` — the last driver can leave one there.
-/
import Workflow.Proofs.Executor.Effect
import Workflow.Proofs.Executor.Final

namespace Workflow

open Registry

/-! ## Starts in parts

A start behind a relay is no single step: it is checked, boards, and its
ticket is sent. Others may act in between. -/

namespace Executor

/-- A ticket goes to the queue. Where no driver is left, it is dropped. -/
def send (x : Executor) (n : Nat) (now : Timestamp) : Executor :=
  match x.relay? with
  | none => x
  | some relay =>
    if relay.drivers = 0 then (x.finish n (.error lostTicket) now).1
    else x.withRelay fun r => { r with waiting := r.waiting ++ [n] }

/-- Whether the starting side is given up. -/
def Call.disowns : Call → Bool
  | .command .disown => true
  | _ => false

end Executor

/-- A start that is under way. -/
inductive Traffic.Departure where
  /-- A driver was seen; the generation is not yet in flight. -/
  | checked (id : GenerationId) (isStreaming : Bool)
  /-- The generation is in flight; the ticket is not yet sent. -/
  | ticketed (flight : Nat)
deriving DecidableEq, Repr

/-- A call that nothing comes between, or one part of a start. -/
inductive Traffic.Action where
  | call (call : Executor.Call)
  /-- The first part of a start: is anybody there to do the work? -/
  | check (id : GenerationId) (isStreaming : Bool)
  /-- The second: the generation is put in flight. -/
  | board (id : GenerationId) (isStreaming : Bool)
  /-- The third: its request is sent to the drivers. -/
  | send (flight : Nat)
deriving Repr

/-- An executor and the starts that are under way. -/
structure Traffic where
  executor : Executor
  underway : List Traffic.Departure
deriving Repr

namespace Traffic

/-- A new relay. -/
def new : Traffic := ⟨.ofRelay, []⟩

/-- Takes one action. A start that is under way still holds the starting
side. -/
def act (t : Traffic) (now : Timestamp) : Action → Traffic
  | .call c =>
    if c.disowns && !t.underway.isEmpty then t
    else { t with executor := t.executor.call now c }
  | .check id isStreaming =>
    match t.executor.checkStaff id with
    | .error _ => t
    | .ok _ => { t with underway := t.underway ++ [.checked id isStreaming] }
  | .board id isStreaming =>
    if .checked id isStreaming ∈ t.underway then
      let rest := t.underway.erase (.checked id isStreaming)
      match t.executor.registry.begin id isStreaming now with
      | .error _ => { t with underway := rest }
      | .ok (registry, n) => ⟨{ t.executor with registry }, rest ++ [.ticketed n]⟩
    else t
  | .send n =>
    if .ticketed n ∈ t.underway then
      ⟨t.executor.send n now, t.underway.erase (.ticketed n)⟩
    else t

/-- Takes actions in order, each at its time. -/
def actAll (t : Traffic) : List (Timestamp × Action) → Traffic
  | [] => t
  | (now, a) :: rest => (t.act now a).actAll rest

/-- Whether somebody has the ticket of a flight in hand. -/
def InHand (t : Traffic) (relay : Relay) (n : Nat) : Prop :=
  n ∈ relay.held ∨ .ticketed n ∈ t.underway

variable {t : Traffic} {x : Executor} {relay relay' : Relay} {id : GenerationId} {n : Nat}
  {now : Timestamp}

theorem checkStaff_of_relay (h : x.staff = .relay relay) (id : GenerationId) :
    x.checkStaff id = if relay.drivers = 0 || !relay.isOwned then .error .closed else .ok () := by
  simp [Executor.checkStaff, h]

theorem send_of_relay (h : x.staff = .relay relay) (hdrivers : relay.drivers ≠ 0) (n : Nat) :
    x.send n now = { x with staff := .relay { relay with waiting := relay.waiting ++ [n] } } := by
  simp [Executor.send, Executor.relay?, Executor.withRelay, h, hdrivers]

/-- With nothing in between, the three parts are a start. -/
theorem parts_of_start (h : x.staff = .relay relay) (id : GenerationId) (isStreaming : Bool)
    (now : Timestamp) :
    let t := ((⟨x, []⟩ : Traffic).act now (.check id isStreaming)).act now (.board id isStreaming)
    t.act now (.send x.registry.flights.length) = ⟨(x.run now (.start id isStreaming)).1, []⟩ := by
  intro t
  by_cases hclosed : relay.drivers = 0 || !relay.isOwned
  · have hcheck : x.checkStaff id = .error .closed := by
      rw [checkStaff_of_relay h, if_pos hclosed]
    simp [t, act, hcheck, Executor.run, Executor.start, bind, Except.bind]
  · have hcheck : x.checkStaff id = .ok () := by
      rw [checkStaff_of_relay h, if_neg hclosed]
    have hdrivers : relay.drivers ≠ 0 := fun hzero => hclosed (by simp [hzero])
    cases hbegin : x.registry.begin id isStreaming now with
    | error e => simp [t, act, hcheck, hbegin, Executor.run, Executor.start, bind, Except.bind]
    | ok boarded =>
      have hn := (begin_eq hbegin).1
      have hsend : (⟨boarded.1, .relay relay⟩ : Executor).send boarded.2 now =
          ⟨boarded.1, .relay { relay with waiting := relay.waiting ++ [boarded.2] }⟩ :=
        send_of_relay rfl hdrivers boarded.2
      simp [t, act, hcheck, hbegin, ← hn, hsend, Executor.run, Executor.start, Executor.assign, h,
        bind, Except.bind, pure, Except.pure]

/-! ## Custody -/

/-- Every generation in flight has its ticket in the queue or in somebody's
hands, and tickets are of flights that there are. -/
structure Custody (t : Traffic) (relay : Relay) : Prop where
  staff : t.executor.staff = .relay relay
  sound : t.executor.registry.Sound
  lt : ∀ n, n ∈ relay.waiting ∨ t.InHand relay n → n < t.executor.registry.flights.length
  /-- No flight is without its ticket. -/
  ticket : ∀ id n, t.executor.registry.inFlight.get? id = some n →
    n ∈ relay.waiting ∨ t.InHand relay n

/-- Where no driver is left, no ticket of a generation in flight waits. -/
def Attended (t : Traffic) (relay : Relay) : Prop :=
  relay.drivers = 0 → ∀ id n, t.executor.registry.inFlight.get? id = some n → n ∉ relay.waiting

/-- No ticket of a generation in flight waits when the last driver leaves,
while someone still holds the starting side. -/
def LeavesNone (t : Traffic) (relay : Relay) : Action → Prop
  | .call (.command .dropDriver) => relay.drivers = 1 → relay.isOwned →
    ∀ id n, t.executor.registry.inFlight.get? id = some n → n ∉ relay.waiting
  | _ => True

/-- Nothing is in flight. -/
theorem custody_new : Custody new .new where
  staff := rfl
  sound := sound_empty
  lt := fun n h => by simp [new, Relay.new, InHand] at h
  ticket := fun id n h => by simp [new, Executor.ofRelay, Registry.empty] at h

theorem attended_new : Attended new .new := fun h => by simp [Relay.new] at h

/-- A ticket is one of the relay's, or under way. -/
theorem ticket_iff : n ∈ relay.waiting ∨ t.InHand relay n ↔
    n ∈ relay.tickets ∨ .ticketed n ∈ t.underway := by
  rw [InHand, Relay.tickets, List.mem_append, or_assoc]

end Traffic

theorem Relay.swept_drivers (relay : Relay) : relay.swept.drivers = relay.drivers := by
  unfold Relay.swept
  split <;> rfl

/-- A ticket that is left waiting waited before, and one of the two sides is
there. -/
theorem Relay.mem_swept_waiting {relay : Relay} {n : Nat} (h : n ∈ relay.swept.waiting) :
    n ∈ relay.waiting ∧ (relay.drivers = 0 → relay.isOwned) := by
  unfold Relay.swept at h
  split at h
  · cases h
  · rename_i hover
    exact ⟨h, fun hzero => by simpa [hzero] using hover⟩

/-- Where no driver is left after a command, what waits was waiting before,
and there was no driver before, or the last one goes. -/
theorem Relay.after_waiting {relay : Relay} {c : Executor.Command} {a : Executor.Answer} {n : Nat}
    (hstart : a.started? = none ∨ relay.drivers ≠ 0) (hdrivers : (relay.after c a).drivers = 0)
    (hn : n ∈ (relay.after c a).waiting) : n ∈ relay.waiting ∧
      (relay.drivers = 0 ∨ c = .dropDriver ∧ relay.drivers = 1 ∧ relay.isOwned) := by
  unfold Relay.after at hdrivers hn
  revert hdrivers hn
  split
  · intro hdrivers _
    exact absurd hdrivers (hstart.resolve_left (by simp [Executor.Answer.started?]))
  · exact fun hdrivers hn => ⟨List.mem_of_mem_tail hn, Or.inl hdrivers⟩
  · exact fun hdrivers hn => ⟨hn, Or.inl hdrivers⟩
  · exact fun hdrivers hn => ⟨hn, Or.inl hdrivers⟩
  · split
    · exact fun hdrivers hn => ⟨hn, Or.inl hdrivers⟩
    · intro hdrivers _
      cases hdrivers
  · -- the last driver goes: what waits is kept only by an owner
    intro hdrivers hn
    rw [Relay.swept_drivers] at hdrivers
    obtain ⟨hwaiting, howned⟩ := Relay.mem_swept_waiting hn
    refine ⟨hwaiting, ?_⟩
    rcases Nat.eq_zero_or_pos relay.drivers with hzero | hpos
    · exact Or.inl hzero
    · simp only at hdrivers
      exact Or.inr ⟨rfl, by omega, howned hdrivers⟩
  · intro hdrivers hn
    rw [Relay.swept_drivers] at hdrivers
    exact ⟨(Relay.mem_swept_waiting hn).1, Or.inl hdrivers⟩
  · exact fun hdrivers hn => ⟨hn, Or.inl hdrivers⟩

namespace Traffic

open Executor

variable {t : Traffic} {x : Executor} {relay : Relay} {n : Nat} {now : Timestamp} {c : Command}

/-! ## Commands -/

/-- A start is accepted only where a driver is left. -/
theorem drivers_of_started (h : x.staff = .relay relay)
    (hstarted : (x.run now c).2.started? = some n) : relay.drivers ≠ 0 := by
  have heffect := run_effect x now c
  rw [hstarted] at heffect
  cases heffect with
  | @start id isStreaming _ _ hr =>
    intro hzero
    simp [Executor.run, Executor.start, checkStaff_of_relay h, hzero, bind, Except.bind,
      Answer.started?] at hstarted

/-- A command keeps every ticket in custody: those that it drops or uses up end
their flights. -/
theorem Custody.command (h : t.Custody relay) (now : Timestamp) (c : Command) :
    Custody { t with executor := (t.executor.run now c).1 }
      (relay.after c (t.executor.run now c).2) := by
  have hstaff := run_staff t.executor now c
  rw [h.staff] at hstaff
  obtain ⟨hsound, hgrows⟩ := run_sound h.sound now c
  have hperm := tickets_conserved h.staff now c
  refine ⟨hstaff, hsound, fun n hn => ?_, fun id n hentry => ?_⟩
  · rcases ticket_iff.mp hn with hticket | hunderway
    · have hmem := hperm.mem_iff.mp (List.mem_append_right _ hticket)
      rcases List.mem_append.mp hmem with hold | hnew
      · exact hgrows.lt (h.lt n (ticket_iff.mpr (Or.inl hold)))
      · exact (started_eq (by simpa using hnew)).2
    · exact hgrows.lt (h.lt n (ticket_iff.mpr (Or.inr hunderway)))
  · rw [ticket_iff]
    have hkept : ∀ m, m ∉ (t.executor.results c).map (·.1) →
        m ∈ relay.tickets ++ (t.executor.run now c).2.started?.toList →
        m ∈ (relay.after c (t.executor.run now c).2).tickets := fun m hm hmem =>
      (List.mem_append.mp (hperm.mem_iff.mpr hmem)).resolve_left hm
    rcases (run_effect t.executor now c).inFlight_of h.sound hentry with ⟨hold, hnot⟩ | hstarted
    · refine (ticket_iff.mp (h.ticket id n hold)).imp_left fun hticket => ?_
      exact hkept n hnot (List.mem_append_left _ hticket)
    · have heffect := run_effect t.executor now c
      rw [hstarted] at heffect
      exact Or.inl (hkept n (by simp [heffect.results_of_started]) (by simp [hstarted]))

/-- No ticket is left waiting without a driver, if the last driver leaves
none. -/
theorem Custody.command_attended (h : t.Custody relay) (ha : t.Attended relay)
    (hleaves : t.LeavesNone relay (.call (.command c))) (now : Timestamp) :
    Attended { t with executor := (t.executor.run now c).1 }
      (relay.after c (t.executor.run now c).2) := by
  intro hdrivers id n hentry hn
  have hstart : (t.executor.run now c).2.started? = none ∨ relay.drivers ≠ 0 := by
    cases hstarted : (t.executor.run now c).2.started? with
    | none => exact Or.inl rfl
    | some m => exact Or.inr (drivers_of_started h.staff hstarted)
  obtain ⟨hwaiting, hlast⟩ := Relay.after_waiting hstart hdrivers hn
  rcases (run_effect t.executor now c).inFlight_of h.sound hentry with ⟨hold, -⟩ | hstarted
  · rcases hlast with hzero | ⟨rfl, hone, howned⟩
    · exact ha hzero id n hold hwaiting
    · exact hleaves hone howned id n hold hwaiting
  · rcases hlast with hzero | ⟨rfl, -, -⟩
    · exact drivers_of_started h.staff hstarted hzero
    · cases hstarted

/-! ## Loading, and the parts of a start -/

/-- Loading records touches no ticket. -/
theorem Custody.load (h : t.Custody relay) (generations : List Generation) :
    Custody { t with executor := (t.executor.insertAll generations).1 } relay := by
  obtain ⟨hstaff, hentries, hflights⟩ := t.executor.insertAll_tables generations
  refine ⟨hstaff.trans h.staff, insertAll_sound h.sound generations, fun n hn => ?_,
    fun id n hentry => ?_⟩
  · rw [hflights]
    exact h.lt n hn
  · rw [hentries] at hentry
    exact h.ticket id n hentry

/-- Starts that are under way without a ticket do not matter. -/
theorem Custody.underway (h : t.Custody relay) {underway : List Departure}
    (hiff : ∀ n, .ticketed n ∈ underway ↔ .ticketed n ∈ t.underway) :
    Custody { t with underway } relay := by
  have hhand : ∀ n, InHand { t with underway } relay n ↔ t.InHand relay n := fun n =>
    or_congr_right (hiff n)
  exact ⟨h.staff, h.sound, fun n hn => h.lt n (hn.imp_right (hhand n).mp),
    fun id n hentry => (h.ticket id n hentry).imp_right (hhand n).mpr⟩

theorem ticketed_erase_checked {underway : List Departure} {id : GenerationId}
    {isStreaming : Bool} :
    .ticketed n ∈ underway.erase (.checked id isStreaming) ↔ .ticketed n ∈ underway :=
  List.mem_erase_of_ne (by simp)

/-- A start that puts a generation in flight takes its ticket in hand. -/
theorem Custody.board (h : t.Custody relay) {id : GenerationId} {isStreaming : Bool}
    {r : Registry} (hbegin : t.executor.registry.begin id isStreaming now = .ok (r, n)) :
    let t' : Traffic := ⟨{ t.executor with registry := r },
      t.underway.erase (.checked id isStreaming) ++ [.ticketed n]⟩
    Custody t' relay ∧ (t.Attended relay → t'.Attended relay) := by
  intro t'
  obtain ⟨hn, hlength, hself⟩ := begin_eq hbegin
  obtain ⟨hsound, hgrows, -⟩ := begin_sound h.sound hbegin
  -- the hands hold one more ticket
  have hticketed : ∀ m, .ticketed m ∈ t'.underway ↔ .ticketed m ∈ t.underway ∨ m = n := by
    intro m
    simp only [t', List.mem_append, ticketed_erase_checked, List.mem_singleton,
      Departure.ticketed.injEq]
  -- and one more generation is in flight, with this ticket
  have hentries : ∀ key m, r.inFlight.get? key = some m →
      t.executor.registry.inFlight.get? key = some m ∨ m = n := by
    intro key m hentry
    by_cases hkey : id = key
    · subst hkey
      exact Or.inr (Option.some.inj (hentry.symm.trans hself))
    · rw [(apart_begin hbegin h.sound hkey).entry_eq] at hentry
      exact Or.inl hentry
  refine ⟨⟨h.staff, hsound, fun m hm => ?_, fun key m hentry => ?_⟩,
    fun ha hzero key m hentry hwaiting => ?_⟩
  · show m < r.flights.length
    rw [ticket_iff, hticketed, ← or_assoc, ← ticket_iff] at hm
    rcases hm with hold | rfl
    · exact hgrows.lt (h.lt m hold)
    · omega
  · rw [ticket_iff, hticketed, ← or_assoc, ← ticket_iff]
    exact (hentries key m hentry).imp_left (h.ticket key m)
  · rcases hentries key m hentry with hold | rfl
    · exact ha hzero key m hold hwaiting
    · have := h.lt m (Or.inl hwaiting)
      omega

/-- The ticket goes from this hand to the queue, or its work ends at once where
no driver is left. -/
theorem Custody.send (h : t.Custody relay) (hn : .ticketed n ∈ t.underway) (now : Timestamp) :
    ∃ relay', Custody ⟨t.executor.send n now, t.underway.erase (.ticketed n)⟩ relay' ∧
      (t.Attended relay →
        Attended ⟨t.executor.send n now, t.underway.erase (.ticketed n)⟩ relay') := by
  have hrest : ∀ m, m ≠ n → .ticketed m ∈ t.underway →
      .ticketed m ∈ t.underway.erase (.ticketed n) := fun m hm hmem =>
    (List.mem_erase_of_ne (by simpa using hm)).mpr hmem
  have hold : ∀ m, .ticketed m ∈ t.underway.erase (.ticketed n) →
      m < t.executor.registry.flights.length := fun m hm =>
    h.lt m (Or.inr (Or.inr (List.mem_of_mem_erase hm)))
  by_cases hzero : relay.drivers = 0
  · -- nobody can take it: the ticket is dropped, which ends the work
    have heq : t.executor.send n now = (t.executor.finish n (.error lostTicket) now).1 := by
      simp [Executor.send, Executor.relay?, h.staff, hzero]
    rw [heq]
    have hentries : ∀ id m,
        (t.executor.finish n (.error lostTicket) now).1.registry.inFlight.get? id = some m →
        t.executor.registry.inFlight.get? id = some m ∧ m ≠ n := by
      intro id m hentry
      rw [finish_registry] at hentry
      exact inFlight_endWork h.sound hentry
    refine ⟨relay, ⟨(finish_staff ..).trans h.staff, ?_, fun m hm => ?_, fun id m hentry => ?_⟩,
      fun ha _ id m hentry => ha hzero id m (hentries id m hentry).1⟩
    · rw [finish_registry]
      exact endWork_sound h.sound _
    · rw [finish_length]
      rcases hm with hwaiting | hheld | hticketed
      · exact h.lt m (Or.inl hwaiting)
      · exact h.lt m (Or.inr (Or.inl hheld))
      · exact hold m hticketed
    · obtain ⟨hentry, hne⟩ := hentries id m hentry
      exact (h.ticket id m hentry).imp_right (Or.imp_right (hrest m hne))
  · rw [send_of_relay h.staff hzero]
    refine ⟨{ relay with waiting := relay.waiting ++ [n] }, ⟨rfl, h.sound, fun m hm => ?_,
      fun id m hentry => ?_⟩, fun _ hnone => absurd hnone hzero⟩
    · rcases hm with hwaiting | hheld | hticketed
      · rcases List.mem_append.mp hwaiting with hbefore | hnew
        · exact h.lt m (Or.inl hbefore)
        · rw [List.mem_singleton.mp hnew]
          exact h.lt n (Or.inr (Or.inr hn))
      · exact h.lt m (Or.inr (Or.inl hheld))
      · exact hold m hticketed
    · by_cases hm : m = n
      · exact Or.inl (by simp [hm])
      · refine (h.ticket id m hentry).imp (List.mem_append_left _) (Or.imp_right (hrest m hm))

/-! ## Histories -/

/-- One action. -/
theorem Custody.act (h : t.Custody relay) (now : Timestamp) (a : Action) :
    ∃ relay', Custody (t.act now a) relay' ∧
      (t.Attended relay → t.LeavesNone relay a → Attended (t.act now a) relay') := by
  have hsame : ∃ relay', t.Custody relay' ∧
      (t.Attended relay → t.LeavesNone relay a → t.Attended relay') := ⟨relay, h, fun ha _ => ha⟩
  cases a with
  | call call =>
    simp only [Traffic.act]
    split
    · exact hsame
    · cases call with
      | command c =>
        exact ⟨_, h.command now c, fun ha hleaves => h.command_attended ha hleaves now⟩
      | insertAll generations =>
        refine ⟨relay, h.load generations, fun ha _ hzero id n hentry => ?_⟩
        exact ha hzero id n ((t.executor.insertAll_tables generations).2.1 ▸ hentry)
  | check id isStreaming =>
    simp only [Traffic.act]
    split
    · exact hsame
    · exact ⟨relay, h.underway fun n => by simp, fun ha _ => ha⟩
  | board id isStreaming =>
    simp only [Traffic.act]
    split
    · split
      · exact ⟨relay, h.underway fun n => ticketed_erase_checked, fun ha _ => ha⟩
      · rename_i r n hbegin
        obtain ⟨hcustody, hattended⟩ := h.board hbegin
        exact ⟨relay, hcustody, fun ha _ => hattended ha⟩
    · exact hsame
  | send n =>
    simp only [Traffic.act]
    split
    · rename_i hn
      obtain ⟨relay', hcustody, hattended⟩ := h.send hn now
      exact ⟨relay', hcustody, fun ha _ => hattended ha⟩
    · exact hsame

/-- The last driver leaves no ticket of a generation in flight behind. -/
def NoneStranded (actions : List (Timestamp × Action)) : Prop :=
  ∀ i now a relay, actions[i]? = some (now, a) →
    (new.actAll (actions.take i)).executor.staff = .relay relay →
    (new.actAll (actions.take i)).LeavesNone relay a

theorem actAll_append (t : Traffic) (actions : List (Timestamp × Action))
    (e : Timestamp × Action) : t.actAll (actions ++ [e]) = (t.actAll actions).act e.1 e.2 := by
  induction actions generalizing t with
  | nil => rfl
  | cons d rest ih => exact ih (t.act d.1 d.2)

/-- Custody is kept throughout. -/
theorem custody_actAll (actions : List (Timestamp × Action)) (i : Nat) :
    ∃ relay, Custody (new.actAll (actions.take i)) relay ∧
      (NoneStranded actions → Attended (new.actAll (actions.take i)) relay) := by
  refine take_induction (P := fun as => ∃ relay, Custody (new.actAll as) relay ∧
    (NoneStranded actions → Attended (new.actAll as) relay))
    ⟨.new, custody_new, fun _ => attended_new⟩ (fun i e hc ih => ?_) i
  obtain ⟨relay, hcustody, hattended⟩ := ih
  obtain ⟨relay', hcustody', hattended'⟩ := hcustody.act e.1 e.2
  rw [actAll_append]
  exact ⟨relay', hcustody', fun hnone => hattended' (hattended hnone)
    (hnone i e.1 e.2 relay hc hcustody.staff)⟩

/-- The ticket of a generation in flight is never lost: somebody has it in
hand, or it waits. -/
theorem tickets_in_custody (actions : List (Timestamp × Action)) (i : Nat) :
    let t := new.actAll (actions.take i)
    ∃ relay, t.executor.staff = .relay relay ∧
      ∀ id n, t.executor.registry.inFlight.get? id = some n →
        t.executor.target? n = some id ∧ (n ∈ relay.waiting ∨ t.InHand relay n) := by
  obtain ⟨relay, hcustody, -⟩ := custody_actAll actions i
  exact ⟨relay, hcustody.staff, fun id n hentry =>
    ⟨hcustody.sound.inFlight_target id n hentry, hcustody.ticket id n hentry⟩⟩

/-- **Attended tickets.** If the last driver never leaves the ticket of a
generation in flight in the queue: the ticket of every generation in flight
is in hand, or it waits where a driver can take it. So once no driver is
left, a generation whose ticket nobody has in hand is not in flight. -/
theorem tickets_attended {actions : List (Timestamp × Action)} (hnone : NoneStranded actions)
    (i : Nat) :
    let t := new.actAll (actions.take i)
    ∃ relay, t.executor.staff = .relay relay ∧
      (∀ id, t.executor.isInFlight id → ∃ n, t.executor.target? n = some id ∧
        (t.InHand relay n ∨ n ∈ relay.waiting ∧ 0 < relay.drivers)) ∧
      (relay.drivers = 0 → ∀ id, (∀ n, t.executor.target? n = some id → ¬ t.InHand relay n) →
        t.executor.isInFlight id = false) := by
  intro t
  obtain ⟨relay, hcustody, hattended⟩ := custody_actAll actions i
  have hticket : ∀ id, t.executor.isInFlight id → ∃ n, t.executor.target? n = some id ∧
      (t.InHand relay n ∨ n ∈ relay.waiting ∧ 0 < relay.drivers) := by
    intro id hflying
    obtain ⟨n, hentry⟩ := Option.isSome_iff_exists.mp hflying
    refine ⟨n, hcustody.sound.inFlight_target id n hentry, ?_⟩
    rcases hcustody.ticket id n hentry with hwaiting | hhand
    · refine Or.inr ⟨hwaiting, Nat.pos_of_ne_zero fun hzero => ?_⟩
      exact hattended hnone hzero id n hentry hwaiting
    · exact Or.inl hhand
  refine ⟨relay, hcustody.staff, hticket, fun hzero id hnobody => ?_⟩
  cases hflying : t.executor.isInFlight id with
  | false => rfl
  | true =>
    obtain ⟨n, htarget, hhand | ⟨-, hdrivers⟩⟩ := hticket id hflying
    · exact absurd hhand (hnobody n htarget)
    · omega

/-- Two queued generations. -/
def sampleIds : GenerationId × GenerationId := (⟨"gnr-1"⟩, ⟨"gnr-2"⟩)

/-- The first has its ticket taken; the driver leaves while the second is
being started. -/
def sampleActions : List (Timestamp × Action) :=
  let queued (id : GenerationId) : Generation :=
    { (default : Generation) with id, status := .queued }
  [.call (.insertAll [queued sampleIds.1, queued sampleIds.2]), .check sampleIds.1 false,
    .board sampleIds.1 false, .send 0, .check sampleIds.2 true, .call (.command .take),
    .call (.command .dropDriver), .board sampleIds.2 true, .send 1].map (default, ·)

theorem sample_tickets_attended : NoneStranded sampleActions ∧
    (∃ n, (new.actAll sampleActions).executor.target? n = some sampleIds.1 ∧
      (new.actAll sampleActions).InHand ⟨0, true, [], [0]⟩ n) ∧
    (new.actAll sampleActions).executor.isInFlight sampleIds.2 = false := by
  have hnone : NoneStranded sampleActions := by
    intro i now a relay hc hstaff
    have hi : i < 9 := (List.getElem?_eq_some_iff.mp hc).1
    have hlast : (new.actAll (sampleActions.take 6)).executor.staff =
        .relay ⟨1, true, [], [0]⟩ := by decide +kernel
    interval_cases i <;> cases hc <;> try trivial
    obtain rfl := Staff.relay.inj (hlast.symm.trans hstaff)
    exact fun _ _ id n _ => List.not_mem_nil
  obtain ⟨relay, hstaff, hticket, hfree⟩ := tickets_attended hnone 9
  have hleft : (new.actAll sampleActions).executor.staff = .relay ⟨0, true, [], [0]⟩ := by
    decide +kernel
  obtain rfl := Staff.relay.inj (hleft.symm.trans hstaff)
  refine ⟨hnone, ?_, hfree rfl sampleIds.2 fun n htarget hhand => ?_⟩
  · obtain ⟨n, htarget, hhand | ⟨-, hdrivers⟩⟩ := hticket sampleIds.1 (by decide +kernel)
    · exact ⟨n, htarget, hhand⟩
    · cases hdrivers
  · have hunderway : (new.actAll sampleActions).underway = [] := by decide +kernel
    rcases hhand with hheld | hticketed
    · rw [List.mem_singleton.mp hheld] at htarget
      exact absurd htarget (by decide +kernel)
    · exact List.not_mem_nil (hunderway ▸ hticketed)

/-- The driver leaves while the ticket of the first waits. -/
def sampleStranded : List (Timestamp × Action) :=
  sampleActions.take 4 ++ [(default, .call (.command .dropDriver))]

/-- The last driver can leave a ticket behind, which then nobody can take. -/
theorem ticket_stranded : ¬ ∀ (actions : List (Timestamp × Action)) (relay : Relay)
    (id : GenerationId), (new.actAll actions).executor.staff = .relay relay →
    (new.actAll actions).executor.isInFlight id →
    ∃ n, (new.actAll actions).InHand relay n ∨ n ∈ relay.waiting ∧ 0 < relay.drivers := by
  intro h
  have hstaff : (new.actAll sampleStranded).executor.staff = .relay ⟨0, true, [0], []⟩ := by
    decide +kernel
  have hunderway : (new.actAll sampleStranded).underway = [] := by decide +kernel
  obtain ⟨n, (hheld | hticketed) | ⟨-, hdrivers⟩⟩ :=
    h sampleStranded _ sampleIds.1 hstaff (by decide +kernel)
  · cases hheld
  · exact List.not_mem_nil (hunderway ▸ hticketed)
  · cases hdrivers

end Traffic

end Workflow
