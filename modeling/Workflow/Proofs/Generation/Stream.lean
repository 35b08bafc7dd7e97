/-
Workflow.Proofs.Generation.Stream — what the consumer of a stream receives.

A `Stream` is one flight of streamed work, with the calls on its generation
so far and what the consumer has taken of it. Reports of text, the end of
the work, a dropped ticket and stops take effect in any order; the ending is
sent only some time after it was put on record, and the consumer takes what
was sent when it likes. Others do as they like elsewhere, and once the
generation is not in flight its record may be set, too.

`Stream.streamed_exactly`: there was sent the text of the calls of `delta` that were
answered with true, in their order, and then one ending if and only if the
work ended it (`Phase`). The call that ended the flight is the only one
that did, and after it all are in vain (`EndedBy`).
-/
import Mathlib.Data.List.Infix
import Mathlib.Logic.Relation
import Workflow.Executor.Relay
import Workflow.Proofs.Generation.Exclusive

namespace Workflow

open Registry

/-! ## Streams -/

/-- A call on the generation of a stream, with its answer. -/
inductive StreamCall where
  | delta (text : String) (isAccepted : Bool)
  /-- A result of the work, and whether it ended the flight. -/
  | finish (result : WorkResult) (hasWon : Bool)
  | stop (hasWon : Bool)

namespace StreamCall

def isAccepted : StreamCall → Bool
  | .delta _ isAccepted => isAccepted
  | .finish _ _ | .stop _ => false

/-- Whether nothing came of the call for the stream. -/
def isInVain : StreamCall → Bool
  | .delta _ isAccepted => !isAccepted
  | .finish _ hasWon | .stop hasWon => !hasWon

end StreamCall

/-- A registry, with the calls that were made on one generation since its
start. -/
structure Stream where
  registry : Registry
  /-- The endings on record that are still to be sent. -/
  pending : List Delivery
  /-- The calls on the generation, in the order in which they took effect. -/
  log : List StreamCall
  /-- What the consumer has taken, oldest first. -/
  received : List Signal

namespace Stream

/-- The work was started, and its stream handed out. -/
def opened (r : Registry) : Stream := ⟨r, [], [], []⟩

/-- What may happen around a stream. -/
inductive Move where
  /-- The driver sends a text. -/
  | delta (text : String)
  /-- The driver reports its result. -/
  | finish (result : WorkResult) (now : Timestamp)
  /-- The driver drops its ticket. -/
  | dropTicket (now : Timestamp)
  /-- Somebody stops the generation. -/
  | stop (now : Timestamp)
  /-- An ending on record is sent. -/
  | deliver (d : Delivery)
  /-- The consumer takes what was sent next. -/
  | receive
  /-- Somebody sets the record, while the generation is not in flight. -/
  | set (g : Generation)

/-- The first part of the end of the work. -/
def finish (id : GenerationId) (s : Stream) (result : WorkResult) (now : Timestamp) : Stream :=
  let (r, d) := s.registry.resolve id result now
  { s with
    registry := r
    pending := s.pending ++ d.toList
    log := s.log ++ [.finish result d.isSome] }

/-- The stream of flight `n` of a generation after a move, if it can be
made. A stop counts as the end of the flight if the flight was still on. -/
def after (id : GenerationId) (n : Nat) (s : Stream) : Move → Option Stream
  | .delta text =>
    let (r, isAccepted) := s.registry.delta id text
    some { s with registry := r, log := s.log ++ [.delta text isAccepted] }
  | .finish result now => some (s.finish id result now)
  | .dropTicket now => some (s.finish id (.error Executor.lostTicket) now)
  | .stop now =>
    match s.registry.stop id now with
    | .error _ => some { s with log := s.log ++ [.stop false] }
    | .ok (r, hasStopped) =>
      some { s with
        registry := r, log := s.log ++ [.stop (hasStopped && s.registry.isInFlight id)] }
  | .deliver d =>
    if d ∈ s.pending then
      some { s with registry := s.registry.deliver d, pending := s.pending.erase d }
    else none
  | .receive => do
    let f ← s.registry.flights[n]?
    let event ← f.heard[s.received.length]?
    return { s with received := s.received ++ [event] }
  | .set g =>
    if g.id = id && !s.registry.isInFlight id then
      match s.registry.set g with
      | .error _ => some s
      | .ok r => some { s with registry := r }
    else none

/-- What others do is not about the generation, and not about the
flight. -/
structure Beside (id : GenerationId) (n : Nat) (r r' : Registry) : Prop where
  record_eq : r'.get? id = r.get? id
  entry_eq : r'.inFlight.get? id = r.inFlight.get? id
  flight_eq : r'.flights[n]? = r.flights[n]?

/-- One move. -/
inductive Next (id : GenerationId) (n : Nat) (s : Stream) : Stream → Prop where
  | move {s' : Stream} (m : Move) (h : s.after id n m = some s') : Next id n s s'
  | elsewhere {r : Registry} (h : Beside id n s.registry r) : Next id n s { s with registry := r }

/-- Any number of moves. -/
def Reaches (id : GenerationId) (n : Nat) : Stream → Stream → Prop :=
  Relation.ReflTransGen (Next id n)

/-! ## How a stream stands -/

/-- The texts of the accepted calls. -/
def texts (log : List StreamCall) : List Signal :=
  log.filterMap fun
    | .delta text true => some (.delta text)
    | _ => none

/-- The event that a result of streamed work is. -/
def IsVerdict : WorkResult → Signal → Prop
  | .ok outputs, .completed g => g.status = .completed ∧ g.outputs = outputs
  | .error message, .broken cause => cause = message
  | _, _ => False

/-- The generation is not in flight any more since a certain call. All the
calls before it were accepted texts, and all after it are in vain. -/
structure EndedBy (id : GenerationId) (s : Stream) (last : StreamCall) : Prop where
  entry_eq : s.registry.inFlight.get? id = none
  log_eq : ∃ before late, s.log = before ++ last :: late ∧
    (∀ c ∈ before, c.isAccepted) ∧ ∀ c ∈ late, c.isInVain

/-- What flight `n` was told by now, for what was called. -/
inductive Phase (id : GenerationId) (n : Nat) (s : Stream) (f : Flight) : Prop where
  /-- All that was called were texts, and each was heard. -/
  | underway (live : Live s.registry n f) (accepted : ∀ c ∈ s.log, c.isAccepted)
      (heard_eq : f.heard = texts s.log) (pending_eq : s.pending = [])
  /-- A finish won, and its event is not delivered yet. -/
  | finishing {result : WorkResult} {event : Signal} (ended : EndedBy id s (.finish result true))
      (verdict : IsVerdict result event) (heard_eq : f.heard = texts s.log) (isOpen : f.isOpen)
      (pending_eq : s.pending = [⟨n, event⟩])
  /-- The event was delivered, after all texts. -/
  | finished {result : WorkResult} {event : Signal} (ended : EndedBy id s (.finish result true))
      (verdict : IsVerdict result event) (heard_eq : f.heard = texts s.log ++ [event])
      (isClosed : f.isOpen = false) (pending_eq : s.pending = [])
  /-- A stop won, and there will be no event. -/
  | stopped (ended : EndedBy id s (.stop true)) (heard_eq : f.heard = texts s.log)
      (isClosed : f.isOpen = false) (pending_eq : s.pending = [])

/-- The flight of a stream, and what the consumer has of it. -/
structure Account (id : GenerationId) (n : Nat) (s : Stream) (f : Flight) : Prop where
  flight_eq : s.registry.flights[n]? = some f
  generation_eq : f.generation = id
  isStreaming : f.isStreaming
  /-- The consumer takes in order what the flight heard. -/
  received_prefix : s.received <+: f.heard
  phase : Phase id n s f

variable {id : GenerationId} {n : Nat} {s s' : Stream} {f : Flight} {r : Registry}

/-! ## Calls on a generation that is not in flight -/

theorem texts_append (log log' : List StreamCall) :
    texts (log ++ log') = texts log ++ texts log' := List.filterMap_append

/-- Calls in vain brought no text. -/
theorem texts_of_isInVain {log : List StreamCall} (h : ∀ c ∈ log, c.isInVain) :
    texts log = [] := by
  refine List.filterMap_eq_nil_iff.mpr fun c hc => ?_
  have hvain := h c hc
  cases c with
  | delta text isAccepted =>
    cases isAccepted with
    | true => cases hvain
    | false => rfl
  | finish | stop => rfl

/-- Calls in vain, after the end. -/
theorem EndedBy.vain {last : StreamCall} {more : List StreamCall} (h : EndedBy id s last)
    (hmore : ∀ c ∈ more, c.isInVain) (hr : r.inFlight.get? id = none) :
    EndedBy id { s with registry := r, log := s.log ++ more } last := by
  obtain ⟨before, late, hlog, hbefore, hlate⟩ := h.log_eq
  refine ⟨hr, before, late ++ more, ?_, hbefore, fun c hc => ?_⟩
  · simp only [hlog, List.append_assoc, List.cons_append]
  · exact (List.mem_append.mp hc).elim (hlate c) (hmore c)

/-- The end, by a call that everything before it leads up to. -/
theorem EndedBy.now (haccepted : ∀ c ∈ s.log, c.isAccepted) (last : StreamCall)
    {pending : List Delivery} {received : List Signal} (hr : r.inFlight.get? id = none) :
    EndedBy id ⟨r, pending, s.log ++ [last], received⟩ last :=
  ⟨hr, s.log, [], rfl, haccepted, by simp⟩

/-- A generation that is not in flight is not put in flight by changes. -/
theorem entry_of_edits {own : Nat → Prop} {heard : Signal → Prop} {r r' : Registry}
    (h : Edits id own heard r r') (hentry : r.inFlight.get? id = none) :
    r'.inFlight.get? id = none := by
  induction h with
  | refl => exact hentry
  | put _ _ ih => exact ih
  | land _ _ => simp
  | modify _ _ _ _ ih => exact ih

/-- Calls on it leave all flights as they were. -/
theorem flight_of_changes {heard : Signal → Prop} {r r' : Registry} (h : Changes id heard r r')
    (hentry : r.inFlight.get? id = none) (n : Nat) : r'.flights[n]? = r.flights[n]? :=
  (Edits.spares h (n := n) (by simp [hentry])).flight_eq

/-! ## Calls on a live flight of streamed work -/

/-- Text to a live flight of streamed work is accepted and heard. -/
theorem delta_of_live (hf : Live r n f) (hkind : f.isStreaming) (text : String) :
    r.delta f.generation text = (r.hear n (.delta text), true) ∧
      Live (r.hear n (.delta text)) n { f with heard := f.heard ++ [.delta text] } := by
  refine ⟨?_, ?_, hf.entry_eq, hf.record_eq, hf.running, hf.isOpen, fun t ht => ?_⟩
  · simp [Registry.delta, hf.entry_eq, isStreaming_of_flight hf.flight_eq, hkind]
  · simp [hf.flight_eq]
  · rcases List.mem_append.mp ht with hold | hnew
    · exact hf.silent t hold
    · rw [List.mem_singleton.mp hnew]
      rfl

/-- The signal of a result tells this result. -/
theorem isVerdict_of_settle {record : Generation} {result : WorkResult} {now : Timestamp}
    {final : Option Generation} {event : Signal} (hrunning : record.status = .running)
    (h : settle record true result now = .ok (final, event)) : IsVerdict result event := by
  cases result with
  | ok outputs =>
    rw [settle, Generation.complete_of_running hrunning] at h
    cases h
    exact ⟨rfl, rfl⟩
  | error message =>
    cases h
    rfl

/-- The first part of the end of a live flight leaves its signal to be
delivered. -/
theorem resolve_of_live (hf : Live r n f) (hkind : f.isStreaming) (result : WorkResult)
    (now : Timestamp) : ∃ r' event, r.resolve f.generation result now = (r', some ⟨n, event⟩) ∧
      IsVerdict result event ∧ r'.flights[n]? = some f ∧
      r'.inFlight.get? f.generation = none := by
  obtain ⟨r', event, hresolve, howed⟩ := hf.resolve result now
  refine ⟨r', event, hresolve, ?_, howed.flight_eq, howed.entry_eq⟩
  simp only [Registry.resolve, hf.entry_eq, hf.record_eq, isStreaming_of_flight hf.flight_eq,
    hkind] at hresolve
  split at hresolve
  · cases hresolve
  · rename_i final signal hsettle
    obtain ⟨-, rfl⟩ := Delivery.mk.inj (Option.some.inj (Prod.mk.inj hresolve).2)
    exact isVerdict_of_settle hf.running hsettle

/-! ## Moves -/

/-- The flight is live, and all calls so far were accepted texts, or nothing
more can come of a call. -/
theorem Account.live_or_free (h : Account id n s f) :
    (Live s.registry n f ∧ (∀ c ∈ s.log, c.isAccepted) ∧ f.heard = texts s.log ∧
      s.pending = []) ∨ s.registry.inFlight.get? id = none := by
  cases h.phase with
  | underway live accepted heard_eq pending_eq =>
    exact Or.inl ⟨live, accepted, heard_eq, pending_eq⟩
  | finishing ended => exact Or.inr ended.entry_eq
  | finished ended => exact Or.inr ended.entry_eq
  | stopped ended => exact Or.inr ended.entry_eq

/-- What keeps the flight and the texts keeps the phase. -/
theorem Phase.map (h : Phase id n s f)
    (hlive : Live s.registry n f → Live s'.registry n f ∧ s'.log = s.log)
    (hover : ∀ {last}, EndedBy id s last → EndedBy id s' last) (hpending : s'.pending = s.pending)
    (htexts : texts s'.log = texts s.log) : Phase id n s' f := by
  cases h with
  | underway live accepted heard_eq pending_eq =>
    obtain ⟨live, hlog⟩ := hlive live
    exact .underway live (hlog ▸ accepted) (heard_eq.trans htexts.symm)
      (hpending.trans pending_eq)
  | finishing ended verdict heard_eq isOpen pending_eq =>
    exact .finishing (hover ended) verdict (heard_eq.trans htexts.symm) isOpen
      (hpending.trans pending_eq)
  | finished ended verdict heard_eq isClosed pending_eq =>
    exact .finished (hover ended) verdict (heard_eq.trans (congrArg (· ++ _) htexts.symm)) isClosed
      (hpending.trans pending_eq)
  | stopped ended heard_eq isClosed pending_eq =>
    exact .stopped (hover ended) (heard_eq.trans htexts.symm) isClosed (hpending.trans pending_eq)

/-- Once the generation is not in flight, what is done to its record and
called in vain leaves the stream as it is. -/
theorem Account.vain {more : List StreamCall} {heard : Signal → Prop} (h : Account id n s f)
    (hentry : s.registry.inFlight.get? id = none) (hchanges : Changes id heard s.registry r)
    (hmore : ∀ c ∈ more, c.isInVain) :
    Account id n { s with registry := r, log := s.log ++ more } f := by
  have hr := entry_of_edits hchanges hentry
  refine ⟨(flight_of_changes hchanges hentry n).trans h.flight_eq, h.generation_eq, h.isStreaming,
    h.received_prefix, h.phase.map (fun live => ?_) (fun ended => ended.vain hmore hr) rfl ?_⟩
  · have hlive := live.entry_eq
    rw [h.generation_eq, hentry] at hlive
    cases hlive
  · rw [texts_append, texts_of_isInVain hmore, List.append_nil]

/-- A text is accepted while the flight is live, and in vain from then on. -/
theorem Account.delta (h : Account id n s f) (text : String) :
    ∃ f', Account id n { s with
      registry := (s.registry.delta id text).1
      log := s.log ++ [.delta text (s.registry.delta id text).2] } f' := by
  rcases h.live_or_free with ⟨live, accepted, heard_eq, pending_eq⟩ | hentry
  · obtain ⟨hdelta, hnext⟩ := delta_of_live live h.isStreaming text
    rw [h.generation_eq] at hdelta
    rw [hdelta]
    refine ⟨_, hnext.flight_eq, h.generation_eq, h.isStreaming,
      h.received_prefix.trans (List.prefix_append _ _),
      .underway hnext (fun c hc => ?_) ?_ pending_eq⟩
    · rcases List.mem_append.mp hc with hold | hnew
      · exact accepted c hold
      · exact List.mem_singleton.mp hnew ▸ rfl
    · rw [texts_append, heard_eq]
      rfl
  · rw [delta_of_free hentry]
    have hrefl : Changes id (fun _ => False) s.registry s.registry := .refl
    exact ⟨f, h.vain hentry hrefl (by simp [StreamCall.isInVain])⟩

/-- The first result wins if no stop came before it. -/
theorem Account.finish (h : Account id n s f) (result : WorkResult) (now : Timestamp) :
    ∃ f', Account id n (s.finish id result now) f' := by
  rcases h.live_or_free with ⟨live, accepted, heard_eq, pending_eq⟩ | hentry
  · obtain ⟨r', event, hresolve, hverdict, hflight, hfree⟩ :=
      resolve_of_live live h.isStreaming result now
    rw [h.generation_eq] at hresolve hfree
    refine ⟨f, ?_⟩
    simp only [Stream.finish, hresolve]
    refine ⟨hflight, h.generation_eq, h.isStreaming, h.received_prefix,
      .finishing (.now accepted _ hfree) hverdict ?_ live.isOpen ?_⟩
    · rw [texts_append, heard_eq]
      exact (List.append_nil _).symm
    · simp [pending_eq]
  · refine ⟨f, ?_⟩
    simp only [Stream.finish, resolve_of_free hentry, Option.toList_none, List.append_nil,
      Option.isSome_none]
    have hrefl : Changes id (fun _ => False) s.registry s.registry := .refl
    exact h.vain hentry hrefl (by simp [StreamCall.isInVain])

/-- A stop wins if no result came before it. -/
theorem Account.stop (h : Account id n s f) {now : Timestamp}
    (hafter : s.after id n (.stop now) = some s') : ∃ f', Account id n s' f' := by
  rcases h.live_or_free with ⟨live, accepted, heard_eq, pending_eq⟩ | hentry
  · obtain ⟨r, hstop, hstopped⟩ := live.stop now
    have hflying : s.registry.isInFlight f.generation = true := live.isInFlight
    rw [h.generation_eq] at hstop hflying
    simp only [after, hstop, hflying, Bool.and_true, Option.some.injEq] at hafter
    subst hafter
    refine ⟨_, hstopped.flight_eq, h.generation_eq, h.isStreaming, h.received_prefix,
      .stopped (.now accepted _ ?_) ?_ rfl pending_eq⟩
    · rw [← h.generation_eq]
      exact hstopped.entry_eq
    · rw [texts_append, heard_eq]
      exact (List.append_nil _).symm
  · have hfree : s.registry.isInFlight id = false := by
      simp [Registry.isInFlight, Table.contains, hentry]
    simp only [after] at hafter
    split at hafter
    · cases hafter
      have hrefl : Changes id (fun _ => False) s.registry s.registry := .refl
      exact ⟨f, h.vain hentry hrefl (by simp [StreamCall.isInVain])⟩
    · rename_i r hasStopped hstop
      simp only [hfree, Bool.and_false, Option.some.injEq] at hafter
      subst hafter
      exact ⟨f, h.vain hentry (changes_stop hstop) (by simp [StreamCall.isInVain])⟩

/-- What is sent after the end of the work is its one event. -/
theorem Account.deliver (h : Account id n s f) {d : Delivery} (hd : d ∈ s.pending) :
    ∃ f', Account id n { s with
      registry := s.registry.deliver d, pending := s.pending.erase d } f' := by
  cases h.phase with
  | finishing ended verdict heard_eq isOpen pending_eq =>
    rw [pending_eq, List.mem_singleton] at hd
    subst hd
    refine ⟨{ f with heard := f.heard ++ [_], isOpen := false }, ?_, h.generation_eq,
      h.isStreaming, h.received_prefix.trans (List.prefix_append _ [_]),
      .finished ⟨ended.entry_eq, ended.log_eq⟩ verdict (congrArg (· ++ _) heard_eq) rfl ?_⟩
    · simp [Registry.deliver, h.flight_eq]
    · simp [pending_eq]
  | underway live accepted heard_eq pending_eq => simp [pending_eq] at hd
  | finished ended verdict heard_eq isClosed pending_eq => simp [pending_eq] at hd
  | stopped ended heard_eq isClosed pending_eq => simp [pending_eq] at hd

/-- The consumer takes what was sent in its order. -/
theorem Account.receive (h : Account id n s f)
    (hafter : s.after id n .receive = some s') : Account id n s' f := by
  simp only [after, h.flight_eq, Option.bind_eq_bind, Option.bind_some] at hafter
  obtain ⟨event, hevent, hs'⟩ := Option.bind_eq_some_iff.mp hafter
  cases hs'
  have hprefix : s.received ++ [event] <+: f.heard := by
    obtain ⟨rest, hrest⟩ := h.received_prefix
    rw [← hrest, List.getElem?_append_right (Nat.le_refl _), Nat.sub_self] at hevent
    obtain ⟨tail, rfl⟩ := List.head?_eq_some_iff.mp (List.head?_eq_getElem? ▸ hevent)
    exact ⟨tail, by rw [← hrest, List.append_assoc, List.singleton_append]⟩
  exact ⟨h.flight_eq, h.generation_eq, h.isStreaming, hprefix,
    h.phase.map (fun live => ⟨live, rfl⟩) (fun ended => ⟨ended.entry_eq, ended.log_eq⟩) rfl rfl⟩

/-- A record may be stored between streams only. -/
theorem Account.set (h : Account id n s f) {g : Generation}
    (hafter : s.after id n (.set g) = some s') : Account id n s' f := by
  simp only [after] at hafter
  split at hafter
  · rename_i hmay
    simp only [Bool.and_eq_true, decide_eq_true_eq, Bool.not_eq_true'] at hmay
    obtain ⟨rfl, hfree⟩ := hmay
    have hentry : s.registry.inFlight.get? g.id = none := by
      simpa [Registry.isInFlight, Table.contains] using hfree
    split at hafter
    · cases hafter
      exact h
    · rename_i r hset
      cases hafter
      simpa using h.vain hentry (changes_set hset) (List.forall_mem_nil _)
  · cases hafter

/-- What others do is not noticed. -/
theorem Account.elsewhere (h : Account id n s f) (hr : Beside id n s.registry r) :
    Account id n { s with registry := r } f := by
  refine ⟨hr.flight_eq.trans h.flight_eq, h.generation_eq, h.isStreaming, h.received_prefix,
    h.phase.map (fun live => ⟨?_, rfl⟩)
      (fun ended => ⟨hr.entry_eq.trans ended.entry_eq, ended.log_eq⟩) rfl rfl⟩
  obtain rfl := h.generation_eq
  exact ⟨hr.flight_eq.trans live.flight_eq, hr.entry_eq.trans live.entry_eq,
    hr.record_eq.trans live.record_eq, live.running, live.isOpen, live.silent⟩

/-- One move keeps the account. -/
theorem Next.account (h : Next id n s s') (hs : Account id n s f) : ∃ f', Account id n s' f' := by
  cases h with
  | elsewhere hr => exact ⟨f, hs.elsewhere hr⟩
  | move m hafter =>
    cases m with
    | delta text =>
      obtain rfl := Option.some.inj hafter
      exact hs.delta text
    | finish result now =>
      obtain rfl := Option.some.inj hafter
      exact hs.finish result now
    | dropTicket now =>
      obtain rfl := Option.some.inj hafter
      exact hs.finish (.error Executor.lostTicket) now
    | stop now => exact hs.stop hafter
    | deliver d =>
      simp only [after, Option.ite_none_right_eq_some, Option.some.injEq] at hafter
      obtain ⟨hd, rfl⟩ := hafter
      exact hs.deliver hd
    | receive => exact ⟨f, hs.receive hafter⟩
    | set g => exact ⟨f, hs.set hafter⟩

/-- Whatever is called in which order, the stream has an account. -/
theorem Reaches.account {s₀ : Stream} (h : Reaches id n s₀ s) (hs : Account id n s₀ f) :
    ∃ f', Account id n s f' := by
  induction h with
  | refl => exact ⟨f, hs⟩
  | tail _ hnext ih =>
    obtain ⟨f', hf'⟩ := ih
    exact hnext.account hf'

theorem account_opened {g : Generation} (live : Live r n ⟨id, g, true, false, [], true⟩) :
    Account id n (opened r) ⟨id, g, true, false, [], true⟩ :=
  ⟨live.flight_eq, rfl, rfl, List.prefix_rfl, .underway live (by simp [opened]) rfl rfl⟩

/-- Where there is nothing to take, all that was sent was taken. -/
theorem Account.received_eq (h : Account id n s f) (hnone : s.after id n .receive = none) :
    s.received = f.heard := by
  refine h.received_prefix.eq_of_length_le (Nat.le_of_not_lt fun hlt => ?_)
  simp [after, h.flight_eq, List.getElem?_eq_getElem hlt] at hnone

/-- **The consumer of streamed work receives the accepted texts and one
ending**, whatever is called in which order.

`Account` is kept by every move of the driver, the consumer and of those who
stop the work. A consumer who finds nothing more to take has been told all
that the flight has heard. -/
theorem streamed_exactly {r₀ : Registry} {now : Timestamp}
    (hbegin : r₀.begin id true now = .ok (r, n)) (hreach : Reaches id n (opened r) s) :
    ∃ f, Account id n s f ∧ (s.after id n .receive = none → s.received = f.heard) := by
  obtain ⟨g, -, live⟩ := live_begin hbegin
  obtain ⟨f, hf⟩ := hreach.account (account_opened live)
  exact ⟨f, hf, hf.received_eq⟩

/-! ## A schedule -/

/-- The stream after several moves. -/
def play (id : GenerationId) (n : Nat) (s : Stream) : List Move → Option Stream
  | [] => some s
  | m :: rest => (s.after id n m).bind (play id n · rest)

/-- A schedule is one of the possible histories. -/
theorem reaches_of_play {moves : List Move} (h : s.play id n moves = some s') :
    Reaches id n s s' := by
  induction moves generalizing s with
  | nil =>
    obtain rfl := Option.some.inj h
    exact .refl
  | cons m rest ih =>
    obtain ⟨next, hnext, hrest⟩ := Option.bind_eq_some_iff.mp h
    exact .head (.move m hnext) (ih hrest)

/-- A queued generation, and nothing else. -/
def sampleQueue : Registry :=
  Registry.empty.put ⟨"gnr-1"⟩ { (default : Generation) with id := ⟨"gnr-1"⟩, status := .queued }

/-- The ticket is dropped after two texts. A third text and a stop come
before the consumer is told. -/
def sampleDrop : List Move :=
  [.delta "one", .receive, .delta "two", .dropTicket .epoch, .delta "three", .stop .epoch,
    .deliver ⟨0, .broken Executor.lostTicket⟩, .receive, .receive]

theorem sample_streamed_exactly :
    ∃ r s f, sampleQueue.begin ⟨"gnr-1"⟩ true .epoch = .ok (r, 0) ∧
      Reaches ⟨"gnr-1"⟩ 0 (opened r) s ∧
      s.received = [.delta "one", .delta "two", .broken Executor.lostTicket] ∧
      Account ⟨"gnr-1"⟩ 0 s f ∧ (s.after ⟨"gnr-1"⟩ 0 .receive = none → s.received = f.heard) := by
  have hplayed : ((sampleQueue.begin ⟨"gnr-1"⟩ true .epoch).toOption.bind fun begun =>
      ((opened begun.1).play ⟨"gnr-1"⟩ 0 sampleDrop).map fun s => (begun.2, s.received)) =
      some (0, [.delta "one", .delta "two", .broken Executor.lostTicket]) := by
    decide +kernel
  cases hbegin : sampleQueue.begin ⟨"gnr-1"⟩ true .epoch with
  | error e => simp [hbegin, Except.toOption] at hplayed
  | ok begun =>
    obtain ⟨r, n⟩ := begun
    rw [hbegin] at hplayed
    obtain ⟨s, hs, hpair⟩ := Option.map_eq_some_iff.mp hplayed
    obtain ⟨rfl, hreceived⟩ := Prod.mk.inj hpair
    have hreach := reaches_of_play hs
    obtain ⟨f, hf⟩ := streamed_exactly hbegin hreach
    exact ⟨r, s, f, rfl, hreach, hreceived, hf⟩

end Stream

end Workflow
