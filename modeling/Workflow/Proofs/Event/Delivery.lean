/-
Workflow.Proofs.Event.Delivery — how events get from emitters to sinks.

Emitters, those who add sinks, those who start and stop the listener, and the
listener itself take turns in any order. The listener works in small moves:
it takes the first waiting event in hand, serves one sink after the other,
and puts the event aside. While it serves, the sinks are locked.

* `Feed` — a bus with the event in hand, and a record of what was accepted,
  shown and handled.
* `Coherent` and `Written` — the invariants: the accepted events are those
  shown, the one in hand and those that wait; every sink has handled what was
  shown since it joined; buffers hold what their sinks handled.
* `delivered_once` — whole histories.
-/
import Workflow.Event.Bus

namespace Workflow

/-- A bus between two moves. -/
structure Feed where
  bus : Bus
  /-- The event that the listener has taken, and how many sinks it has
  served with it. -/
  hand : Option (Event × Nat)
  /-- The events that were not refused. -/
  accepted : List Event
  /-- The events that every sink has been served with. -/
  shown : List Event
  /-- For each sink, how many events had been shown when it joined. -/
  joined : List Nat
  /-- Which sink, by its place, has handled which event. -/
  handled : List (Nat × Event)

/-- What can happen next. -/
inductive Feed.Move where
  /-- An event is offered, and refused if there is no room. -/
  | emit (e : Event)
  | addSink (sink : Sink)
  | addMemory
  | addChannel
  /-- The listener is started. Nobody does so while a stop is under way. -/
  | listen
  /-- A stop begins. It returns when the listener has ended. -/
  | requestStop
  /-- The listener takes the first waiting event. -/
  | pick
  /-- The listener serves the next sink. -/
  | serve
  /-- The listener is done with an event. -/
  | release
  /-- The listener ends, if it is to stop and nothing waits. -/
  | endListener
  /-- Nobody reads from a channel any more. -/
  | dropReceiver (receiver : Nat)

namespace Feed

/-- Whether a sink has something to write to. -/
def hasOutlet (o : Outlets) : Sink → Bool
  | .memory i => i < o.buffers.length
  | .channel i => i < o.receivers.length
  | .stdout _ | .jsonLines => true

/-- A bus without sinks, before anything happens. -/
def new (capacity : Nat) : Feed := ⟨.new capacity [] .empty, none, [], [], [], []⟩

/-- Whether the sinks are locked. -/
def isLocked (f : Feed) : Bool := f.hand.any (0 < ·.2)

/-- A sink joins, unless the sinks are locked. -/
def join (f : Feed) (bus : Bus) : Feed :=
  if f.isLocked then f else { f with bus, joined := f.joined ++ [f.shown.length] }

/-- One move. What is not possible has no effect. -/
def move (f : Feed) : Move → Feed
  | .emit e =>
    match f.bus.emit e with
    | .ok bus => { f with bus, accepted := f.accepted ++ [e] }
    | .error _ => f
  | .addSink sink => if hasOutlet f.bus.outlets sink then f.join (f.bus.addSink sink) else f
  | .addMemory => f.join f.bus.addMemory.1
  | .addChannel => f.join f.bus.addChannel.1
  | .listen => { f with bus := f.bus.listen }
  | .requestStop => { f with bus := f.bus.requestStop }
  | .pick =>
    match f.bus.listener, f.hand, f.bus.pending with
    | .running, none, e :: rest | .stopping, none, e :: rest =>
      { f with bus := { f.bus with pending := rest }, hand := some (e, 0) }
    | _, _, _ => f
  | .serve =>
    match f.hand with
    | none => f
    | some (e, k) =>
      match f.bus.sinks[k]? with
      | none => f
      | some sink =>
        { f with
          bus := { f.bus with outlets := (f.bus.outlets.deliver e sink).1 }
          hand := some (e, k + 1)
          handled := f.handled ++ [(k, e)] }
  | .release =>
    match f.hand with
    | none => f
    | some (e, k) =>
      if k = f.bus.sinks.length then { f with hand := none, shown := f.shown ++ [e] } else f
  | .endListener =>
    match f.hand with
    | none => { f with bus := f.bus.endListener }
    | some _ => f
  | .dropReceiver i => { f with bus := f.bus.dropReceiver i }

/-- Moves in order. -/
def moveAll (f : Feed) : List Move → Feed
  | [] => f
  | m :: rest => (f.move m).moveAll rest

/-! ## Views -/

/-- The event in hand, if there is one. -/
def inHand (f : Feed) : List Event := (f.hand.map (·.1)).toList

/-- The events that a sink has handled, in order. -/
def handledBy (f : Feed) (k : Nat) : List Event := (f.handled.filter (·.1 = k)).map (·.2)

/-- The event in hand, if a sink has been served with it. -/
def serving (f : Feed) (k : Nat) : List Event :=
  match f.hand with
  | none => []
  | some (e, n) => if k < n then [e] else []

/-- The events that a buffer was given, in order. -/
def written (f : Feed) (i : Nat) : List Event :=
  (f.handled.filter fun h => f.bus.sinks[h.1]? = some (.memory i)).map (·.2)

variable {f : Feed} {e : Event} {k j n : Nat}

theorem serving_none (h : f.hand = none) (k : Nat) : f.serving k = [] := by
  simp [serving, h]

theorem serving_some (h : f.hand = some (e, n)) (k : Nat) :
    f.serving k = if k < n then [e] else [] := by
  simp [serving, h]

theorem moveAll_append (f : Feed) (moves later : List Move) :
    f.moveAll (moves ++ later) = (f.moveAll moves).moveAll later := by
  induction moves generalizing f with
  | nil => rfl
  | cons m rest ih => exact ih (f.move m)

/-! ## What a move can do

A move that does not apply changes nothing. The others are the steps that the
invariants are proved for. -/

/-- A move that has an effect, with what must hold for it. -/
inductive Step (f : Feed) : Feed → Prop where
  | refl : Step f f
  | emit (e : Event) (hroom : f.bus.pending.length < f.bus.capacity) :
      Step f { f with
        bus := { f.bus with pending := f.bus.pending ++ [e] }
        accepted := f.accepted ++ [e] }
  /-- A sink joins. It may bring an empty buffer with it. -/
  | join (sink : Sink) (outlets : Outlets) (hlocked : f.isLocked = false)
      (hbuffers : outlets.buffers = f.bus.outlets.buffers ∨
        outlets.buffers = f.bus.outlets.buffers ++ [[]])
      (hsink : ∀ i, sink = .memory i → i < outlets.buffers.length) :
      Step f { f with
        bus := { f.bus with sinks := f.bus.sinks ++ [sink], outlets }
        joined := f.joined ++ [f.shown.length] }
  | listen (hidle : f.bus.listener = .idle) :
      Step f { f with bus := { f.bus with listener := .running } }
  | requestStop (hrunning : f.bus.listener = .running) :
      Step f { f with bus := { f.bus with listener := .stopping } }
  | endListener (hhand : f.hand = none) (hpending : f.bus.pending = []) :
      Step f { f with bus := { f.bus with listener := .idle } }
  | pick {e : Event} {rest : List Event} (hbusy : f.bus.listener ≠ .idle) (hhand : f.hand = none)
      (hpending : f.bus.pending = e :: rest) :
      Step f { f with bus := { f.bus with pending := rest }, hand := some (e, 0) }
  | serve {e : Event} {k : Nat} {sink : Sink} (hhand : f.hand = some (e, k))
      (hsink : f.bus.sinks[k]? = some sink) :
      Step f { f with
        bus := { f.bus with outlets := (f.bus.outlets.deliver e sink).1 }
        hand := some (e, k + 1)
        handled := f.handled ++ [(k, e)] }
  | release {e : Event} (hhand : f.hand = some (e, f.bus.sinks.length)) :
      Step f { f with hand := none, shown := f.shown ++ [e] }
  | dropReceiver (i : Nat) : Step f { f with bus := f.bus.dropReceiver i }

/-- A sink that joins is a step. -/
theorem step_join (f : Feed) {sink : Sink} {outlets : Outlets}
    (hbuffers : outlets.buffers = f.bus.outlets.buffers ∨
      outlets.buffers = f.bus.outlets.buffers ++ [[]])
    (hsink : ∀ i, sink = .memory i → i < outlets.buffers.length) :
    Step f (f.join { f.bus with sinks := f.bus.sinks ++ [sink], outlets }) := by
  unfold join
  split
  · exact .refl
  · rename_i hlocked
    exact .join sink outlets (by simpa using hlocked) hbuffers hsink

/-- An event that is not refused waits behind the others, and there was room
for it. -/
theorem emit_eq {b b' : Bus} (h : b.emit e = .ok b') :
    b' = { b with pending := b.pending ++ [e] } ∧ b.pending.length < b.capacity := by
  unfold Bus.emit at h
  split at h
  · cases h
  · split at h
    · rename_i hroom
      exact ⟨(Except.ok.inj h).symm, hroom⟩
    · cases h

/-- Every move is one of the steps, or changes nothing. -/
theorem step_move (f : Feed) (m : Move) : Step f (f.move m) := by
  -- each move looks whether it applies, and does nothing if it does not
  cases m with
  | emit e =>
    simp only [move]
    split
    · rename_i bus hemit
      obtain ⟨rfl, hroom⟩ := emit_eq hemit
      exact .emit e hroom
    · exact .refl
  | addSink sink =>
    simp only [move]
    split
    · rename_i houtlet
      refine step_join f (Or.inl rfl) fun i hi => ?_
      subst hi
      simpa [hasOutlet] using houtlet
    · exact .refl
  | addMemory =>
    refine step_join f (Or.inr rfl) fun i hi => ?_
    cases hi
    simp
  | addChannel => exact step_join f (Or.inl rfl) fun i hi => by cases hi
  | listen =>
    simp only [move, Bus.listen]
    split
    · rename_i hidle
      exact .listen hidle
    · exact .refl
    · exact .refl
  | requestStop =>
    simp only [move, Bus.requestStop]
    split
    · rename_i hrunning
      exact .requestStop hrunning
    · exact .refl
    · exact .refl
  | pick =>
    simp only [move]
    split
    · rename_i hlistener hhand hpending
      exact .pick (by simp [hlistener]) hhand hpending
    · rename_i hlistener hhand hpending
      exact .pick (by simp [hlistener]) hhand hpending
    · exact .refl
  | serve =>
    simp only [move]
    split
    · exact .refl
    · rename_i e k hhand
      split
      · exact .refl
      · rename_i sink hsink
        exact .serve hhand hsink
  | release =>
    simp only [move]
    split
    · exact .refl
    · rename_i e k hhand
      split
      · rename_i hk
        exact .release (hk ▸ hhand)
      · exact .refl
  | endListener =>
    simp only [move, Bus.endListener]
    split
    · rename_i hhand
      split
      · rename_i hpending
        exact .endListener hhand hpending
      · exact .refl
    · exact .refl
  | dropReceiver i => exact .dropReceiver i

/-! ## No loss, no repetition, no change of order

One invariant ties the accepted events to what was shown, is in hand and
waits, and every sink to what was shown since it joined. -/

/-- The accepted events are those shown, the one in hand and those that wait,
and every sink has handled what was shown since it joined. -/
structure Coherent (f : Feed) : Prop where
  /-- What was accepted was shown, is in hand or waits, in this order. -/
  order : f.accepted = f.shown ++ f.inHand ++ f.bus.pending
  /-- No more events wait than there is room for. -/
  room : f.bus.pending.length ≤ f.bus.capacity
  isOpen : f.bus.isOpen = true
  /-- The event in hand has been shown to the first `k` sinks. -/
  served : ∀ e k, f.hand = some (e, k) → k ≤ f.bus.sinks.length
  joined_length : f.joined.length = f.bus.sinks.length
  /-- No sink has joined after more events than have been shown. -/
  joined_le : ∀ k j : Nat, f.joined[k]? = some j → j ≤ f.shown.length
  /-- A sink has handled what was shown since it joined, and the event in
  hand if it had its turn. -/
  handled : ∀ k j : Nat, f.joined[k]? = some j → f.handledBy k = f.shown.drop j ++ f.serving k
  places : ∀ h ∈ f.handled, h.1 < f.bus.sinks.length

/-- Nothing has happened yet. -/
theorem coherent_new (capacity : Nat) : Coherent (new capacity) where
  order := rfl
  room := Nat.zero_le _
  isOpen := rfl
  served := fun _ _ h => by cases h
  joined_length := rfl
  joined_le := fun _ _ h => by cases h
  handled := fun _ _ h => by cases h
  places := fun _ h => by cases h

/-- A sink that joins has handled nothing yet. -/
theorem Coherent.join (h : f.Coherent) (hlocked : f.isLocked = false) (sink : Sink)
    (outlets : Outlets) :
    Coherent { f with
      bus := { f.bus with sinks := f.bus.sinks ++ [sink], outlets }
      joined := f.joined ++ [f.shown.length] } := by
  -- the sinks are not locked, so nobody has been served with the event in hand
  have hserving : ∀ k, f.serving k = [] := by
    intro k
    cases hhand : f.hand with
    | none => exact serving_none hhand k
    | some p =>
      have hzero : p.2 = 0 := by simpa [isLocked, hhand] using hlocked
      simp [serving_some hhand, hzero]
  have hnone : f.handledBy f.bus.sinks.length = [] := by
    simp only [handledBy, List.map_eq_nil_iff, List.filter_eq_nil_iff, decide_eq_true_eq]
    exact fun p hp => Nat.ne_of_lt (h.places p hp)
  -- a sink was there before, or is the one that joins
  have hold : ∀ {k j : Nat}, (f.joined ++ [f.shown.length])[k]? = some j →
      f.joined[k]? = some j ∨ k = f.bus.sinks.length ∧ j = f.shown.length := by
    intro k j hj
    rw [List.getElem?_append] at hj
    split at hj
    · exact Or.inl hj
    · rw [List.getElem?_singleton] at hj
      split at hj
      · have := h.joined_length
        exact Or.inr ⟨by omega, (Option.some.inj hj).symm⟩
      · cases hj
  have hlength : (f.bus.sinks ++ [sink]).length = f.bus.sinks.length + 1 := by simp
  exact
    { h with
      served := fun e k hhand => hlength ▸ Nat.le_succ_of_le (h.served e k hhand)
      joined_length := by simp [h.joined_length]
      joined_le := fun k j hj => by
        rcases hold hj with hj | ⟨-, rfl⟩
        · exact h.joined_le k j hj
        · exact Nat.le_refl _
      handled := fun k j hj => by
        rcases hold hj with hj | ⟨rfl, rfl⟩
        · exact h.handled k j hj
        · show f.handledBy _ = f.shown.drop _ ++ f.serving _
          rw [hnone, hserving, List.drop_length, List.append_nil]
      places := fun p hp => hlength ▸ Nat.lt_succ_of_lt (h.places p hp) }

theorem handledBy_serve (f : Feed) (e : Event) (k m : Nat) (bus : Bus)
    (hand : Option (Event × Nat)) :
    handledBy { f with bus, hand, handled := f.handled ++ [(k, e)] } m =
      f.handledBy m ++ if k = m then [e] else [] := by
  simp only [handledBy, List.filter_append, List.map_append]
  by_cases hm : k = m <;> simp [hm]

/-- Serving a sink lets it handle the event in hand, which is shown only
later. -/
theorem Coherent.serve (h : f.Coherent) (hhand : f.hand = some (e, k))
    (hk : k < f.bus.sinks.length) (outlets : Outlets) :
    Coherent { f with
      bus := { f.bus with outlets }, hand := some (e, k + 1), handled := f.handled ++ [(k, e)] } :=
  { h with
    order := by simpa [inHand, hhand] using h.order
    served := fun d m hd => by cases hd; exact hk
    handled := fun m j hj => by
      rw [handledBy_serve, h.handled m j hj, List.append_assoc, serving_some hhand,
        serving_some rfl]
      congr 1
      -- the sink that is served now has not been served with it before
      rcases Nat.lt_trichotomy k m with hlt | rfl | hgt
      · rw [if_neg (by omega), if_neg (by omega), if_neg (by omega)]
        rfl
      · rw [if_neg (by omega), if_pos rfl, if_pos (by omega)]
        rfl
      · rw [if_pos hgt, if_neg (by omega), if_pos (by omega)]
        rfl
    places := fun p hp => by
      rcases List.mem_append.mp hp with hold | hnew
      · exact h.places p hold
      · rw [List.mem_singleton.mp hnew]
        exact hk }

/-- An event is shown once every sink has handled it. -/
theorem Coherent.release (h : f.Coherent) (hhand : f.hand = some (e, f.bus.sinks.length)) :
    Coherent { f with hand := none, shown := f.shown ++ [e] } :=
  { h with
    order := by simpa [inHand, hhand] using h.order
    served := fun d m hd => by cases hd
    joined_le := fun k j hj => by
      have := h.joined_le k j hj
      simp only [List.length_append]
      omega
    handled := fun k j hj => by
      have hk : k < f.bus.sinks.length := by
        rw [← h.joined_length]
        exact (List.getElem?_eq_some_iff.mp hj).1
      show f.handledBy k = (f.shown ++ [e]).drop j ++ []
      rw [h.handled k j hj, serving_some hhand, if_pos hk, List.append_nil,
        List.drop_append_of_le_length (h.joined_le k j hj)] }

/-- Every step keeps the order of events. -/
theorem Coherent.step {f' : Feed} (h : f.Coherent) (hs : Step f f') : f'.Coherent := by
  cases hs with
  | refl => exact h
  | emit e hroom =>
    refine { h with order := ?_, room := ?_ }
    · show f.accepted ++ [e] = f.shown ++ f.inHand ++ (f.bus.pending ++ [e])
      rw [h.order, List.append_assoc _ f.bus.pending]
    · show (f.bus.pending ++ [e]).length ≤ f.bus.capacity
      rw [List.length_append]
      exact hroom
  | join sink outlets hlocked => exact h.join hlocked sink outlets
  | @pick e rest hbusy hhand hpending =>
    have horder := h.order
    have hroom := h.room
    simp only [inHand, hhand, hpending, Option.map_none, Option.toList_none, List.append_nil,
      List.length_cons] at horder hroom
    refine { h with order := ?_, room := ?_, served := ?_, handled := fun k j hj => ?_ }
    · simp [inHand, horder]
    · show rest.length ≤ f.bus.capacity
      omega
    · intro d k hd
      cases hd
      exact Nat.zero_le _
    · rw [serving_some rfl, if_neg (Nat.not_lt_zero k), ← serving_none hhand k]
      exact h.handled k j hj
  | serve hhand hsink => exact h.serve hhand (List.getElem?_eq_some_iff.mp hsink).1 _
  | release hhand => exact h.release hhand
  -- the other steps touch neither the events nor what sinks have handled
  | _ => exact { h with }

theorem Coherent.moveAll (h : f.Coherent) (moves : List Move) : (f.moveAll moves).Coherent := by
  induction moves generalizing f with
  | nil => exact h
  | cons m rest ih => exact ih (h.step (step_move f m))

/-! ## What is in the buffers -/

/-- Each buffer holds what the sinks that write to it have handled. -/
structure Written (f : Feed) : Prop where
  outlet : ∀ k i : Nat, f.bus.sinks[k]? = some (.memory i) → i < f.bus.outlets.buffers.length
  buffers : ∀ (i : Nat) (events : List Event), f.bus.outlets.buffers[i]? = some events →
    events = f.written i

theorem written_new (capacity : Nat) : Written (new capacity) where
  outlet := fun _ _ h => by cases h
  buffers := fun _ _ h => by cases h

/-- A delivery appends to the buffer of its sink, and to no other. -/
theorem buffers_deliver (o : Outlets) (e : Event) (sink : Sink) (i : Nat) :
    (o.deliver e sink).1.buffers[i]? =
      (o.buffers[i]?).map (· ++ if sink = .memory i then [e] else []) := by
  cases sink with
  | memory n =>
    simp only [Outlets.deliver, List.getElem?_modify, Sink.memory.injEq]
    by_cases hn : n = i <;> simp [hn]
  | channel n =>
    simp only [Outlets.deliver]
    split <;> simp
  | stdout mode => simp [Outlets.deliver]
  | jsonLines => simp [Outlets.deliver]

/-- A delivery adds no buffer. -/
theorem length_buffers_deliver (o : Outlets) (e : Event) (sink : Sink) :
    (o.deliver e sink).1.buffers.length = o.buffers.length := by
  cases sink with
  | channel n =>
    simp only [Outlets.deliver]
    split <;> rfl
  | _ => simp [Outlets.deliver]

/-- No sink that was there writes to the buffer that a new one brings. -/
theorem Written.join (h : f.Written) (hc : f.Coherent) (sink : Sink) {outlets : Outlets}
    (hbuffers : outlets.buffers = f.bus.outlets.buffers ∨
      outlets.buffers = f.bus.outlets.buffers ++ [[]])
    (hsink : ∀ i, sink = .memory i → i < outlets.buffers.length) :
    Written { f with
      bus := { f.bus with sinks := f.bus.sinks ++ [sink], outlets }
      joined := f.joined ++ [f.shown.length] } := by
  -- all that was handled so far was handled by sinks that were there
  have hwritten : ∀ i, written { f with
      bus := { f.bus with sinks := f.bus.sinks ++ [sink], outlets }
      joined := f.joined ++ [f.shown.length] } i = f.written i := by
    intro i
    refine congrArg (List.map Prod.snd) (List.filter_congr fun p hp => ?_)
    simp only [List.getElem?_append_left (hc.places p hp)]
  have hlength : f.bus.outlets.buffers.length ≤ outlets.buffers.length := by
    rcases hbuffers with hsame | hnew
    · exact Nat.le_of_eq (congrArg List.length hsame.symm)
    · simp [hnew]
  refine ⟨fun k i hk => ?_, fun i events hevents => ?_⟩
  · simp only [List.getElem?_append] at hk
    split at hk
    · exact Nat.lt_of_lt_of_le (h.outlet k i hk) hlength
    · rw [List.getElem?_singleton] at hk
      split at hk
      · exact hsink i (Option.some.inj hk)
      · cases hk
  · rw [hwritten]
    rcases hbuffers with hsame | hnew
    · exact h.buffers i events (hsame ▸ hevents)
    · simp only [hnew, List.getElem?_append] at hevents
      split at hevents
      · exact h.buffers i events hevents
      · rename_i hge
        rw [List.getElem?_singleton] at hevents
        split at hevents
        · rw [← Option.some.inj hevents]
          symm
          simp only [written, List.map_eq_nil_iff, List.filter_eq_nil_iff, decide_eq_true_eq]
          exact fun p _ hp => hge (h.outlet p.1 i hp)
        · cases hevents

/-- The sink that is served writes what it handles. -/
theorem Written.serve (h : f.Written) {sink : Sink} (hsink : f.bus.sinks[k]? = some sink)
    (hand : Option (Event × Nat)) :
    Written { f with
      bus := { f.bus with outlets := (f.bus.outlets.deliver e sink).1 }
      hand
      handled := f.handled ++ [(k, e)] } := by
  refine ⟨fun m i hm => ?_, fun i events hevents => ?_⟩
  · show i < (f.bus.outlets.deliver e sink).1.buffers.length
    rw [length_buffers_deliver]
    exact h.outlet m i hm
  · have hwritten : written { f with
          bus := { f.bus with outlets := (f.bus.outlets.deliver e sink).1 }
          hand
          handled := f.handled ++ [(k, e)] } i =
        f.written i ++ if sink = .memory i then [e] else [] := by
      simp only [written, List.filter_append, List.map_append]
      by_cases hi : sink = .memory i <;> simp [hsink, hi]
    rw [hwritten]
    rw [buffers_deliver, Option.map_eq_some_iff] at hevents
    obtain ⟨before, hbefore, rfl⟩ := hevents
    rw [h.buffers i before hbefore]

/-- Every step keeps buffers and sinks together. -/
theorem Written.step {f' : Feed} (h : f.Written) (hc : f.Coherent) (hs : Step f f') :
    f'.Written := by
  cases hs with
  | join sink outlets hlocked hbuffers hsink => exact h.join hc sink hbuffers hsink
  | serve hhand hsink => exact h.serve hsink _
  | _ => exact ⟨h.outlet, h.buffers⟩

theorem Written.moveAll (h : f.Written) (hc : f.Coherent) (moves : List Move) :
    (f.moveAll moves).Written := by
  induction moves generalizing f with
  | nil => exact h
  | cons m rest ih => exact ih (h.step hc (step_move f m)) (hc.step (step_move f m))

/-- A buffer of one sink holds what this sink has handled. -/
theorem Written.buffer_eq (h : f.Written) {i : Nat} (hk : f.bus.sinks[k]? = some (.memory i))
    (hsole : ∀ l, f.bus.sinks[l]? = some (.memory i) → l = k) :
    f.bus.buffer i = f.handledBy k := by
  have hi := h.outlet k i hk
  rw [Bus.buffer, List.getElem?_eq_getElem hi, Option.getD_some,
    h.buffers i _ (List.getElem?_eq_getElem hi)]
  refine congrArg (List.map Prod.snd) (List.filter_congr fun p _ => ?_)
  rw [decide_eq_decide]
  exact ⟨hsole p.1, fun hp => hp ▸ hk⟩

/-! ## Histories -/

/-- Whatever was accepted or shown stays so, and no sink leaves. -/
structure Extends (f f' : Feed) : Prop where
  capacity : f'.bus.capacity = f.bus.capacity
  accepted : f.accepted <+: f'.accepted
  shown : f.shown <+: f'.shown
  joined : f.joined <+: f'.joined

theorem Extends.refl (f : Feed) : f.Extends f :=
  ⟨rfl, List.prefix_rfl, List.prefix_rfl, List.prefix_rfl⟩

/-- What was accepted or shown stays so over any stretch of a history. -/
theorem Extends.trans {f' f'' : Feed} (h : f.Extends f') (h' : f'.Extends f'') : f.Extends f'' :=
  ⟨h'.capacity.trans h.capacity, h.accepted.trans h'.accepted, h.shown.trans h'.shown,
    h.joined.trans h'.joined⟩

/-- Every step only adds to what was accepted, shown and joined. -/
theorem Step.extends {f' : Feed} (hs : Step f f') : f.Extends f' := by
  cases hs with
  | emit => exact ⟨rfl, List.prefix_append .., List.prefix_rfl, List.prefix_rfl⟩
  | join => exact ⟨rfl, List.prefix_rfl, List.prefix_rfl, List.prefix_append ..⟩
  | release => exact ⟨rfl, List.prefix_rfl, List.prefix_append .., List.prefix_rfl⟩
  | _ => exact ⟨rfl, List.prefix_rfl, List.prefix_rfl, List.prefix_rfl⟩

theorem extends_moveAll (f : Feed) (moves : List Move) : f.Extends (f.moveAll moves) := by
  induction moves generalizing f with
  | nil => exact .refl f
  | cons m rest ih => exact (step_move f m).extends.trans (ih (f.move m))

/-- A later point of a history against an earlier one. -/
theorem extends_take (f : Feed) (moves : List Move) {i j : Nat} (hij : i ≤ j) :
    (f.moveAll (moves.take i)).Extends (f.moveAll (moves.take j)) := by
  have hsplit : moves.take j = moves.take i ++ (moves.drop i).take (j - i) := by
    rw [← List.take_add, Nat.add_sub_cancel' hij]
  rw [hsplit, moveAll_append]
  exact extends_moveAll ..

theorem moveAll_take_succ (f : Feed) {moves : List Move} {i : Nat} {m : Move}
    (hm : moves[i]? = some m) :
    f.moveAll (moves.take (i + 1)) = (f.moveAll (moves.take i)).move m := by
  rw [List.take_add_one, hm, moveAll_append]
  rfl

/-- A listener that was asked to end goes on until everything is shown. -/
theorem Coherent.stopping_step {f' : Feed} (h : f.Coherent) (hs : Step f f')
    (hstopping : f.bus.listener = .stopping) :
    f'.bus.listener = .stopping ∨ f'.shown = f'.accepted := by
  cases hs with
  | listen hidle => simp [hidle] at hstopping
  | requestStop hrunning => simp [hrunning] at hstopping
  | endListener hhand hpending =>
    exact Or.inr (by simpa [inHand, hhand, hpending] using h.order.symm)
  | _ => exact Or.inl hstopping

/-- Once a stop has begun, the listener goes on until what was accepted before
is shown. -/
theorem Coherent.stop_flushes (h : f.Coherent) {moves : List Move} {i j : Nat} (hij : i < j)
    (hstop : moves[i]? = some .requestStop)
    (hrunning : (f.moveAll (moves.take i)).bus.listener = .running) :
    (f.moveAll (moves.take j)).bus.listener = .stopping ∨
      (f.moveAll (moves.take i)).accepted <+: (f.moveAll (moves.take j)).shown := by
  induction hij with
  | refl =>
    rw [moveAll_take_succ f hstop]
    exact Or.inl (by simp [Feed.move, Bus.requestStop, hrunning])
  | @step j hij ih =>
    cases hm : moves[j]? with
    | none => rwa [List.take_add_one, hm, Option.toList_none, List.append_nil]
    | some m =>
      have hextends := (step_move (f.moveAll (moves.take j)) m).extends
      rw [moveAll_take_succ f hm]
      rcases ih with hstopping | hshown
      · refine ((h.moveAll _).stopping_step (step_move _ m) hstopping).imp_right fun hall => ?_
        rw [hall]
        exact (extends_take f moves (Nat.le_of_lt hij)).accepted.trans hextends.accepted
      · exact Or.inr (hshown.trans hextends.shown)

/-- **Delivery.** At all times, whatever the order in which emitters, those who
add sinks, those who start and stop the listener, and the listener itself take
their turns:

* the accepted events are those that were shown, the one in hand and those
  that wait, in this order; no more wait than the buffer holds, and an event
  is refused only when it is full;
* every sink has handled, once and in order, what was shown from some event
  on, which was not yet shown whenever the sink was there; and what the
  listener has in hand if it has come to the sink;
* a memory buffer of one sink holds what this sink has handled;
* once the listener has ended that a stop found running, everything that was
  accepted before the stop is shown. -/
theorem delivered_once (capacity : Nat) (moves : List Move) (i : Nat) :
    let f := (new capacity).moveAll (moves.take i)
    (f.accepted = f.shown ++ f.inHand ++ f.bus.pending ∧
      f.bus.pending.length ≤ max capacity 1 ∧
      ∀ e error, f.bus.emit e = .error error →
        error = .full ∧ f.bus.pending.length = max capacity 1) ∧
    (∀ k < f.bus.sinks.length, ∃ j, f.handledBy k = f.shown.drop j ++ f.serving k ∧
      ∀ t ≤ i, k < ((new capacity).moveAll (moves.take t)).bus.sinks.length →
        j ≤ ((new capacity).moveAll (moves.take t)).shown.length) ∧
    (∀ k b : Nat, f.bus.sinks[k]? = some (.memory b) →
      (∀ l : Nat, f.bus.sinks[l]? = some (.memory b) → l = k) → f.bus.buffer b = f.handledBy k) ∧
    ∀ t < i, moves[t]? = some .requestStop →
      ((new capacity).moveAll (moves.take t)).bus.listener = .running →
      f.bus.listener = .idle → ((new capacity).moveAll (moves.take t)).accepted <+: f.shown := by
  intro f
  -- one invariant for all points of the history; each clause reads off a part of it
  have hcoherent : ∀ t, ((new capacity).moveAll (moves.take t)).Coherent := fun t =>
    (coherent_new capacity).moveAll _
  have hf : f.Coherent := hcoherent i
  have hcapacity : f.bus.capacity = max capacity 1 := (extends_moveAll (new capacity) _).capacity
  refine ⟨⟨hf.order, hcapacity ▸ hf.room, fun e error herror => ?_⟩, fun k hk => ?_,
    fun k b hk hsole => ?_, fun t ht hstop hrunning hidle => ?_⟩
  · have hroom := hf.room
    simp only [Bus.emit, hf.isOpen, Bool.not_true, Bool.false_eq_true, if_false] at herror
    split at herror
    · cases herror
    · cases herror
      exact ⟨rfl, by omega⟩
  · rw [← hf.joined_length] at hk
    refine ⟨f.joined[k], hf.handled k _ (List.getElem?_eq_getElem hk), fun t ht hkt => ?_⟩
    rw [← (hcoherent t).joined_length] at hkt
    have hsame := (extends_take (new capacity) moves ht).joined.getElem hkt
    rw [← hsame]
    exact (hcoherent t).joined_le k _ (List.getElem?_eq_getElem hkt)
  · exact ((written_new capacity).moveAll (coherent_new capacity) _).buffer_eq hk hsole
  · rcases (coherent_new capacity).stop_flushes ht hstop hrunning with hstopping | hshown
    · rw [show f.bus.listener = .stopping from hstopping] at hidle
      cases hidle
    · exact hshown

/-- A receiver that was dropped does not keep an event from the buffer. -/
example :
    let e := Event.diagnostic ⟨"engine", "ready"⟩
    let f := (new 1).moveAll [.addChannel, .addMemory, .dropReceiver 0, .emit e, .emit e, .listen,
      .requestStop, .pick, .serve, .serve, .release, .endListener]
    f.bus.buffer 0 = [e] ∧ f.handledBy 0 = [e] ∧ f.bus.listener = .idle := by
  decide

end Feed

end Workflow
