/-
Workflow.Proofs.Event.Flush — a stop that nothing comes between.

The small moves of the listener, all sinks served with one event before the
next one is taken, add up to the steps of the bus: the moves for one event are
`Bus.take`, as many of them as events wait are `Bus.settle`, and a request to
stop before and the end after them make `Bus.stop`.

* `stop_of_moves` — so `Bus.stop` is one of the histories that
  `Feed.delivered_once` speaks of.
-/
import Mathlib.Logic.Function.Iterate
import Workflow.Proofs.Event.Delivery

namespace Workflow

/-! ## Steps of the bus -/

namespace Bus

variable {b : Bus} {e : Event} {rest : List Event}

theorem take_of_idle (h : b.listener = .idle) : b.take = b := by
  simp [take, h]

theorem take_of_nil (h : b.pending = []) : b.take = b := by
  unfold take
  split
  · rename_i hpending
    simp [h] at hpending
  · rename_i hpending
    simp [h] at hpending
  · rfl

/-- A listener takes the first event and shows it to all sinks. -/
theorem take_of_cons (hbusy : b.listener ≠ .idle) (h : b.pending = e :: rest) :
    b.take = { b with pending := rest, outlets := broadcast b.sinks e b.outlets } := by
  cases hlistener : b.listener with
  | idle => exact absurd hlistener hbusy
  | running => simp [take, hlistener, h]
  | stopping => simp [take, hlistener, h]

theorem sinks_take (b : Bus) : b.take.sinks = b.sinks := by
  unfold take
  split <;> rfl

/-- All that waits is shown, one event after the other. -/
theorem settle_of_busy (h : b.listener ≠ .idle) :
    b.settle = { b with
      pending := []
      outlets := b.pending.foldl (fun o e => broadcast b.sinks e o) b.outlets } := by
  cases hlistener : b.listener with
  | idle => exact absurd hlistener h
  | running => simp [settle, hlistener]
  | stopping => simp [settle, hlistener]

/-- Letting the listener take all that waits is one step for each event. -/
theorem settle_eq_iterate (b : Bus) : b.settle = take^[b.pending.length] b := by
  by_cases hidle : b.listener = .idle
  · rw [Function.iterate_fixed (take_of_idle hidle)]
    simp [settle, hidle]
  · obtain ⟨events, hpending⟩ : ∃ events, b.pending = events := ⟨_, rfl⟩
    rw [hpending]
    -- on the events that wait: each step takes the first of them
    induction events generalizing b with
    | nil =>
      rw [settle_of_busy hidle, hpending, List.length_nil, Function.iterate_zero_apply,
        List.foldl_nil, ← hpending]
    | cons e rest ih =>
      have htake := take_of_cons hidle hpending
      have hbusy : b.take.listener ≠ .idle := by simpa [htake] using hidle
      have hrest := ih b.take hbusy (by rw [htake])
      rw [List.length_cons, Function.iterate_succ_apply, ← hrest, settle_of_busy hidle,
        settle_of_busy hbusy, htake, hpending]
      rfl

end Bus

/-! ## Moves of the listener -/

namespace Feed

variable {f : Feed} {e : Event} {k n : Nat}

/-- The listener's moves for one event. -/
def handling (sinks : Nat) : List Move := .pick :: (List.replicate sinks .serve ++ [.release])

/-- Serving the sinks that are left. -/
theorem serve_all (h : f.hand = some (e, k)) (hn : k + n = f.bus.sinks.length) :
    (f.moveAll (List.replicate n .serve)).hand = some (e, k + n) ∧
      (f.moveAll (List.replicate n .serve)).bus =
        { f.bus with outlets := Bus.broadcast (f.bus.sinks.drop k) e f.bus.outlets } := by
  induction n generalizing f k with
  | zero =>
    have hdone : f.bus.sinks.drop k = [] := List.drop_eq_nil_of_le (by omega)
    exact ⟨h, by rw [hdone]; rfl⟩
  | succ n ih =>
    have hk : k < f.bus.sinks.length := by omega
    obtain ⟨f', hf'⟩ : ∃ f', f.move .serve = f' := ⟨_, rfl⟩
    have hserve := hf'
    simp only [move, h, List.getElem?_eq_getElem hk] at hserve
    obtain ⟨hhand, hbus⟩ := ih (f := f') (k := k + 1) (by rw [← hserve])
      (by rw [← hserve]; simp only; omega)
    rw [List.replicate_succ, moveAll, hf']
    refine ⟨by rw [hhand]; congr 2; omega, hbus.trans ?_⟩
    rw [← hserve, List.drop_eq_getElem_cons hk]
    rfl

/-- Serving is in vain with nothing in hand. -/
theorem serve_none (h : f.hand = none) (n : Nat) : f.moveAll (List.replicate n .serve) = f := by
  induction n with
  | zero => rfl
  | succ n ih =>
    have hserve : f.move .serve = f := by simp [move, h]
    rw [List.replicate_succ, moveAll, hserve, ih]

/-- The event in hand, shown to all sinks. -/
theorem show_all (h : f.hand = some (e, 0)) :
    (f.moveAll (List.replicate f.bus.sinks.length .serve ++ [.release])).hand = none ∧
      (f.moveAll (List.replicate f.bus.sinks.length .serve ++ [.release])).bus =
        { f.bus with outlets := Bus.broadcast f.bus.sinks e f.bus.outlets } := by
  obtain ⟨hhand, hbus⟩ := serve_all h (Nat.zero_add f.bus.sinks.length)
  rw [moveAll_append]
  simp only [moveAll, move, hhand, hbus, Nat.zero_add, if_true, List.drop_zero, and_self]

/-- A listener that has nothing to take makes no difference. -/
theorem handling_of_pick (h : f.hand = none) (hpick : f.move .pick = f) :
    f.moveAll (handling f.bus.sinks.length) = f := by
  rw [handling, moveAll, hpick, moveAll_append, serve_none h]
  simp [moveAll, move, h]

/-- Without anything in between, the moves for one event are one step of the
listener. -/
theorem take_of_moves (h : f.hand = none) :
    (f.moveAll (handling f.bus.sinks.length)).hand = none ∧
      (f.moveAll (handling f.bus.sinks.length)).bus = f.bus.take := by
  by_cases hidle : f.bus.listener = .idle
  · rw [handling_of_pick h (by simp [move, hidle]), Bus.take_of_idle hidle]
    exact ⟨h, rfl⟩
  · cases hpending : f.bus.pending with
    | nil =>
      rw [handling_of_pick h (by simp [move, hpending]), Bus.take_of_nil hpending]
      exact ⟨h, rfl⟩
    | cons e rest =>
      have hpick : f.move .pick =
          { f with bus := { f.bus with pending := rest }, hand := some (e, 0) } := by
        cases hlistener : f.bus.listener with
        | idle => exact absurd hlistener hidle
        | running => simp [move, hlistener, h, hpending]
        | stopping => simp [move, hlistener, h, hpending]
      rw [handling, moveAll, hpick, Bus.take_of_cons hidle hpending]
      exact show_all rfl

/-- As many times the moves for one event are as many steps. -/
theorem iterate_take_of_moves (h : f.hand = none) (n : Nat) :
    (f.moveAll (List.replicate n (handling f.bus.sinks.length)).flatten).hand = none ∧
      (f.moveAll (List.replicate n (handling f.bus.sinks.length)).flatten).bus =
        Bus.take^[n] f.bus := by
  induction n generalizing f with
  | zero => exact ⟨h, rfl⟩
  | succ n ih =>
    obtain ⟨hhand, hbus⟩ := take_of_moves h
    have hrest := ih hhand
    rw [hbus, Bus.sinks_take] at hrest
    rw [List.replicate_succ, List.flatten_cons, moveAll_append, Function.iterate_succ_apply]
    exact hrest

/-- **Stopping**, when nothing comes between: the listener is asked to end, takes
what waits, one event after the other, and ends. -/
theorem stop_of_moves (h : f.hand = none) :
    (f.moveAll (.requestStop :: (List.replicate f.bus.pending.length
      (handling f.bus.sinks.length)).flatten ++ [.endListener])).bus = f.bus.stop := by
  have hstop : f.bus.requestStop.pending = f.bus.pending ∧
      f.bus.requestStop.sinks = f.bus.sinks := by
    unfold Bus.requestStop
    split <;> exact ⟨rfl, rfl⟩
  obtain ⟨hhand, hbus⟩ := iterate_take_of_moves (f := f.move .requestStop) h f.bus.pending.length
  simp only [move, hstop.2] at hhand hbus
  rw [moveAll_append, moveAll]
  simp only [moveAll, move, hhand, hbus, Bus.stop, Bus.settle_eq_iterate, hstop.1]

end Feed

end Workflow
