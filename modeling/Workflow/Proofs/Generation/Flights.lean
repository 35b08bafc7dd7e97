/-
Workflow.Proofs.Generation.Flights — how a flight goes on, and how it ends.

A flight is `Live` while the entry of its generation leads to it: then the
record is still the one of its start, and no ending was heard. One call can
make it `Ended`, by the end of its work, or `Stopped`; after that it is
`Closed`.

* `Edits` — all that a call on one generation can do. So other generations
  stay as they were (`Edits.apart`), and so do flights that are over
  (`Edits.spares`).
* `Live.…` — what a call does to a generation whose flight is live, with its
  answer. `…_of_free` says so of a generation that is not in flight.
-/
import Workflow.Proofs.Generation.Registry

namespace Workflow

/-! ## Changes that a status allows -/

namespace Generation

variable {g : Generation} {time : Timestamp}

/-- The changes of a record that are refused nowhere: each from the statuses
that allow it. -/
theorem queue_of_created (h : g.status = .created) :
    g.queue time = .ok { g with status := .queued, queuedAt := some time } :=
  (move_bind_eq_ok_iff (by decide)).mpr ⟨by simp [h], rfl⟩

theorem complete_of_running (h : g.status = .running) (outputs : List Output) :
    g.complete outputs time =
      .ok { g with status := .completed, outputs, finishedAt := some time } :=
  (move_bind_eq_ok_iff (by decide)).mpr ⟨by simp [h], rfl⟩

theorem fail_of_open (h : g.status = .queued ∨ g.status = .running) (message : String) :
    g.fail message time =
      .ok { g with status := .failed, error := some message, finishedAt := some time } :=
  (move_bind_eq_ok_iff (by decide)).mpr ⟨by simpa using h, rfl⟩

/-- Any record that is not final can be cancelled. -/
theorem cancel_of_open (h : g.isTerminal = false) :
    g.cancel time = .ok { g with status := .cancelled, finishedAt := some time } := by
  have hstatus : g.status ∈ [.created, .queued, .running] := by
    unfold isTerminal at h
    cases hs : g.status <;> simp_all [GenerationStatus.isTerminal]
  exact (move_bind_eq_ok_iff (by decide)).mpr ⟨hstatus, rfl⟩

theorem isTerminal_of_running (h : g.status = .running) : g.isTerminal = false := by
  simp [isTerminal, h, GenerationStatus.isTerminal]

end Generation

namespace Registry

variable {r r' r'' : Registry} {id key : GenerationId} {n m : Nat} {now : Timestamp}
  {f : Flight} {s : Signal}

/-! ## Views after each part of a change -/

/-- A stored record is found under its key. The lemmas after it say, for each
part of a change, what becomes of the records, the entries and the flights. -/
@[simp] theorem get?_put (g : Generation) :
    (r.put key g).get? id = if key = id then some g else r.get? id :=
  Table.get?_insert ..

@[simp] theorem inFlight_put (g : Generation) : (r.put key g).inFlight = r.inFlight := rfl
@[simp] theorem flights_put (g : Generation) : (r.put key g).flights = r.flights := rfl

@[simp] theorem get?_land : (r.land key).get? id = r.get? id := rfl
@[simp] theorem flights_land : (r.land key).flights = r.flights := rfl

@[simp] theorem inFlight_land :
    (r.land key).inFlight.get? id = if key = id then none else r.inFlight.get? id :=
  Table.get?_erase ..

@[simp] theorem get?_hear : (r.hear n s).get? id = r.get? id := rfl
@[simp] theorem inFlight_hear : (r.hear n s).inFlight = r.inFlight := rfl
@[simp] theorem get?_close : (r.close n).get? id = r.get? id := rfl
@[simp] theorem inFlight_close : (r.close n).inFlight = r.inFlight := rfl
@[simp] theorem get?_cancelFlight : (r.cancelFlight n).get? id = r.get? id := rfl
@[simp] theorem inFlight_cancelFlight : (r.cancelFlight n).inFlight = r.inFlight := rfl

@[simp] theorem flights_hear : (r.hear n s).flights[m]? =
    (r.flights[m]?).map fun x => if n = m then { x with heard := x.heard ++ [s] } else x :=
  getElem?_flights_modify

@[simp] theorem flights_close : (r.close n).flights[m]? =
    (r.flights[m]?).map fun x => if n = m then { x with isOpen := false } else x :=
  getElem?_flights_modify

@[simp] theorem flights_cancelFlight : (r.cancelFlight n).flights[m]? =
    (r.flights[m]?).map fun x => if n = m then { x with isCancelled := true } else x :=
  getElem?_flights_modify

theorem isStreaming_of_flight (h : r.flights[n]? = some f) : r.isStreaming n = f.isStreaming := by
  simp [Registry.isStreaming, h]

theorem target?_of_flight (h : r.flights[n]? = some f) : r.target? n = some f.generation := by
  simp [target?, h]

/-! ## States of a flight

A flight is live, is owed its ending, has heard it, or was stopped. In the
last two cases it is closed, and stays so. -/

/-- The flight is in flight, with a running record, and no ending was
heard. -/
structure Live (r : Registry) (n : Nat) (f : Flight) : Prop where
  flight_eq : r.flights[n]? = some f
  /-- A finish of the generation will find this flight. -/
  entry_eq : r.inFlight.get? f.generation = some n
  /-- The record is still that of the start. -/
  record_eq : r.get? f.generation = some f.record
  running : f.record.status = .running
  /-- What is sent is still heard. -/
  isOpen : f.isOpen
  /-- No ending has been heard. -/
  silent : ∀ s ∈ f.heard, s.isEnding = false

/-- Nothing more will be heard of the flight. -/
structure Closed (r : Registry) (n : Nat) (f : Flight) : Prop where
  flight_eq : r.flights[n]? = some f
  /-- No later finish finds this flight. -/
  entry_ne : r.inFlight.get? f.generation ≠ some n
  isOpen : f.isOpen = false

/-- The record of the generation goes with the signal that ended its
flight. The failure of streamed work is not on record. -/
def Carries (r : Registry) (f : Flight) : Signal → Prop
  | .delta _ => False
  | .completed g => r.get? f.generation = some g ∧ g.status = .completed
  | .failed g => f.isStreaming = false ∧ r.get? f.generation = some g ∧ g.status = .failed ∧
    g.error.isSome
  | .broken _ => f.isStreaming = true ∧ r.get? f.generation = some f.record

/-- The live flight `f` has ended with this signal, of which it has yet to
hear. -/
structure Owed (r : Registry) (n : Nat) (f : Flight) (s : Signal) : Prop where
  flight_eq : r.flights[n]? = some f
  /-- No other end of the work finds the flight. -/
  entry_eq : r.inFlight.get? f.generation = none
  isEnding : s.isEnding
  carries : r.Carries f s

/-- What was the live flight `f` has heard its only ending. -/
structure Ended (r : Registry) (n : Nat) (f : Flight) (s : Signal) : Prop where
  /-- The ending was the last thing that was heard. -/
  flight_eq : r.flights[n]? = some { f with heard := f.heard ++ [s], isOpen := false }
  entry_eq : r.inFlight.get? f.generation = none
  isEnding : s.isEnding
  carries : r.Carries f s

/-- What was the live flight `f` is cancelled, without an ending. -/
structure Stopped (r : Registry) (n : Nat) (f : Flight) : Prop where
  /-- The flight is closed, and has heard nothing more. -/
  flight_eq : r.flights[n]? = some { f with isOpen := false, isCancelled := true }
  entry_eq : r.inFlight.get? f.generation = none
  cancelled : r.HasStatus f.generation .cancelled

theorem Ended.closed (h : Ended r n f s) :
    Closed r n { f with heard := f.heard ++ [s], isOpen := false } :=
  ⟨h.flight_eq, by simp [h.entry_eq], rfl⟩

theorem Stopped.closed (h : Stopped r n f) :
    Closed r n { f with isOpen := false, isCancelled := true } :=
  ⟨h.flight_eq, by simp [h.entry_eq], rfl⟩

/-- What is closed is not in flight, whichever generation it was for. -/
theorem Closed.not_live (h : Closed r n f) (g : Flight) : ¬ Live r n g := by
  intro hg
  obtain rfl := Option.some.inj (h.flight_eq.symm.trans hg.flight_eq)
  exact h.entry_ne hg.entry_eq

theorem Live.unique {g : Flight} (hf : Live r n f) (hg : Live r m g)
    (h : f.generation = g.generation) : n = m :=
  Option.some.inj (hf.entry_eq.symm.trans (h ▸ hg.entry_eq))

/-! ## Generations that a call is not about -/

/-- The two registries show the same of a generation. -/
structure Apart (id : GenerationId) (r r' : Registry) : Prop where
  record_eq : r'.get? id = r.get? id
  entry_eq : r'.inFlight.get? id = r.inFlight.get? id
  /-- The flights of the generation are the same under the same numbers. -/
  flight_iff : ∀ (n : Nat) (f : Flight), f.generation = id →
    (r'.flights[n]? = some f ↔ r.flights[n]? = some f)

namespace Apart

theorem refl (id : GenerationId) (r : Registry) : Apart id r r := ⟨rfl, rfl, fun _ _ _ => .rfl⟩

theorem trans (h : Apart id r r') (h' : Apart id r' r'') : Apart id r r'' :=
  ⟨h'.record_eq.trans h.record_eq, h'.entry_eq.trans h.entry_eq,
    fun n f hf => (h'.flight_iff n f hf).trans (h.flight_iff n f hf)⟩

/-- Calls on other generations leave a live flight live. The states that follow
in a flight's life are left alone in the same way. -/
theorem live (h : Apart f.generation r r') (hf : Live r n f) : Live r' n f :=
  ⟨(h.flight_iff n f rfl).mpr hf.flight_eq, h.entry_eq.trans hf.entry_eq,
    h.record_eq.trans hf.record_eq, hf.running, hf.isOpen, hf.silent⟩

theorem carries (h : Apart f.generation r r') (hf : r.Carries f s) : r'.Carries f s := by
  unfold Carries at hf ⊢
  rwa [h.record_eq]

theorem owed (h : Apart f.generation r r') (hf : Owed r n f s) : Owed r' n f s :=
  ⟨(h.flight_iff n f rfl).mpr hf.flight_eq, h.entry_eq.trans hf.entry_eq, hf.isEnding,
    h.carries hf.carries⟩

theorem ended (h : Apart f.generation r r') (hf : Ended r n f s) : Ended r' n f s :=
  ⟨(h.flight_iff n { f with heard := f.heard ++ [s], isOpen := false } rfl).mpr hf.flight_eq,
    h.entry_eq.trans hf.entry_eq, hf.isEnding, h.carries hf.carries⟩

theorem stopped (h : Apart f.generation r r') (hf : Stopped r n f) : Stopped r' n f := by
  refine ⟨(h.flight_iff n { f with isOpen := false, isCancelled := true } rfl).mpr hf.flight_eq,
    h.entry_eq.trans hf.entry_eq, ?_⟩
  obtain ⟨g, hg, hstatus⟩ := hf.cancelled
  exact ⟨g, h.record_eq.trans hg, hstatus⟩

end Apart

/-- A flight is as it was, and no entry came to lead to it. -/
structure Spares (n : Nat) (r r' : Registry) : Prop where
  flight_eq : r'.flights[n]? = r.flights[n]?
  entry : ∀ id, r'.inFlight.get? id = some n → r.inFlight.get? id = some n

theorem Spares.trans (h : Spares n r r') (h' : Spares n r' r'') : Spares n r r'' :=
  ⟨h'.flight_eq.trans h.flight_eq, fun id hid => h.entry id (h'.entry id hid)⟩

theorem Spares.closed (h : Spares n r r') (hf : Closed r n f) : Closed r' n f :=
  ⟨h.flight_eq.trans hf.flight_eq, fun heq => hf.entry_ne (h.entry _ heq), hf.isOpen⟩

/-! ## What a call on one generation can do

A call is a few changes, each of the record, the entry or the flight of its
own generation. -/

/-- Changes of a generation's record and entry and of flights of its own,
which may come to hear certain signals. -/
inductive Edits (key : GenerationId) (own : Nat → Prop) (heard : Signal → Prop) (r : Registry) :
    Registry → Prop where
  | refl : Edits key own heard r r
  | put {r' : Registry} (h : Edits key own heard r r') (g : Generation) :
      Edits key own heard r (r'.put key g)
  | land {r' : Registry} (h : Edits key own heard r r') : Edits key own heard r (r'.land key)
  | modify {r' : Registry} (h : Edits key own heard r r') {n : Nat} (hn : own n)
      {change : Flight → Flight} (hchange : ∀ x, (change x).generation = x.generation)
      (hheard : ∀ x, ∀ s ∈ (change x).heard, s ∈ x.heard ∨ heard s) :
      Edits key own heard r { r' with flights := r'.flights.modify n change }

namespace Edits

variable {own : Nat → Prop} {heard : Signal → Prop}

/-- A signal that a flight of its own hears is one more change. -/
theorem hear (h : Edits key own heard r r') (hn : own n) (hs : heard s) :
    Edits key own heard r (r'.hear n s) := by
  refine h.modify hn (fun _ => rfl) fun x t ht => ?_
  rcases List.mem_append.mp ht with hold | hnew
  · exact Or.inl hold
  · exact Or.inr (List.mem_singleton.mp hnew ▸ hs)

theorem close (h : Edits key own heard r r') (hn : own n) :
    Edits key own heard r (r'.close n) :=
  h.modify hn (fun _ => rfl) fun _ _ => Or.inl

theorem cancelFlight (h : Edits key own heard r r') (hn : own n) :
    Edits key own heard r (r'.cancelFlight n) :=
  h.modify hn (fun _ => rfl) fun _ _ => Or.inl

/-- Flights that are changed are still of this generation. -/
theorem target?_eq (h : Edits key own heard r r') (hown : ∀ n, own n → r.target? n = some key)
    (hn : own n) : r'.target? n = some key := by
  induction h with
  | refl => exact hown n hn
  | put _ g ih => exact ih
  | land _ ih => exact ih
  | modify _ _ hchange _ ih => rwa [target?_modify hchange]

/-- The flights of other generations are the same, as every flight that
changed is one of this generation. -/
theorem apart (h : Edits key own heard r r') (hne : key ≠ id)
    (hown : ∀ n, own n → r.target? n = some key) : Apart id r r' := by
  induction h with
  | refl => exact .refl id r
  | put _ g ih => exact ih.trans ⟨by simp [hne], rfl, fun _ _ _ => .rfl⟩
  | land _ ih => exact ih.trans ⟨rfl, by simp [hne], fun _ _ _ => .rfl⟩
  | @modify r' h n hn change hchange _ ih =>
    refine ih.trans ⟨rfl, rfl, fun m f hf => ?_⟩
    simp only [getElem?_flights_modify]
    by_cases hm : n = m
    · subst hm
      have hother : ∀ x, r'.flights[n]? = some x → x.generation ≠ id := by
        intro x hx heq
        have htarget := h.target?_eq hown hn
        simp only [target?, hx, Option.map_some, Option.some.injEq] at htarget
        exact hne (htarget.symm.trans heq)
      constructor
      · intro hx
        obtain ⟨x, hsame, rfl⟩ := Option.map_eq_some_iff.mp hx
        simp only [if_pos] at hf
        exact absurd ((hchange x).symm.trans hf) (hother x hsame)
      · intro hx
        exact absurd hf (hother f hx)
    · simp [hm]

/-- Changes of flights add none and remove none. -/
theorem length_eq (h : Edits key own heard r r') : r'.flights.length = r.flights.length := by
  induction h with
  | refl => rfl
  | put _ _ ih => exact ih
  | land _ ih => exact ih
  | modify _ _ _ _ ih => simpa using ih

/-- Flights that are not its own are left as they are. -/
theorem spares (h : Edits key own heard r r') (hn : ¬ own n) : Spares n r r' := by
  induction h with
  | refl => exact ⟨rfl, fun _ h => h⟩
  | put _ g ih => exact ⟨ih.flight_eq, ih.entry⟩
  | land _ ih =>
    refine ⟨ih.flight_eq, fun id h => ih.entry id ?_⟩
    rw [inFlight_land] at h
    split at h
    · cases h
    · exact h
  | @modify r' _ m hm change hchange _ ih =>
    refine ⟨?_, ih.entry⟩
    rw [← ih.flight_eq, getElem?_flights_modify]
    have hne : m ≠ n := fun heq => hn (heq ▸ hm)
    simp [hne]

end Edits

/-- A call on a generation may change the flight in its entry. -/
abbrev Changes (key : GenerationId) (heard : Signal → Prop) (r r' : Registry) : Prop :=
  Edits key (r.inFlight.get? key = some ·) heard r r'

/-- The signal is one that a result of work can have. -/
def IsSettled (result : WorkResult) (s : Signal) : Prop :=
  ∃ record isStreaming now final, settle record isStreaming result now = .ok (final, s)

section Changes

variable {heard : Signal → Prop}

/-- A call on one generation leaves the others alone, since the entry of a
generation leads to a flight of its own. -/
theorem Changes.apart (h : Changes key heard r r') (hs : Sound r) (hne : key ≠ id) :
    Apart id r r' :=
  Edits.apart h hne fun n hn => hs.inFlight_target key n hn

/-- A flight that is over stays so, whatever its generation goes through. -/
theorem Changes.spares (h : Changes key heard r r') (hf : Closed r n f) (hs : Sound r) :
    Spares n r r' := by
  refine Edits.spares h fun hn => ?_
  have htarget := hs.inFlight_target key n hn
  rw [target?_of_flight hf.flight_eq, Option.some.injEq] at htarget
  exact hf.entry_ne (htarget ▸ hn)

end Changes

/-- Storing a record is a change of this record and nothing else. -/
theorem changes_set {g : Generation} (h : r.set g = .ok r') :
    Changes g.id (fun _ => False) r r' := by
  unfold Registry.set at h
  split at h
  · cases h
    exact .put .refl g
  · split at h
    · cases h
    · cases h
      exact .put .refl g

/-- A launch adds a flight and an entry of one generation, and other
generations have neither. -/
theorem apart_launch (hne : key ≠ id) (g : Generation) (isStreaming : Bool) :
    Apart id r (r.launch key g isStreaming).1 := by
  refine ⟨rfl, by simp [Registry.launch, Table.get?_insert, hne], fun n f hf => ?_⟩
  simp only [Registry.launch, List.getElem?_append]
  split
  · exact .rfl
  · rename_i hge
    rw [List.getElem?_eq_none (Nat.le_of_not_lt hge), List.getElem?_singleton]
    split
    · simp only [Option.some.injEq, reduceCtorEq, iff_false]
      rintro rfl
      exact hne hf
    · exact .rfl

/-- A launch adds a flight behind all others. -/
theorem spares_launch (h : n < r.flights.length) (g : Generation) (isStreaming : Bool) :
    Spares n r (r.launch key g isStreaming).1 := by
  refine ⟨by simp [Registry.launch, List.getElem?_append, h], fun id hid => ?_⟩
  simp only [Registry.launch, Table.get?_insert] at hid
  split at hid
  · exact absurd (Option.some.inj hid) (Nat.ne_of_gt h)
  · exact hid

/-- A start is a change of its generation, and then a new flight. -/
theorem changes_begin {isStreaming : Bool} (h : r.begin key isStreaming now = .ok (r', n)) :
    ∃ r₁ g, Changes key (fun _ => False) r r₁ ∧ r₁.launch key g isStreaming = (r', n) := by
  unfold Registry.begin at h
  split at h
  · cases h
  · split at h
    · cases h
    · rename_i running _
      refine ⟨(r.put key running).forget key, running, ?_, Except.ok.inj h⟩
      unfold Registry.forget
      split
      · exact .put .refl running
      · rename_i m hm
        exact .close (.land (.put .refl running)) hm

theorem apart_begin {isStreaming : Bool} (h : r.begin key isStreaming now = .ok (r', n))
    (hs : Sound r) (hne : key ≠ id) : Apart id r r' := by
  obtain ⟨r₁, g, hchanges, hlaunch⟩ := changes_begin h
  obtain rfl := congrArg Prod.fst hlaunch
  exact (hchanges.apart hs hne).trans (apart_launch hne g isStreaming)

/-- A start leaves a closed flight alone: the flight that it forgets is the one
in the entry. -/
theorem spares_begin {isStreaming : Bool} (h : r.begin key isStreaming now = .ok (r', m))
    (hf : Closed r n f) (hs : Sound r) : Spares n r r' := by
  obtain ⟨r₁, g, hchanges, hlaunch⟩ := changes_begin h
  obtain rfl := congrArg Prod.fst hlaunch
  have hspares := hchanges.spares hf hs
  have hlt : n < r₁.flights.length :=
    (List.getElem?_eq_some_iff.mp (hspares.flight_eq.trans hf.flight_eq)).1
  exact hspares.trans (spares_launch hlt g isStreaming)

/-- Streamed text reaches the flight in the entry, if anything. -/
theorem changes_delta (text : String) : Changes key (· = .delta text) r (r.delta key text).1 := by
  unfold Registry.delta
  split
  · exact .refl
  · rename_i n hn
    simp only
    split
    · exact .hear .refl hn rfl
    · exact .refl

/-- An end changes the record and lets the flight in the entry hear of it. -/
theorem changes_finish (result : WorkResult) (now : Timestamp) :
    Changes key (IsSettled result) r (r.finish key result now).1 := by
  unfold Registry.finish
  split
  · -- the end was refused: at most the entry goes, and the flight is closed
    rename_i r' h
    unfold resolve at h
    split at h
    · cases h
      exact .refl
    · rename_i n hn _
      cases h
      exact .close (.land .refl) hn
    · rename_i n record hn _
      split at h
      · cases h
        exact .close (.land .refl) hn
      · cases h
  · rename_i r' d h
    unfold resolve at h
    split at h
    · cases h
    · cases h
    · rename_i n record hn _
      split at h
      · cases h
      · rename_i final signal hsettle
        cases h
        refine .close (.hear (.land ?_) hn ⟨record, _, now, final, hsettle⟩) hn
        cases final with
        | none => exact .refl
        | some g => exact .put .refl g

/-- A stop cancels the record and the flight in the entry, and lets it hear
nothing. -/
theorem changes_stop {wasLive : Bool} (h : r.stop key now = .ok (r', wasLive)) :
    Changes key (fun _ => False) r r' := by
  unfold Registry.stop at h
  split at h
  · cases h
  · split at h
    · cases h
      exact .refl
    · split at h
      · cases h
      · rename_i cancelled _
        split at h
        · cases h
          exact .put .refl cancelled
        · rename_i n hn
          cases h
          refine .cancelFlight ?_ hn
          have hentry : (r.put key cancelled).inFlight.get? key = some n := hn
          rw [Registry.forget, hentry]
          exact .close (.land (.put .refl cancelled)) hn

/-! ## Generations in flight -/

/-- What ends a running record goes with a signal that ends a flight. -/
theorem exists_settle {record : Generation} (h : record.status = .running) (isStreaming : Bool)
    (result : WorkResult) (now : Timestamp) :
    ∃ final s, settle record isStreaming result now = .ok (final, s) ∧ s.isEnding ∧
      ((∃ g, final = some g ∧ s = .completed g ∧ g.status = .completed) ∨
        (∃ g, isStreaming = false ∧ final = some g ∧ s = .failed g ∧ g.status = .failed ∧
          g.error.isSome) ∨
        ∃ message, isStreaming = true ∧ final = none ∧ s = .broken message) := by
  cases result with
  | ok outputs =>
    obtain ⟨g, hcomplete, hg⟩ : ∃ g, record.complete outputs now = .ok g ∧ g.status = .completed :=
      ⟨_, Generation.complete_of_running h outputs, rfl⟩
    refine ⟨some g, .completed g, ?_, rfl, Or.inl ⟨g, rfl, rfl, hg⟩⟩
    simp only [settle, hcomplete]
    rfl
  | error message =>
    cases isStreaming with
    | true => exact ⟨none, .broken message, rfl, rfl, Or.inr (Or.inr ⟨message, rfl, rfl, rfl⟩)⟩
    | false =>
      obtain ⟨g, hfail, hg, herror⟩ :
          ∃ g, record.fail message now = .ok g ∧ g.status = .failed ∧ g.error.isSome :=
        ⟨_, Generation.fail_of_open (Or.inr h) message, rfl, rfl⟩
      refine ⟨some g, .failed g, ?_, rfl, Or.inr (Or.inl ⟨g, rfl, rfl, rfl, hg, herror⟩)⟩
      simp only [settle, hfail]
      rfl

/-- The first part of the end of a live flight. -/
theorem Live.resolve (hf : Live r n f) (result : WorkResult) (now : Timestamp) :
    ∃ r' s, r.resolve f.generation result now = (r', some ⟨n, s⟩) ∧ Owed r' n f s := by
  obtain ⟨final, s, hsettle, hending, hcases⟩ :=
    exists_settle hf.running f.isStreaming result now
  have heq : r.resolve f.generation result now =
      ((final.elim r (r.put f.generation)).land f.generation, some ⟨n, s⟩) := by
    simp [Registry.resolve, hf.entry_eq, hf.record_eq, isStreaming_of_flight hf.flight_eq, hsettle]
  have hflights : (final.elim r (r.put f.generation)).flights = r.flights := by
    cases final <;> rfl
  have hrecord : (final.elim r (r.put f.generation)).get? f.generation =
      some (final.getD f.record) := by
    cases final with
    | none => exact hf.record_eq
    | some g => simp
  refine ⟨_, s, heq, ?_, ?_, hending, ?_⟩
  · simp [hflights, hf.flight_eq]
  · simp
  · rcases hcases with ⟨g, rfl, rfl, hg⟩ | ⟨g, hkind, rfl, rfl, hg, herror⟩ |
      ⟨message, hkind, rfl, rfl⟩
    · exact ⟨hrecord, hg⟩
    · exact ⟨hkind, hrecord, hg, herror⟩
    · exact ⟨hkind, hrecord⟩

/-- The second part. -/
theorem Owed.deliver (h : Owed r n f s) : Ended (r.deliver ⟨n, s⟩) n f s where
  flight_eq := by simp [Registry.deliver, h.flight_eq]
  entry_eq := h.entry_eq
  isEnding := h.isEnding
  carries := h.carries

/-- The end of its work ends a live flight. -/
theorem Live.finish (hf : Live r n f) (result : WorkResult) (now : Timestamp) :
    (∃ s, Ended (r.finish f.generation result now).1 n f s) ∧
      (r.finish f.generation result now).2 = true := by
  obtain ⟨r', s, hresolve, howed⟩ := hf.resolve result now
  have heq : r.finish f.generation result now = (r'.deliver ⟨n, s⟩, true) := by
    simp [Registry.finish, hresolve]
  rw [heq]
  exact ⟨⟨s, howed.deliver⟩, rfl⟩

/-- Text is heard of a live flight if it streams. -/
theorem Live.delta (hf : Live r n f) (text : String) :
    ∃ heard, (∀ s ∈ heard, s.isEnding = false) ∧
      Live (r.delta f.generation text).1 n { f with heard := f.heard ++ heard } := by
  simp only [Registry.delta, hf.entry_eq, isStreaming_of_flight hf.flight_eq]
  split
  · refine ⟨[.delta text], by simp [Signal.isEnding], ?_, ?_, ?_, hf.running, hf.isOpen, ?_⟩
    · simp [hf.flight_eq]
    · exact hf.entry_eq
    · exact hf.record_eq
    · intro s hs
      rcases List.mem_append.mp hs with hold | hnew
      · exact hf.silent s hold
      · rw [List.mem_singleton.mp hnew]
        rfl
  · exact ⟨[], by simp, by simpa using hf⟩

/-- Where nobody streams, text is discarded. -/
theorem Live.delta_of_not_streaming (hf : Live r n f) (hkind : f.isStreaming = false)
    (text : String) : r.delta f.generation text = (r, true) := by
  simp [Registry.delta, hf.entry_eq, isStreaming_of_flight hf.flight_eq, hkind]

/-- A stop cancels a live flight. -/
theorem Live.stop (hf : Live r n f) (now : Timestamp) :
    ∃ r', r.stop f.generation now = .ok (r', true) ∧ Stopped r' n f := by
  have hopen := Generation.isTerminal_of_running hf.running
  obtain ⟨g, hcancel, hg⟩ : ∃ g, f.record.cancel now = .ok g ∧ g.status = .cancelled :=
    ⟨_, Generation.cancel_of_open hopen, rfl⟩
  have hflying : r.isInFlight f.generation = true := by
    simp [isInFlight, Table.contains, hf.entry_eq]
  have hforget : (r.put f.generation g).forget f.generation =
      ((r.put f.generation g).land f.generation).close n := by
    simp [Registry.forget, hf.entry_eq]
  refine ⟨(((r.put f.generation g).land f.generation).close n).cancelFlight n, ?_, ?_, ?_, ?_⟩
  · simp [Registry.stop, hf.record_eq, hopen, hflying, hcancel, hf.entry_eq, hforget]
  · simp [hf.flight_eq]
  · simp
  · exact ⟨g, by simp, hg⟩

/-- A live flight keeps its generation from being started again. -/
theorem Live.begin (hf : Live r n f) (isStreaming : Bool) (now : Timestamp) :
    ∃ e, r.begin f.generation isStreaming now = .error e := by
  simp [Registry.begin, hf.record_eq, Generation.start, Generation.move, Generation.isTerminal,
    hf.running, GenerationStatus.isTerminal, bind, Except.bind]

/-! ## Generations that are not in flight -/

theorem delta_of_free (h : r.inFlight.get? id = none) (text : String) :
    r.delta id text = (r, false) := by
  simp [Registry.delta, h]

theorem resolve_of_free (h : r.inFlight.get? id = none) (result : WorkResult) (now : Timestamp) :
    r.resolve id result now = (r, none) := by
  simp [Registry.resolve, h]

theorem finish_of_free (h : r.inFlight.get? id = none) (result : WorkResult) (now : Timestamp) :
    r.finish id result now = (r, false) := by
  simp [Registry.finish, resolve_of_free h]

/-- A stop that comes after the end has no effect, whether the flight has
heard of it or not. -/
theorem Carries.stop (h : r.Carries f s) (hentry : r.inFlight.get? f.generation = none)
    (hrunning : f.record.status = .running) (now : Timestamp) :
    r.stop f.generation now = .ok (r, false) := by
  have hfree : r.isInFlight f.generation = false := by
    simp [isInFlight, Table.contains, hentry]
  obtain ⟨g, hg, hover⟩ : ∃ g, r.get? f.generation = some g ∧
      (g.isTerminal = true ∨ g.status = .running) := by
    unfold Carries at h
    split at h
    · exact h.elim
    · exact ⟨_, h.1, Or.inl (by simp [Generation.isTerminal, h.2, GenerationStatus.isTerminal])⟩
    · exact ⟨_, h.2.1, Or.inl (by simp [Generation.isTerminal, h.2.2.1,
        GenerationStatus.isTerminal])⟩
    · exact ⟨_, h.2, Or.inr hrunning⟩
  simp [Registry.stop, hg, hfree, hover]

/-- A stop comes too late for work that has ended. The record of a streamed
failure is still running then, and is left so. -/
theorem Ended.stop (h : Ended r n f s) (hrunning : f.record.status = .running) (now : Timestamp) :
    r.stop f.generation now = .ok (r, false) :=
  h.carries.stop h.entry_eq hrunning now

/-- A launched generation with a running record is live. -/
theorem live_launch {g : Generation} (hg : r.get? id = some g) (hrunning : g.status = .running)
    (isStreaming : Bool) : Live (r.launch id g isStreaming).1 r.flights.length
      ⟨id, g, isStreaming, false, [], true⟩ where
  flight_eq := by simp [Registry.launch]
  entry_eq := by simp [Registry.launch]
  record_eq := hg
  running := hrunning
  isOpen := rfl
  silent := by simp

/-- An accepted start has a live flight. -/
theorem live_begin {isStreaming : Bool} (hbegin : r.begin id isStreaming now = .ok (r', n)) :
    ∃ g, g.status = .running ∧ Live r' n ⟨id, g, isStreaming, false, [], true⟩ := by
  unfold Registry.begin at hbegin
  split at hbegin
  · cases hbegin
  · split at hbegin
    · cases hbegin
    · rename_i record hrecord _ running hstart
      have hstatus : running.status = .running := by rw [(Generation.start_eq hstart).2]
      obtain ⟨rfl, rfl⟩ := Prod.mk.inj (Except.ok.inj hbegin)
      exact ⟨running, hstatus, live_launch (by simp) hstatus isStreaming⟩

/-- An accepted start of a generation that is not in flight has a live
flight, the newest. -/
theorem begin_of_free {isStreaming : Bool} (h : r.inFlight.get? id = none)
    (hbegin : r.begin id isStreaming now = .ok (r', n)) :
    r.HasStatus id .queued ∧ n = r.flights.length ∧ r'.flights.length = n + 1 ∧
      ∃ g, Live r' n ⟨id, g, isStreaming, false, [], true⟩ := by
  obtain ⟨g, -, hlive⟩ := live_begin hbegin
  unfold Registry.begin at hbegin
  split at hbegin
  · cases hbegin
  · rename_i record hrecord
    split at hbegin
    · cases hbegin
    · rename_i running hstart
      have hforget : (r.put id running).forget id = r.put id running := by
        simp [Registry.forget, h]
      rw [hforget] at hbegin
      obtain ⟨rfl, rfl⟩ := Prod.mk.inj (Except.ok.inj hbegin)
      exact ⟨⟨record, hrecord, (Generation.start_eq hstart).1⟩, rfl, by simp, g, hlive⟩

end Registry

end Workflow
