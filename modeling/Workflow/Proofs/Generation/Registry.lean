/-
Workflow.Proofs.Generation.Registry — what every registry keeps true.

* `Registry.Sound` — records stand under their own identifier, entries of
  generations in flight lead to their own flights, and a completion that
  was heard is on record.
* `Registry.Grows r r'` — from `r` to `r'` no final record lost its status
  and no flight changed its generation.

Each operation keeps the first and is a case of the second.
-/
import Workflow.Generation.Registry

namespace Workflow

/-! ## Changes of a record -/

namespace Generation

variable {g g' : Generation} {time : Timestamp}

/-- A change that is accepted starts from one of its sources, and writes the
status and nothing else. -/
theorem move_eq {sources : List GenerationStatus} {target : GenerationStatus}
    (h : g.move sources target = .ok g') :
    g.isTerminal = false ∧ g.status ∈ sources ∧ g' = { g with status := target } := by
  unfold move at h
  split at h
  · cases h
  · rename_i hterminal
    split at h
    · rename_i hmem
      cases h
      exact ⟨by simpa using hterminal, hmem, rfl⟩
    · cases h

/-- A move whose record is completed by other fields. -/
theorem move_bind_eq {sources : List GenerationStatus} {target : GenerationStatus}
    {f : Generation → Generation} (h : (do return f (← g.move sources target)) = Except.ok g') :
    g.isTerminal = false ∧ g.status ∈ sources ∧ g' = f { g with status := target } := by
  cases hm : g.move sources target with
  | error e => simp [hm, bind, Except.bind] at h
  | ok m =>
    obtain ⟨hterminal, hmem, rfl⟩ := move_eq hm
    simp only [hm, bind, Except.bind, pure, Except.pure, Except.ok.injEq] at h
    exact ⟨hterminal, hmem, h.symm⟩

/-- Where no status in question is final, a move asks for nothing more. -/
theorem move_bind_eq_ok_iff {sources : List GenerationStatus}
    (hopen : ∀ status ∈ sources, status.isTerminal = false) {target : GenerationStatus}
    {f : Generation → Generation} :
    (do return f (← g.move sources target)) = Except.ok g' ↔
      g.status ∈ sources ∧ g' = f { g with status := target } := by
  constructor
  · intro h
    exact (move_bind_eq h).2
  · rintro ⟨hmem, rfl⟩
    have hterminal : g.isTerminal = false := hopen _ hmem
    simp [move, hterminal, hmem, bind, Except.bind, pure, Except.pure]

/-- What an accepted call asks of the record and writes to it; the next lemmas
say it of the other calls. -/
theorem queue_eq (h : g.queue time = .ok g') :
    g.status = .created ∧ g' = { g with status := .queued, queuedAt := some time } := by
  obtain ⟨-, hmem, heq⟩ := move_bind_eq h
  exact ⟨by simpa using hmem, heq⟩

theorem start_eq (h : g.start time = .ok g') :
    g.status = .queued ∧ g' = { g with status := .running, startedAt := some time } := by
  obtain ⟨-, hmem, heq⟩ := move_bind_eq h
  exact ⟨by simpa using hmem, heq⟩

theorem complete_eq {outputs : List Output} (h : g.complete outputs time = .ok g') :
    g.status = .running ∧
      g' = { g with status := .completed, outputs, finishedAt := some time } := by
  obtain ⟨-, hmem, heq⟩ := move_bind_eq h
  exact ⟨by simpa using hmem, heq⟩

theorem fail_eq {message : String} (h : g.fail message time = .ok g') :
    g.isTerminal = false ∧
      g' = { g with status := .failed, error := some message, finishedAt := some time } := by
  obtain ⟨hterminal, -, heq⟩ := move_bind_eq h
  exact ⟨hterminal, heq⟩

theorem cancel_eq (h : g.cancel time = .ok g') :
    g.isTerminal = false ∧ g' = { g with status := .cancelled, finishedAt := some time } := by
  obtain ⟨hterminal, -, heq⟩ := move_bind_eq h
  exact ⟨hterminal, heq⟩

/-- Records that are the same in the sense of `Generation.same` agree in status
and identifier. -/
theorem same_eq (h : g.same g') : g.status = g'.status ∧ g.id = g'.id := by
  simp only [same, Bool.and_eq_true, beq_iff_eq, mk.injEq] at h
  exact ⟨h.1.1.2.1, h.1.1.1⟩

end Generation

namespace Registry

variable {r r' : Registry} {id : GenerationId} {n : Nat} {now : Timestamp}

/-! ## Views -/

/-- The generation of a flight. -/
def target? (r : Registry) (n : Nat) : Option GenerationId := (r.flights[n]?).map (·.generation)

/-- Whether the record of a generation has a status. -/
def HasStatus (r : Registry) (id : GenerationId) (status : GenerationStatus) : Prop :=
  ∃ g, r.get? id = some g ∧ g.status = status

instance (r : Registry) (id : GenerationId) (status : GenerationStatus) :
    Decidable (r.HasStatus id status) :=
  decidable_of_iff ((r.get? id).any (·.status = status)) (by simp [HasStatus, Option.any_eq_true])

/-- Whether the work of a flight was heard to be done. -/
def HeardCompleted (r : Registry) (n : Nat) : Prop :=
  ∃ f g, r.flights[n]? = some f ∧ Signal.completed g ∈ f.heard

/-- Records stand under their own identifiers, entries lead to flights of their
generation, and a completion that was heard is on record. -/
structure Sound (r : Registry) : Prop where
  /-- A record stands under its own identifier. -/
  key_eq : ∀ id g, r.get? id = some g → g.id = id
  /-- An entry leads to a flight of its generation. -/
  inFlight_target : ∀ id n, r.inFlight.get? id = some n → r.target? n = some id
  /-- Nobody hears of a completion that is not on record. -/
  heard : ∀ n id, r.target? n = some id → r.HeardCompleted n → r.HasStatus id .completed

/-- What never goes away: final statuses, and the generations of flights. -/
structure Grows (r r' : Registry) : Prop where
  status : ∀ id status, status.isTerminal → r.HasStatus id status → r'.HasStatus id status
  target : ∀ n id, r.target? n = some id → r'.target? n = some id

theorem hasStatus_congr {status : GenerationStatus} (h : r'.get? id = r.get? id) :
    r'.HasStatus id status ↔ r.HasStatus id status := by
  rw [HasStatus, HasStatus, h]

theorem Grows.refl (r : Registry) : Grows r r := ⟨fun _ _ _ h => h, fun _ _ h => h⟩

theorem Grows.trans {r'' : Registry} (h : Grows r r') (h' : Grows r' r'') : Grows r r'' :=
  ⟨fun id s ht hs => h'.status id s ht (h.status id s ht hs),
    fun n id ht => h'.target n id (h.target n id ht)⟩

/-- No flight is ever removed. -/
theorem Grows.lt (h : Grows r r') (hn : n < r.flights.length) : n < r'.flights.length := by
  have htarget : r'.target? n = some r.flights[n].generation :=
    h.target n _ (by simp [target?, hn])
  obtain ⟨f, hf, -⟩ := Option.map_eq_some_iff.mp htarget
  exact (List.getElem?_eq_some_iff.mp hf).1

theorem sound_empty : Sound empty :=
  ⟨fun _ _ h => by simp [empty, get?] at h, fun _ _ h => by simp [empty] at h,
    fun n id h => by simp [empty, target?] at h⟩

/-! ## Parts of operations -/

/-- Storing a record changes the status of its own generation only. -/
theorem hasStatus_put {g : Generation} {key : GenerationId} {status : GenerationStatus} :
    (r.put key g).HasStatus id status ↔
      if key = id then g.status = status else r.HasStatus id status := by
  simp only [HasStatus, get?, put, Table.get?_insert]
  split <;> simp

/-- Storing a record that does not change the status of a final one. -/
theorem grows_put {g : Generation} (h : ∀ old, r.get? id = some old → old.isTerminal →
    g.status = old.status) : Grows r (r.put id g) := by
  refine ⟨fun key status ht hs => ?_, fun _ _ h => h⟩
  rw [hasStatus_put]
  split
  · rename_i heq
    subst heq
    obtain ⟨old, hold, rfl⟩ := hs
    exact h old hold ht
  · exact hs

/-- A record may be stored unless it would take back a final status. -/
theorem Sound.put (hs : Sound r) {g : Generation} (hid : g.id = id)
    (h : ∀ old, r.get? id = some old → old.isTerminal → g.status = old.status) :
    Sound (r.put id g) := by
  refine ⟨fun key k hk => ?_, hs.inFlight_target, fun n key ht hc => ?_⟩
  · simp only [get?, Registry.put, Table.get?_insert] at hk
    split at hk
    · rename_i heq
      cases hk
      exact hid.trans heq
    · exact hs.key_eq key k hk
  · exact (grows_put h).status key .completed rfl (hs.heard n key ht hc)

theorem getElem?_flights_modify {flight : Nat} {f : Flight → Flight} :
    (r.flights.modify flight f)[n]? =
      (r.flights[n]?).map fun x => if flight = n then f x else x := by
  rw [List.getElem?_modify]
  rfl

/-- A change of a flight that is not a change of its generation. -/
theorem target?_modify {flight : Nat} {f : Flight → Flight}
    (hf : ∀ x, (f x).generation = x.generation) :
    target? { r with flights := r.flights.modify flight f } n = r.target? n := by
  simp only [target?, getElem?_flights_modify, Option.map_map]
  refine congrArg (Option.map · _) (funext fun x => ?_)
  simp only [Function.comp_apply]
  split
  · exact hf x
  · rfl

theorem grows_modify {flight : Nat} {f : Flight → Flight}
    (hf : ∀ x, (f x).generation = x.generation) :
    Grows r { r with flights := r.flights.modify flight f } :=
  ⟨fun _ _ _ h => h, fun n id h => by rwa [target?_modify hf]⟩

/-- A flight may hear of a completion that is on record. -/
theorem Sound.modify (hs : Sound r) {flight : Nat} {f : Flight → Flight}
    (hf : ∀ x, (f x).generation = x.generation)
    (hheard : ∀ x g, r.flights[flight]? = some x → Signal.completed g ∈ (f x).heard →
      Signal.completed g ∈ x.heard ∨ r.HasStatus x.generation .completed) :
    Sound { r with flights := r.flights.modify flight f } := by
  refine ⟨hs.key_eq, fun id n h => ?_, fun n id ht hc => ?_⟩
  · rw [target?_modify hf]
    exact hs.inFlight_target id n h
  · rw [target?_modify hf] at ht
    obtain ⟨x, g, hx, hg⟩ := hc
    simp only [getElem?_flights_modify, Option.map_eq_some_iff] at hx
    obtain ⟨y, hy, rfl⟩ := hx
    split at hg
    · rename_i hn
      subst hn
      rcases hheard y g hy hg with hmem | hstatus
      · exact hs.heard flight id ht ⟨y, g, hy, hmem⟩
      · have hid : y.generation = id := by simpa [target?, hy] using ht
        exact hid ▸ hstatus
    · exact hs.heard n id ht ⟨y, g, hy, hg⟩

/-- Entries may go. -/
theorem Sound.land (hs : Sound r) : Sound (r.land id) := by
  refine ⟨hs.key_eq, fun key n h => hs.inFlight_target key n ?_, hs.heard⟩
  simp only [Registry.land, Table.get?_erase] at h
  split at h
  · cases h
  · exact h

theorem grows_land : Grows r (r.land id) := ⟨fun _ _ _ h => h, fun _ _ h => h⟩

theorem Sound.close (hs : Sound r) : Sound (r.close n) :=
  hs.modify (fun _ => rfl) fun _ _ _ h => Or.inl h

theorem grows_close : Grows r (r.close n) := grows_modify fun _ => rfl

theorem Sound.cancelFlight (hs : Sound r) : Sound (r.cancelFlight n) :=
  hs.modify (fun _ => rfl) fun _ _ _ h => Or.inl h

theorem grows_cancelFlight : Grows r (r.cancelFlight n) := grows_modify fun _ => rfl

/-- A flight may hear of a completion that is on record, and of anything
else. -/
theorem Sound.hear (hs : Sound r) {s : Signal}
    (h : ∀ g id, s = .completed g → r.target? n = some id → r.HasStatus id .completed) :
    Sound (r.hear n s) := by
  refine hs.modify (fun _ => rfl) fun x g hx hg => ?_
  rcases List.mem_append.mp hg with hmem | hmem
  · exact Or.inl hmem
  · exact Or.inr (h g x.generation (List.mem_singleton.mp hmem).symm (by simp [target?, hx]))

theorem grows_hear {s : Signal} : Grows r (r.hear n s) := grows_modify fun _ => rfl

@[simp] theorem get?_forget : (r.forget key).get? id = r.get? id := by
  unfold Registry.forget
  split <;> rfl

/-- Forgetting a flight takes an entry away, and leaves the records alone. -/
theorem Sound.forget (hs : Sound r) : Sound (r.forget id) := by
  unfold Registry.forget
  split
  · exact hs
  · exact hs.land.close

theorem grows_forget : Grows r (r.forget id) := by
  unfold Registry.forget
  split
  · exact .refl r
  · exact grows_land.trans grows_close

/-- The new flight is one of the launched generation, at the end of the list. -/
theorem target?_launch {record : Generation} {isStreaming : Bool} :
    (r.launch id record isStreaming).1.target? n =
      if n = r.flights.length then some id else r.target? n := by
  simp only [launch, target?, List.getElem?_append]
  split
  · rename_i hlt
    rw [if_neg (Nat.ne_of_lt hlt)]
  · rename_i hge
    split
    · rename_i heq
      simp [heq]
    · rename_i hne
      have hempty : n - r.flights.length ≠ 0 := by omega
      rw [List.getElem?_eq_none (by simp; omega), List.getElem?_eq_none (by omega)]

/-- A new flight comes after all others and takes no status back. -/
theorem grows_launch {record : Generation} {isStreaming : Bool} :
    Grows r (r.launch id record isStreaming).1 := by
  refine ⟨fun _ _ _ h => h, fun n key h => ?_⟩
  rw [target?_launch, if_neg ?_]
  · exact h
  · rintro rfl
    simp [target?] at h

/-- A new flight has heard nothing, so there is nothing that records would have
to back. -/
theorem Sound.launch (hs : Sound r) {record : Generation} {isStreaming : Bool} :
    Sound (r.launch id record isStreaming).1 := by
  refine ⟨hs.key_eq, fun key n h => ?_, fun n key ht hc => ?_⟩
  · simp only [Registry.launch, Table.get?_insert] at h
    rw [target?_launch]
    split at h
    · rename_i heq
      cases h
      simp [heq]
    · have ht := hs.inFlight_target key n h
      rw [if_neg ?_]
      · exact ht
      · rintro rfl
        simp [target?] at ht
  · rw [target?_launch] at ht
    obtain ⟨x, g, hx, hg⟩ := hc
    simp only [Registry.launch, List.getElem?_append] at hx
    split at hx
    · rename_i hlt
      rw [if_neg (Nat.ne_of_lt hlt)] at ht
      exact hs.heard n key ht ⟨x, g, hx, hg⟩
    · -- the new flight has heard nothing yet
      rw [List.getElem?_singleton] at hx
      split at hx
      · cases hx
        exact absurd hg List.not_mem_nil
      · cases hx

theorem target?_hear {flight : Nat} {s : Signal} : (r.hear flight s).target? n = r.target? n :=
  target?_modify fun _ => rfl

theorem target?_close {flight : Nat} : (r.close flight).target? n = r.target? n :=
  target?_modify fun _ => rfl

/-! ## Operations -/

/-- A record that is not final may be replaced by any other. -/
theorem status_eq_of_open {record : Generation} (h : r.get? id = some record)
    (hopen : record.isTerminal = false) (status : GenerationStatus) :
    ∀ old, r.get? id = some old → old.isTerminal → status = old.status := by
  intro old hold hterminal
  rw [h, Option.some.injEq] at hold
  subst hold
  simp [hopen] at hterminal

/-- Storing a record is refused exactly where it would take back a final
status, so an accepted one keeps the registry sound. -/
theorem set_sound (hs : Sound r) {g : Generation} (h : r.set g = .ok r') :
    Sound r' ∧ Grows r r' := by
  have hput (hstatus : ∀ old, r.get? g.id = some old → old.isTerminal → g.status = old.status) :
      Sound (r.put g.id g) ∧ Grows r (r.put g.id g) :=
    ⟨hs.put rfl hstatus, grows_put hstatus⟩
  unfold Registry.set at h
  split at h
  · rename_i hnone
    cases h
    exact hput fun old hold => by simp [hnone] at hold
  · rename_i old hsome
    split at h
    · cases h
    · rename_i hcond
      cases h
      refine hput fun o ho hterminal => ?_
      rw [hsome, Option.some.injEq] at ho
      subst ho
      have hsame : old.same g := by simpa [hterminal] using hcond
      exact (Generation.same_eq hsame).1.symm

/-- An accepted start keeps the registry sound, and its answer is a flight of
the generation. -/
theorem begin_sound (hs : Sound r) {isStreaming : Bool}
    (h : r.begin id isStreaming now = .ok (r', n)) :
    Sound r' ∧ Grows r r' ∧ r'.target? n = some id := by
  unfold Registry.begin at h
  split at h
  · cases h
  · rename_i record hrecord
    split at h
    · cases h
    · rename_i running hstart
      obtain ⟨hqueued, hrunning⟩ := Generation.start_eq hstart
      have hopen : record.isTerminal = false := by
        simp [Generation.isTerminal, hqueued, GenerationStatus.isTerminal]
      have hstatus := status_eq_of_open hrecord hopen running.status
      have hid : running.id = id := by
        rw [hrunning]
        exact hs.key_eq id record hrecord
      simp only [Except.ok.injEq] at h
      have hn := congrArg Prod.snd h
      obtain rfl := congrArg Prod.fst h
      refine ⟨((hs.put hid hstatus).forget).launch,
        ((grows_put hstatus).trans grows_forget).trans grows_launch, ?_⟩
      rw [target?_launch, if_pos]
      exact hn.symm

/-- Streamed text is no completion. -/
theorem delta_sound (hs : Sound r) {text : String} :
    Sound (r.delta id text).1 ∧ Grows r (r.delta id text).1 := by
  unfold Registry.delta
  split
  · exact ⟨hs, .refl r⟩
  · simp only
    split
    · exact ⟨hs.hear (fun _ _ h => by cases h), grows_hear⟩
    · exact ⟨hs, .refl r⟩

/-- What an end makes final: a record that was not, under the same
identifier. A completion is on record. -/
theorem settle_eq {record : Generation} {isStreaming : Bool} {result : WorkResult}
    {final : Option Generation} {s : Signal}
    (h : settle record isStreaming result now = .ok (final, s)) :
    (∀ g, final = some g → record.isTerminal = false ∧ g.id = record.id) ∧
      ∀ g, s = .completed g → final = some g ∧ g.status = .completed := by
  cases result with
  | ok outputs =>
    simp only [settle] at h
    cases hc : record.complete outputs now with
    | error e => simp [hc, bind, Except.bind] at h
    | ok done =>
      obtain ⟨hrunning, rfl⟩ := Generation.complete_eq hc
      simp only [hc, bind, Except.bind, pure, Except.pure, Except.ok.injEq, Prod.mk.injEq] at h
      obtain ⟨rfl, rfl⟩ := h
      simp [Generation.isTerminal, hrunning, GenerationStatus.isTerminal]
  | error message =>
    simp only [settle] at h
    split at h
    · simp only [Except.ok.injEq, Prod.mk.injEq] at h
      obtain ⟨rfl, rfl⟩ := h
      simp
    · cases hf : record.fail message now with
      | error e => simp [hf, bind, Except.bind] at h
      | ok failed =>
        obtain ⟨hterminal, rfl⟩ := Generation.fail_eq hf
        simp only [hf, bind, Except.bind, pure, Except.pure, Except.ok.injEq, Prod.mk.injEq] at h
        obtain ⟨rfl, rfl⟩ := h
        simp [hterminal]

/-- The first part of an end: a completion that is left to deliver is already
on record. -/
theorem resolve_sound (hs : Sound r) {result : WorkResult} {d : Option Delivery}
    (h : r.resolve id result now = (r', d)) :
    Sound r' ∧ Grows r r' ∧
      ∀ e, d = some e → ∀ g key, e.signal = .completed g → r'.target? e.flight = some key →
        r'.HasStatus key .completed := by
  unfold Registry.resolve at h
  split at h
  · cases h
    exact ⟨hs, .refl r, by simp⟩
  · cases h
    exact ⟨hs.land.close, grows_land.trans grows_close, by simp⟩
  · rename_i n record hn hrecord
    split at h
    · cases h
      exact ⟨hs.land.close, grows_land.trans grows_close, by simp⟩
    · rename_i final signal hsettle
      obtain ⟨hfinal, hsignal⟩ := settle_eq hsettle
      have htarget := hs.inFlight_target id n hn
      simp only [Prod.mk.injEq] at h
      obtain ⟨rfl, rfl⟩ := h
      cases final with
      | none =>
        refine ⟨hs.land, grows_land, ?_⟩
        intro e he g key hg
        cases he
        cases (hsignal g hg).1
      | some g =>
        obtain ⟨hopen, hid⟩ := hfinal g rfl
        have hstatus := status_eq_of_open hrecord hopen g.status
        refine ⟨(hs.put (hid.trans (hs.key_eq id record hrecord)) hstatus).land,
          (grows_put hstatus).trans grows_land, ?_⟩
        intro e he done key hdone hkey
        cases he
        obtain ⟨heq, hcompleted⟩ := hsignal done hdone
        cases heq
        -- the flight that hears of it is that of the entry, and so of this record
        have hsame : key = id := by
          have := hkey.symm.trans htarget
          simpa using this
        subst hsame
        exact hasStatus_put.mpr (by simp [hcompleted])

/-- Both parts of an end in one call. -/
theorem finish_sound (hs : Sound r) {result : WorkResult} :
    Sound (r.finish id result now).1 ∧ Grows r (r.finish id result now).1 := by
  unfold Registry.finish
  cases hr : r.resolve id result now with
  | mk r' d =>
    obtain ⟨hsound, hgrows, hd⟩ := resolve_sound hs hr
    cases d with
    | none => exact ⟨hsound, hgrows⟩
    | some d => exact ⟨(hsound.hear (hd d rfl)).close, (hgrows.trans grows_hear).trans grows_close⟩

/-- No flight changes its generation when work ends. -/
theorem target?_finish {result : WorkResult} :
    (r.finish id result now).1.target? n = r.target? n := by
  unfold Registry.finish Registry.resolve
  cases r.inFlight.get? id with
  | none => rfl
  | some m =>
    cases r.get? id with
    | none => exact target?_close
    | some record =>
      cases hsettle : settle record (r.isStreaming m) result now with
      | error e =>
        simp only [hsettle]
        exact target?_close
      | ok settled =>
        simp only [hsettle]
        refine (target?_close.trans target?_hear).trans ?_
        cases settled.1 <;> rfl

/-- A stop changes a record that is not final, if it changes one at all. -/
theorem stop_sound (hs : Sound r) {wasLive : Bool} (h : r.stop id now = .ok (r', wasLive)) :
    Sound r' ∧ Grows r r' := by
  unfold Registry.stop at h
  split at h
  · cases h
  · rename_i record hrecord
    split at h
    · cases h
      exact ⟨hs, .refl r⟩
    · split at h
      · cases h
      · rename_i cancelled hcancel
        obtain ⟨hopen, hcancelled⟩ := Generation.cancel_eq hcancel
        have hstatus := status_eq_of_open hrecord hopen cancelled.status
        have hid : cancelled.id = id := by
          rw [hcancelled]
          exact hs.key_eq id record hrecord
        have hput := hs.put hid hstatus
        split at h
        · cases h
          exact ⟨hput, grows_put hstatus⟩
        · cases h
          exact ⟨hput.forget.cancelFlight,
            ((grows_put hstatus).trans grows_forget).trans grows_cancelFlight⟩

end Registry

end Workflow
