/-
Workflow.Proofs.Generation.Exclusive — every flight is live or over.

* `Registry.Exclusive` — a flight is live, or nothing more will be heard of
  it. As an entry leads to one flight, at most one flight of a generation
  is live.
* `Registry.Tidy r pending` — moreover, where work goes on for a flight that
  is over, the generation was stopped. So its end finds no entry, and never
  that of a later flight of the same generation.
* `Registry.Passes r r' fate` — what a call does to the flights: a live one
  stays so or meets its fate, and what is over stays as it is. There is a
  lemma with the fate for each call.
-/
import Workflow.Proofs.Generation.Flights

namespace Workflow.Registry

variable {r r' r'' : Registry} {id : GenerationId} {n : Nat} {now : Timestamp} {f : Flight}
  {pending pending' : Nat → Prop} {fate : Nat → Flight → Prop}

/-- A sound registry, each flight of which is live or closed. -/
structure Exclusive (r : Registry) : Prop where
  sound : Sound r
  live_or_closed : ∀ (n : Nat) (f : Flight), r.flights[n]? = some f → Live r n f ∨ Closed r n f

/-- Moreover, pending work of a flight that is closed belongs to a generation
that was stopped. -/
structure Tidy (r : Registry) (pending : Nat → Prop) : Prop extends Exclusive r where
  cancelled : ∀ (n : Nat) (f : Flight), Closed r n f → pending n →
    r.HasStatus f.generation .cancelled

theorem tidy_empty (pending : Nat → Prop) : Tidy empty pending where
  sound := sound_empty
  live_or_closed := fun n f h => by simp [empty] at h
  cancelled := fun n f h _ => by simpa [empty] using h.flight_eq

theorem Tidy.mono (h : Tidy r pending) (hsub : ∀ n, pending' n → pending n) : Tidy r pending' :=
  ⟨h.toExclusive, fun n f hf hn => h.cancelled n f hf (hsub n hn)⟩

/-- The entry of a generation leads to a live flight. -/
theorem Exclusive.free_or_live (h : Exclusive r) (id : GenerationId) :
    r.inFlight.get? id = none ∨ ∃ n f, Live r n f ∧ f.generation = id := by
  cases hentry : r.inFlight.get? id with
  | none => exact Or.inl rfl
  | some n =>
    right
    have htarget := h.sound.inFlight_target id n hentry
    simp only [target?, Option.map_eq_some_iff] at htarget
    obtain ⟨f, hf, rfl⟩ := htarget
    rcases h.live_or_closed n f hf with hlive | hclosed
    · exact ⟨n, f, hlive, rfl⟩
    · exact absurd hentry hclosed.entry_ne

theorem Live.isInFlight (h : Live r n f) : r.isInFlight f.generation = true := by
  simp [Registry.isInFlight, Table.contains, h.entry_eq]

/-- A live flight is not that of a stopped generation. -/
theorem Live.not_cancelled (h : Live r n f) : ¬ r.HasStatus f.generation .cancelled := by
  rintro ⟨g, hg, hstatus⟩
  obtain rfl := Option.some.inj (h.record_eq.symm.trans hg)
  rw [h.running] at hstatus
  cases hstatus

/-! ## What a call does to the flights -/

/-- What a call makes of the flights: those that were closed stay so, a live
one stays live or meets its fate, and new ones are live. -/
structure Passes (r r' : Registry) (fate : Nat → Flight → Prop) : Prop where
  sound : Sound r'
  grows : Grows r r'
  /-- A live flight goes on or meets its fate. -/
  live : ∀ (n : Nat) (f : Flight), Live r n f → Live r' n f ∨ fate n f
  /-- What was closed is never opened again. -/
  closed : ∀ (n : Nat) (f : Flight), Closed r n f → Closed r' n f
  /-- Each flight begins as a live one. -/
  new : ∀ (n : Nat) (f : Flight), r.flights.length ≤ n → r'.flights[n]? = some f → Live r' n f

/-- A call that changes nothing lets every live flight stay live. -/
theorem Passes.refl (hs : Sound r) (fate : Nat → Flight → Prop) : Passes r r fate where
  sound := hs
  grows := .refl r
  live := fun _ _ h => Or.inl h
  closed := fun _ _ h => h
  new := fun n f hn h => by simp [List.getElem?_eq_none hn] at h

theorem Passes.imp {fate' : Nat → Flight → Prop} (h : Passes r r' fate)
    (himp : ∀ n f, fate n f → fate' n f) : Passes r r' fate' :=
  { h with live := fun n f hf => (h.live n f hf).imp_right (himp n f) }

/-- Two calls, if the first of them adds no flight. -/
theorem Passes.trans {fate' : Nat → Flight → Prop} (h : Passes r r' fate)
    (h' : Passes r' r'' fate') (hlength : r''.flights.length = r.flights.length) :
    Passes r r'' fun n f => fate n f ∨ fate' n f where
  sound := h'.sound
  grows := h.grows.trans h'.grows
  live := fun n f hf => by
    rcases h.live n f hf with hlive | hfate
    · exact (h'.live n f hlive).imp_right Or.inr
    · exact Or.inr (Or.inl hfate)
  closed := fun n f hf => h'.closed n f (h.closed n f hf)
  new := fun n f hn hf => by simp [List.getElem?_eq_none (hlength ▸ hn)] at hf

/-- A registry stays tidy if a flight that is over was stopped, or no work
goes on for it. -/
theorem Tidy.passes (ht : Tidy r pending) (h : Passes r r' fate)
    (hfate : ∀ n f, fate n f → (∃ heard, Live r' n { f with heard := f.heard ++ heard }) ∨
      (∃ s, Ended r' n f s) ∧ ¬ pending' n ∨ Stopped r' n f)
    (hsub : ∀ n, n < r.flights.length → pending' n → pending n) : Tidy r' pending' := by
  -- what became of the flight, and why its work may go on
  have hcases : ∀ n f, r'.flights[n]? = some f →
      Live r' n f ∨ Closed r' n f ∧ (pending' n → r'.HasStatus f.generation .cancelled) := by
    intro n f hf
    rcases Nat.lt_or_ge n r.flights.length with hlt | hge
    · rcases ht.live_or_closed n _ (List.getElem?_eq_getElem hlt) with hlive | hclosed
      · rcases h.live n _ hlive with hlive' | hmet
        · obtain rfl := Option.some.inj (hlive'.flight_eq.symm.trans hf)
          exact Or.inl hlive'
        · rcases hfate n _ hmet with ⟨heard, hlive'⟩ | ⟨⟨s, hended⟩, hdone⟩ | hstopped
          · obtain rfl := Option.some.inj (hlive'.flight_eq.symm.trans hf)
            exact Or.inl hlive'
          · obtain rfl := Option.some.inj (hended.flight_eq.symm.trans hf)
            exact Or.inr ⟨hended.closed, fun hn => absurd hn hdone⟩
          · obtain rfl := Option.some.inj (hstopped.flight_eq.symm.trans hf)
            exact Or.inr ⟨hstopped.closed, fun _ => hstopped.cancelled⟩
      · have hclosed' := h.closed n _ hclosed
        obtain rfl := Option.some.inj (hclosed'.flight_eq.symm.trans hf)
        exact Or.inr ⟨hclosed', fun hn => h.grows.status _ .cancelled rfl
          (ht.cancelled n _ hclosed (hsub n hlt hn))⟩
    · exact Or.inl (h.new n f hge hf)
  refine ⟨⟨h.sound, fun n f hf => ?_⟩, fun n f hclosed hn => ?_⟩
  · exact (hcases n f hf).imp_right And.left
  · rcases hcases n f hclosed.flight_eq with hlive | ⟨-, hstatus⟩
    · exact absurd hlive (hclosed.not_live f)
    · exact hstatus hn

/-- Of a change on one generation, only what it does to the live flight of
that generation has to be seen. -/
theorem Passes.of_changes {heard : Signal → Prop} (hr : Sound r) (hs : Sound r')
    (hg : Grows r r') (h : Changes id heard r r')
    (hlive : ∀ n f, Live r n f → f.generation = id → Live r' n f ∨ fate n f) :
    Passes r r' fate where
  sound := hs
  grows := hg
  live := fun n f hf => by
    by_cases hid : f.generation = id
    · exact hlive n f hf hid
    · exact Or.inl ((h.apart hr (Ne.symm hid)).live hf)
  closed := fun n f hf => (h.spares hf hr).closed hf
  new := fun n f hn hf => by
    rw [← Edits.length_eq h] at hn
    simp [List.getElem?_eq_none hn] at hf

/-! ## Calls -/

/-- Storing a record of a generation that is not in flight lets live flights
be. -/
theorem Exclusive.set_passes (hr : Exclusive r) {g : Generation} (h : r.set g = .ok r')
    (hfree : r.isInFlight g.id = false) : Passes r r' fun _ _ => False := by
  obtain ⟨hs, hg⟩ := set_sound hr.sound h
  refine .of_changes hr.sound hs hg (changes_set h) fun n f hf hid => ?_
  have hflying := hf.isInFlight
  simp [hid, hfree] at hflying

/-- An accepted start finds its generation free. -/
theorem Exclusive.free_of_begin (hr : Exclusive r) {isStreaming : Bool}
    (h : r.begin id isStreaming now = .ok (r', n)) : r.inFlight.get? id = none := by
  rcases hr.free_or_live id with hfree | ⟨m, f, hf, rfl⟩
  · exact hfree
  · obtain ⟨e, he⟩ := hf.begin isStreaming now
    rw [he] at h
    cases h

/-- A start lets other flights be. The generation had none that was live, since
it was queued. -/
theorem Exclusive.begin_passes (hr : Exclusive r) {isStreaming : Bool}
    (h : r.begin id isStreaming now = .ok (r', n)) : Passes r r' fun _ _ => False := by
  have hfree := hr.free_of_begin h
  obtain ⟨hs, hg, -⟩ := begin_sound hr.sound h
  obtain ⟨-, rfl, hlength, g, hlive⟩ := begin_of_free hfree h
  refine ⟨hs, hg, fun m f hf => ?_, fun m f hf => (spares_begin h hf hr.sound).closed hf,
    fun m f hm hf => ?_⟩
  · have hne : id ≠ f.generation := by
      rintro rfl
      simp [hf.entry_eq] at hfree
    exact Or.inl ((apart_begin h hr.sound hne).live hf)
  · have hlt := (List.getElem?_eq_some_iff.mp hf).1
    obtain rfl : m = r.flights.length := by omega
    obtain rfl := Option.some.inj (hlive.flight_eq.symm.trans hf)
    exact hlive

/-- Text lets a live flight hear of it. -/
theorem Exclusive.delta_passes (hr : Exclusive r) (id : GenerationId) (text : String) :
    Passes r (r.delta id text).1 fun n f =>
      ∃ heard, Live (r.delta id text).1 n { f with heard := f.heard ++ heard } := by
  obtain ⟨hs, hg⟩ : Sound (r.delta id text).1 ∧ Grows r (r.delta id text).1 :=
    delta_sound hr.sound
  refine .of_changes hr.sound hs hg (changes_delta text) fun n f hf hid => ?_
  subst hid
  obtain ⟨heard, -, hlive⟩ := hf.delta text
  exact Or.inr ⟨heard, hlive⟩

/-- A stop resolves the flight of its generation, if that is live. -/
theorem Exclusive.stop_passes (hr : Exclusive r) {wasLive : Bool}
    (h : r.stop id now = .ok (r', wasLive)) :
    Passes r r' fun n f => f.generation = id ∧ Stopped r' n f := by
  obtain ⟨hs, hg⟩ := stop_sound hr.sound h
  refine .of_changes hr.sound hs hg (changes_stop h) fun n f hf hid => ?_
  subst hid
  obtain ⟨r₁, hstop, hstopped⟩ := hf.stop now
  rw [hstop] at h
  cases h
  exact Or.inr ⟨rfl, hstopped⟩

/-- The end of the work of a flight ends this flight, if it is live, and no
other. -/
theorem Tidy.finish_passes (ht : Tidy r pending) (hn : pending n) (htarget : r.target? n = some id)
    (result : WorkResult) (now : Timestamp) :
    Passes r (r.finish id result now).1 fun m f =>
      m = n ∧ ∃ s, Ended (r.finish id result now).1 m f s := by
  obtain ⟨hs, hg⟩ : Sound (r.finish id result now).1 ∧ Grows r (r.finish id result now).1 :=
    finish_sound ht.sound
  refine .of_changes ht.sound hs hg (changes_finish result now) fun m f hf hid => ?_
  subst hid
  obtain ⟨x, hx, hsame⟩ := Option.map_eq_some_iff.mp htarget
  rcases ht.live_or_closed n x hx with hlive | hclosed
  · exact Or.inr ⟨hf.unique hlive hsame.symm, (hf.finish result now).1⟩
  · exact absurd (hsame ▸ ht.cancelled n x hclosed hn) hf.not_cancelled

theorem length_finish (id : GenerationId) (result : WorkResult) (now : Timestamp) :
    (r.finish id result now).1.flights.length = r.flights.length :=
  Edits.length_eq (changes_finish result now)

/-- What a flight heard last stays so while other work ends. -/
theorem Ended.finish {s : Signal} (hr : Sound r) (h : Ended r n f s) (id : GenerationId)
    (result : WorkResult) (now : Timestamp) : Ended (r.finish id result now).1 n f s := by
  by_cases hid : id = f.generation
  · subst hid
    rw [finish_of_free h.entry_eq]
    exact h
  · exact ((changes_finish result now).apart hr hid).ended h

/-- The end of work whose flight is not live has no effect. -/
theorem Tidy.finish_of_not_live (ht : Tidy r pending) (hn : pending n)
    (htarget : r.target? n = some id) (hlive : ∀ f, ¬ Live r n f) (result : WorkResult)
    (now : Timestamp) : r.finish id result now = (r, false) := by
  obtain ⟨x, hx, hsame⟩ := Option.map_eq_some_iff.mp htarget
  rcases ht.live_or_closed n x hx with h | hclosed
  · exact absurd h (hlive x)
  · refine finish_of_free ?_ result now
    rcases ht.free_or_live id with hfree | ⟨m, f, hf, rfl⟩
    · exact hfree
    · exact absurd (hsame ▸ ht.cancelled n x hclosed hn) hf.not_cancelled

end Workflow.Registry
