/-
Workflow.Proofs.Generation.Restriction — what a registry has of one
generation.

* `Registry.only` — the registry without all other generations. Flights are
  numbered anew, by how many starts of the generation came before them.
* `only_set`, `only_begin`, `only_delta`, `only_finish`, `only_stop` — a call
  on the generation does to the restricted registry what it does to the
  whole, with the same answer; and `Apart.only_eq`, a call on another
  generation does nothing to it. So what a generation goes through is a
  matter of the calls on it alone.
* `Registry.startOf?` — flights by a name that does not depend on other
  generations; `Registry.numberOf?` finds the flight of a name.
-/
import Workflow.Proofs.Generation.Flights

namespace Workflow

/-! ## Lists without some of their elements -/

section

variable {α : Type} {p : α → Bool} {xs ys : List α} {x : α} {n m : Nat}

/-- The place that an element has once the others are left out. -/
theorem getElem?_filter_countP (h : xs[n]? = some x) (hx : p x) :
    (xs.filter p)[(xs.take n).countP p]? = some x := by
  induction xs generalizing n with
  | nil => cases h
  | cons y rest ih =>
    cases n with
    | zero =>
      obtain rfl := Option.some.inj h
      simp [hx]
    | succ n =>
      have hrest := ih h
      rw [List.take_succ_cons, List.countP_cons, List.filter_cons]
      split <;> simpa using hrest

/-- An element that is left, at its old place and with the number of those left
before it. -/
theorem exists_of_lt_length_filter (h : m < (xs.filter p).length) :
    ∃ n x, xs[n]? = some x ∧ p x ∧ (xs.take n).countP p = m := by
  induction xs generalizing m with
  | nil => exact absurd h (Nat.not_lt_zero m)
  | cons y rest ih =>
    by_cases hy : p y
    · cases m with
      | zero => exact ⟨0, y, rfl, hy, rfl⟩
      | succ m =>
        rw [List.filter_cons_of_pos hy, List.length_cons] at h
        obtain ⟨n, x, hn, hx, hcount⟩ := ih (Nat.lt_of_succ_lt_succ h)
        exact ⟨n + 1, x, hn, hx, by rw [List.take_succ_cons, List.countP_cons_of_pos hy, hcount]⟩
    · rw [List.filter_cons_of_neg hy] at h
      obtain ⟨n, x, hn, hx, hcount⟩ := ih h
      exact ⟨n + 1, x, hn, hx, by rw [List.take_succ_cons, List.countP_cons_of_neg hy, hcount]⟩

/-- The number of those left before a place grows behind each of them. -/
theorem countP_take_lt (h : xs[n]? = some x) (hx : p x) (hlt : n < m) :
    (xs.take n).countP p < (xs.take m).countP p := by
  have hn : (xs.take (n + 1)).countP p = (xs.take n).countP p + 1 := by
    rw [List.take_add_one, h, List.countP_append]
    simp [hx]
  have hsublist : (xs.take (n + 1)).Sublist (xs.take m) := List.take_sublist_take_left hlt
  have := hsublist.countP_le (p := p)
  omega

/-- Lists that have the same elements of a kind at the same places. -/
theorem filter_congr_places (h : ∀ (n : Nat) x, p x → (xs[n]? = some x ↔ ys[n]? = some x)) :
    xs.filter p = ys.filter p := by
  induction xs generalizing ys with
  | nil =>
    refine (List.filter_eq_nil_iff.mpr fun y hy hp => ?_).symm
    obtain ⟨n, hn⟩ := List.getElem?_of_mem hy
    cases (h n y hp).mpr hn
  | cons x rest ih =>
    cases ys with
    | nil =>
      refine List.filter_eq_nil_iff.mpr fun y hy hp => ?_
      obtain ⟨n, hn⟩ := List.getElem?_of_mem hy
      cases (h n y hp).mp hn
    | cons y others =>
      have hrest : rest.filter p = others.filter p := ih fun n z hz => h (n + 1) z hz
      by_cases hx : p x
      · obtain rfl : y = x := Option.some.inj ((h 0 x hx).mp rfl)
        rw [List.filter_cons_of_pos hx, List.filter_cons_of_pos hx, hrest]
      · have hy : ¬ p y := fun hp => hx (Option.some.inj ((h 0 y hp).mpr rfl) ▸ hp)
        rw [List.filter_cons_of_neg hx, List.filter_cons_of_neg hy, hrest]

/-- Lists that agree wherever the property holds count the same up to any
place. -/
theorem countP_take_congr_places (h : ∀ (n : Nat) x, p x → (xs[n]? = some x ↔ ys[n]? = some x))
    (n : Nat) :
    (xs.take n).countP p = (ys.take n).countP p := by
  rw [List.countP_eq_length_filter, List.countP_eq_length_filter]
  refine congrArg List.length (filter_congr_places fun m x hx => ?_)
  simp only [List.getElem?_take]
  split
  · exact h m x hx
  · exact .rfl

/-- A change of an element that is left, seen in the list of those left. -/
theorem filter_modify {f : α → α} (hf : ∀ x, p (f x) = p x) (h : xs[n]? = some x) (hx : p x) :
    (xs.modify n f).filter p = (xs.filter p).modify ((xs.take n).countP p) f := by
  induction xs generalizing n with
  | nil => cases h
  | cons y rest ih =>
    cases n with
    | zero =>
      obtain rfl := Option.some.inj h
      simp [hx, hf]
    | succ n =>
      have hrest := ih h
      rw [List.modify_succ_cons, List.take_succ_cons, List.countP_cons, List.filter_cons,
        List.filter_cons, hrest]
      split <;> simp

end

/-! ## Tables with one key -/

namespace Table

variable {κ α : Type} [DecidableEq κ] (k : κ) (a : α) (o : Option α)

/-- The table of one key, which may have no value. -/
def ofKey : Table κ α := ⟨(o.map (k, ·)).toList⟩

@[simp] theorem get?_ofKey : (ofKey k o).get? k = o := by
  cases o <;> simp [ofKey, get?, lookup]

@[simp] theorem insert_ofKey : (ofKey k o).insert k a = ofKey k (some a) := by
  cases o <;> simp [ofKey, insert, put]

@[simp] theorem erase_ofKey : (ofKey k o).erase k = ofKey k none := by
  cases o <;> simp [ofKey, erase]

end Table

namespace Registry

variable {r r' : Registry} {id key : GenerationId} {n m k : Nat} {now : Timestamp} {f : Flight}

/-! ## The restriction

The restriction keeps one generation and its flights, which are numbered anew
in their order. -/

/-- How many starts of a generation came before a flight. -/
def rank (r : Registry) (id : GenerationId) (n : Nat) : Nat :=
  (r.flights.take n).countP (·.generation = id)

/-- A registry without all generations but one. -/
def only (r : Registry) (id : GenerationId) : Registry where
  records := .ofKey id (r.get? id)
  inFlight := .ofKey id ((r.inFlight.get? id).map (r.rank id))
  flights := r.flights.filter (·.generation = id)

@[simp] theorem get?_only : (r.only id).get? id = r.get? id := Table.get?_ofKey ..

@[simp] theorem inFlight_only :
    (r.only id).inFlight.get? id = (r.inFlight.get? id).map (r.rank id) := Table.get?_ofKey ..

@[simp] theorem isInFlight_only : (r.only id).isInFlight id = r.isInFlight id := by
  simp [isInFlight, Table.contains]

/-- A flight of the generation is found in the restriction at its rank. -/
theorem flights_only (h : r.target? n = some id) :
    (r.only id).flights[r.rank id n]? = r.flights[n]? := by
  obtain ⟨f, hf, hid⟩ := Option.map_eq_some_iff.mp h
  rw [hf]
  exact getElem?_filter_countP hf (by simpa using hid)

/-- The restriction has as many flights as the generation had starts. -/
@[simp] theorem length_flights_only :
    (r.only id).flights.length = r.rank id r.flights.length := by
  rw [rank, List.take_length]
  exact List.countP_eq_length_filter.symm

/-! ## Parts of a call on the generation -/

/-- Storing a record of the generation, before or after the restriction. -/
theorem only_put (g : Generation) : (r.put id g).only id = (r.only id).put id g := by
  have hrank : (r.put id g).rank id = r.rank id := rfl
  simp only [only, hrank, get?_put, inFlight_put, flights_put, if_true]
  simp only [put, Table.insert_ofKey]

theorem only_land : (r.land id).only id = (r.only id).land id := by
  simp [only, land, get?, Table.get?_erase]

/-- Only the generations of earlier flights matter. -/
theorem rank_congr (h : ∀ m < n, r'.target? m = r.target? m) : r'.rank id n = r.rank id n := by
  have hmap (xs : List Flight) : xs.countP (·.generation = id) =
      (xs.map (·.generation)).countP (· = id) := by
    rw [List.countP_map]
    rfl
  rw [rank, rank, hmap, hmap, List.map_take, List.map_take]
  refine congrArg _ (List.ext_getElem? fun m => ?_)
  simp only [List.getElem?_take, List.getElem?_map]
  split
  · rename_i hm
    exact h m hm
  · rfl

theorem rank_modify {change : Flight → Flight}
    (hchange : ∀ x, (change x).generation = x.generation) :
    rank { r with flights := r.flights.modify n change } id m = r.rank id m :=
  rank_congr fun _ _ => target?_modify hchange

/-- A change of one flight of the generation is a change of the flight of the
same rank in the restriction. What flights hear, and their being closed or
cancelled, are cases of it. -/
theorem only_modify {change : Flight → Flight} (h : r.target? n = some id)
    (hchange : ∀ x, (change x).generation = x.generation) :
    only { r with flights := r.flights.modify n change } id =
      { r.only id with flights := (r.only id).flights.modify (r.rank id n) change } := by
  obtain ⟨f, hf, hid⟩ := Option.map_eq_some_iff.mp h
  have hflights : (r.flights.modify n change).filter (·.generation = id) =
      (r.only id).flights.modify (r.rank id n) change :=
    filter_modify (fun x => by rw [hchange]) hf (by simpa using hid)
  have hrank : rank { r with flights := r.flights.modify n change } id = r.rank id :=
    funext fun _ => rank_modify hchange
  rw [only, hrank, hflights]
  rfl

theorem only_close (h : r.target? n = some id) :
    (r.close n).only id = (r.only id).close (r.rank id n) :=
  only_modify h fun _ => rfl

theorem only_hear (h : r.target? n = some id) (s : Signal) :
    (r.hear n s).only id = (r.only id).hear (r.rank id n) s :=
  only_modify h fun _ => rfl

theorem only_cancelFlight (h : r.target? n = some id) :
    (r.cancelFlight n).only id = (r.only id).cancelFlight (r.rank id n) :=
  only_modify h fun _ => rfl

theorem only_close_land (h : r.target? n = some id) :
    ((r.land id).close n).only id = ((r.only id).land id).close (r.rank id n) := by
  rw [only_close (r := r.land id) h, only_land]
  rfl

/-- The second part of an end, at the flight of the same rank. -/
theorem only_deliver (h : r.target? n = some id) (s : Signal) :
    (r.deliver ⟨n, s⟩).only id = (r.only id).deliver ⟨r.rank id n, s⟩ := by
  have hrank : (r.hear n s).rank id n = r.rank id n := rank_modify fun _ => rfl
  rw [deliver, only_close (target?_hear.trans h), only_hear h, hrank]
  rfl

/-- The entry of the generation leads to a flight of its own. -/
theorem only_forget (h : ∀ n, r.inFlight.get? id = some n → r.target? n = some id) :
    (r.forget id).only id = (r.only id).forget id := by
  unfold Registry.forget
  rw [inFlight_only]
  cases hn : r.inFlight.get? id with
  | none => rfl
  | some n => exact only_close_land (h n hn)

/-- Forgetting a flight does not renumber any. -/
theorem rank_forget : (r.forget key).rank id n = r.rank id n := by
  unfold Registry.forget
  split
  · rfl
  · exact rank_modify fun _ => rfl

/-- A launch in the registry is one in the restriction, and its flight has the
next rank. -/
theorem only_launch (g : Generation) (isStreaming : Bool) :
    (r.launch id g isStreaming).1.only id = ((r.only id).launch id g isStreaming).1 ∧
      (r.launch id g isStreaming).1.rank id r.flights.length =
        ((r.only id).launch id g isStreaming).2 := by
  have hrank : (r.launch id g isStreaming).1.rank id r.flights.length =
      (r.only id).flights.length := by
    simp [rank, launch]
  have hrecord : (r.launch id g isStreaming).1.get? id = r.get? id := rfl
  have hentry : (r.launch id g isStreaming).1.inFlight.get? id = some r.flights.length := by
    simp [launch]
  have hflights : (r.launch id g isStreaming).1.flights =
      r.flights ++ [⟨id, g, isStreaming, false, [], true⟩] := rfl
  refine ⟨?_, hrank⟩
  rw [only, hrecord, hentry, hflights, List.filter_append, Option.map_some, hrank]
  simp [only, launch]

/-! ## Calls on the generation -/

/-- A record that may be stored may be stored in the restriction, and the other
way round. -/
theorem only_set (g : Generation) :
    (r.set g).map (·.only g.id) = (r.only g.id).set g := by
  unfold Registry.set
  rw [get?_only]
  cases r.get? g.id with
  | none => exact congrArg Except.ok (only_put g)
  | some old =>
    simp only
    split
    · rfl
    · exact congrArg Except.ok (only_put g)

/-- The restriction accepts the same starts, with the same answers up to
ranks. -/
theorem only_begin (hs : Sound r) (isStreaming : Bool) (now : Timestamp) :
    ((r.begin id isStreaming now).map fun started =>
      (started.1.only id, started.1.rank id started.2)) =
      (r.only id).begin id isStreaming now := by
  unfold Registry.begin
  rw [get?_only]
  cases r.get? id with
  | none => rfl
  | some record =>
    simp only
    cases record.start now with
    | error e => rfl
    | ok running =>
      have hforget : ((r.put id running).forget id).only id =
          ((r.only id).put id running).forget id := by
        rw [only_forget (r := r.put id running) fun n hn => hs.inFlight_target id n hn, only_put]
      obtain ⟨hlaunch, hnumber⟩ :=
        only_launch (r := (r.put id running).forget id) running isStreaming
      rw [hforget] at hlaunch hnumber
      exact congrArg Except.ok (Prod.ext hlaunch hnumber)

theorem isStreaming_only (h : r.target? n = some id) :
    (r.only id).isStreaming (r.rank id n) = r.isStreaming n := by
  rw [Registry.isStreaming, Registry.isStreaming, flights_only h]

/-- The restriction discards the same texts. -/
theorem only_delta (hs : Sound r) (id : GenerationId) (text : String) :
    ((r.delta id text).1.only id, (r.delta id text).2) = (r.only id).delta id text := by
  unfold Registry.delta
  rw [inFlight_only]
  cases hn : r.inFlight.get? id with
  | none => rfl
  | some n =>
    have htarget := hs.inFlight_target id n hn
    simp only [Option.map_some, isStreaming_only htarget]
    split
    · rw [only_hear htarget]
    · rfl

/-- The restriction resolves the same ends. -/
theorem only_finish (hs : Sound r) (id : GenerationId) (result : WorkResult) (now : Timestamp) :
    ((r.finish id result now).1.only id, (r.finish id result now).2) =
      (r.only id).finish id result now := by
  unfold Registry.finish Registry.resolve
  rw [inFlight_only, get?_only]
  cases hn : r.inFlight.get? id with
  | none => rfl
  | some n =>
    have htarget := hs.inFlight_target id n hn
    cases r.get? id with
    | none => exact congrArg (·, false) (only_close_land htarget)
    | some record =>
      simp only [Option.map_some, isStreaming_only htarget]
      cases settle record (r.isStreaming n) result now with
      | error e => exact congrArg (·, false) (only_close_land htarget)
      | ok settled =>
        obtain ⟨final, s⟩ := settled
        have hfinal : (final.elim r (r.put id)).only id =
            final.elim (r.only id) ((r.only id).put id) := by
          cases final with
          | none => rfl
          | some g => exact only_put g
        have hflights : (final.elim r (r.put id)).flights = r.flights := by cases final <;> rfl
        -- the parts of an end renumber no flight
        have hrank : ((final.elim r (r.put id)).land id).rank id n = r.rank id n := by
          rw [rank, flights_land, hflights, rank]
        have hresolved : ((final.elim r (r.put id)).land id).target? n = some id := by
          rwa [target?, flights_land, hflights]
        refine congrArg (·, true) ?_
        rw [only_deliver hresolved, only_land, hfinal, hrank]

/-- The restriction answers a stop the same way. -/
theorem only_stop (hs : Sound r) (now : Timestamp) :
    ((r.stop id now).map fun stopped => (stopped.1.only id, stopped.2)) =
      (r.only id).stop id now := by
  unfold Registry.stop
  rw [get?_only, inFlight_only, isInFlight_only]
  cases r.get? id with
  | none => rfl
  | some record =>
    simp only
    split
    · rfl
    · cases record.cancel now with
      | error e => rfl
      | ok cancelled =>
        cases hn : r.inFlight.get? id with
        | none => exact congrArg Except.ok (congrArg (·, true) (only_put cancelled))
        | some n =>
          have htarget := hs.inFlight_target id n hn
          have hforgotten : ((r.put id cancelled).forget id).target? n = some id :=
            grows_forget.target n id htarget
          refine congrArg Except.ok (congrArg (·, true) ?_)
          rw [only_cancelFlight hforgotten, rank_forget,
            only_forget (r := r.put id cancelled) fun n hn => hs.inFlight_target id n hn, only_put]
          rfl

/-! ## Calls on other generations -/

/-- What other generations go through is left out. -/
theorem Apart.only_eq (h : Apart id r r') : r'.only id = r.only id := by
  have hplaces : ∀ (n : Nat) (f : Flight), decide (f.generation = id) = true →
      (r'.flights[n]? = some f ↔ r.flights[n]? = some f) :=
    fun n f hf => h.flight_iff n f (of_decide_eq_true hf)
  have hrank : r'.rank id = r.rank id := funext (countP_take_congr_places hplaces)
  rw [only, h.record_eq, h.entry_eq, hrank, filter_congr_places hplaces]
  rfl

/-! ## Flights by name

The number of a flight depends on what others have started. Its generation and
its rank among the flights of this do not. -/

/-- A start of a generation, with the number of starts before it. -/
abbrev Start := GenerationId × Nat

/-- Which start a flight is. -/
def startOf? (r : Registry) (n : Nat) : Option Start :=
  (r.target? n).map fun id => (id, r.rank id n)

/-- The flight of a start. -/
def numberOf? (r : Registry) (a : Start) : Option Nat :=
  (List.range r.flights.length).find? (r.startOf? · = some a)

variable {a : Start}

/-- A flight is a start of its generation, by its rank. -/
theorem startOf?_eq_some : r.startOf? n = some a ↔ r.target? n = some a.1 ∧ r.rank a.1 n = a.2 := by
  simp only [startOf?, Option.map_eq_some_iff, Prod.ext_iff]
  constructor
  · rintro ⟨id, hid, rfl, hrank⟩
    exact ⟨hid, hrank⟩
  · rintro ⟨hid, hrank⟩
    exact ⟨a.1, hid, rfl, hrank⟩

theorem startOf?_isSome (h : n < r.flights.length) : ∃ a, r.startOf? n = some a := by
  rw [startOf?, target?, List.getElem?_eq_getElem h]
  exact ⟨_, rfl⟩

theorem lt_of_startOf? (h : r.startOf? n = some a) : n < r.flights.length := by
  obtain ⟨f, hf, -⟩ := Option.map_eq_some_iff.mp (startOf?_eq_some.mp h).1
  exact (List.getElem?_eq_some_iff.mp hf).1

/-- What is heard of a flight can be seen in the restriction. -/
theorem flights_startOf? (h : r.startOf? n = some a) :
    r.flights[n]? = (r.only a.1).flights[a.2]? := by
  obtain ⟨htarget, hrank⟩ := startOf?_eq_some.mp h
  rw [← flights_only htarget, hrank]

/-- The ranks of a generation's flights grow with the flights. -/
theorem rank_lt_of_target? (h : r.target? n = some id) (hlt : n < m) :
    r.rank id n < r.rank id m := by
  obtain ⟨f, hf, hid⟩ := Option.map_eq_some_iff.mp h
  exact countP_take_lt hf (by simpa using hid) hlt

/-- No two flights have one name. -/
theorem startOf?_inj (hn : r.startOf? n = some a) (hm : r.startOf? m = some a) : n = m := by
  obtain ⟨hn, hrank⟩ := startOf?_eq_some.mp hn
  obtain ⟨hm, hrank'⟩ := startOf?_eq_some.mp hm
  rcases Nat.lt_trichotomy n m with hlt | heq | hlt
  · have := rank_lt_of_target? hn hlt
    omega
  · exact heq
  · have := rank_lt_of_target? hm hlt
    omega

/-- Every start that the restriction has is one of a flight. -/
theorem exists_startOf? (h : a.2 < (r.only a.1).flights.length) : ∃ n, r.startOf? n = some a := by
  obtain ⟨n, f, hf, hid, hrank⟩ := exists_of_lt_length_filter h
  refine ⟨n, startOf?_eq_some.mpr ⟨?_, hrank⟩⟩
  rw [target?_of_flight hf]
  exact congrArg some (of_decide_eq_true hid)

/-- Looking for the flight of a start finds it, since no two flights are the
same start. -/
theorem numberOf?_eq_some : r.numberOf? a = some n ↔ r.startOf? n = some a := by
  rw [numberOf?, List.find?_range_eq_some]
  constructor
  · rintro ⟨hn, -⟩
    exact of_decide_eq_true hn
  · intro h
    refine ⟨decide_eq_true h, List.mem_range.mpr (lt_of_startOf? h), fun m hm => ?_⟩
    refine Bool.not_eq_true' _ ▸ decide_eq_false fun heq => ?_
    exact Nat.ne_of_lt hm (startOf?_inj heq h)

/-- The ranks of flights do not change as the registry goes on. -/
theorem Grows.rank_eq (h : Grows r r') (hn : n ≤ r.flights.length) :
    r'.rank id n = r.rank id n := by
  refine rank_congr fun m hm => ?_
  have htarget : r.target? m = some r.flights[m].generation := by
    simp [target?, Nat.lt_of_lt_of_le hm hn]
  rw [htarget]
  exact h.target m _ htarget

/-- Names last. -/
theorem Grows.startOf? (h : Grows r r') (hn : r.startOf? n = some a) : r'.startOf? n = some a := by
  obtain ⟨htarget, hrank⟩ := startOf?_eq_some.mp hn
  exact startOf?_eq_some.mpr
    ⟨h.target n a.1 htarget, (h.rank_eq (Nat.le_of_lt (lt_of_startOf? hn))).trans hrank⟩

/-- A new start comes after all others of its generation. -/
theorem rank_begin (hs : Sound r) {isStreaming : Bool}
    (h : r.begin id isStreaming now = .ok (r', n)) : r'.rank id n = (r.only id).flights.length := by
  obtain ⟨r₁, g, hchanges, hlaunch⟩ := changes_begin h
  have hn : n = r.flights.length :=
    (congrArg Prod.snd hlaunch).symm.trans (Edits.length_eq hchanges)
  rw [hn, length_flights_only]
  exact (begin_sound hs h).2.1.rank_eq (Nat.le_refl _)

/-- A generation never has fewer starts. -/
theorem Grows.length_only (h : Grows r r') :
    (r.only id).flights.length ≤ (r'.only id).flights.length := by
  have hlength : r.flights.length ≤ r'.flights.length := by
    refine Nat.le_of_not_lt fun hlt => ?_
    exact absurd (h.lt hlt) (Nat.lt_irrefl _)
  rw [length_flights_only, length_flights_only, ← h.rank_eq (Nat.le_refl _)]
  exact (List.take_sublist_take_left hlength).countP_le

end Registry

end Workflow
