/-
Workflow.Proofs.Executor.Alike — an executor with and without the starts of
somebody else.

`Foreign` says which starts those are: all that somebody makes from a given
time on, of certain generations. Two executors are `Alike` if they show the
same of all other generations and have the same tickets, in the same order,
but for tickets of foreign starts, which only the first one has.

* `Alike.set`, `Alike.start`, `Alike.stop` — a call on another generation,
  made on both, is answered alike and leaves them alike; `Alike.left` and
  `Alike.start_left` — a call on a foreign generation, made on the first one
  alone, leaves them alike as well.
* `Alike.errand`, `Alike.errand_left` — the same for what is done by those
  who do the work. They name their work by its start (`Errand`), as its
  number depends on how many others there are.
-/
import Workflow.Proofs.Executor.Effect
import Workflow.Proofs.Generation.Restriction

namespace Workflow

/-! ## Calls with the same answer -/

/-- Both calls are refused for the same reason, or both are accepted with
results that go together. -/
inductive Both {ε α β : Type} (P : α → β → Prop) : Except ε α → Except ε β → Prop
  | error (e : ε) : Both P (.error e) (.error e)
  | ok {a : α} {b : β} (h : P a b) : Both P (.ok a) (.ok b)

namespace Both

variable {ε α β α' β' : Type} {P : α → β → Prop} {Q : α' → β' → Prop} {x : Except ε α}
  {y : Except ε β}

/-- What is done to both results keeps them together. -/
theorem map (h : Both P x y) {f : α → α'} {g : β → β'} (hfg : ∀ a b, P a b → Q (f a) (g b)) :
    Both Q (x.map f) (y.map g) := by
  cases h with
  | error e => exact .error e
  | ok h => exact .ok (hfg _ _ h)

theorem imp {Q : α → β → Prop} (h : Both P x y) (hPQ : ∀ a b, P a b → Q a b) : Both Q x y := by
  cases h with
  | error e => exact .error e
  | ok h => exact .ok (hPQ _ _ h)

theorem bind (h : Both P x y) {f : α → Except ε α'} {g : β → Except ε β'}
    (hfg : ∀ a b, P a b → Both Q (f a) (g b)) : Both Q (x >>= f) (y >>= g) := by
  cases h with
  | error e => exact .error e
  | ok h => exact hfg _ _ h

/-- Calls that show the same go together. -/
theorem of_map_eq {ε α β γ : Type} {f : α → γ} {g : β → γ} {x : Except ε α} {y : Except ε β}
    (h : x.map f = y.map g) : Both (fun a b => x = .ok a ∧ y = .ok b ∧ f a = g b) x y := by
  cases x with
  | error e =>
    cases y with
    | error e' =>
      cases h
      exact .error e
    | ok b => cases h
  | ok a =>
    cases y with
    | error e => cases h
    | ok b => exact .ok ⟨rfl, rfl, Except.ok.inj h⟩

end Both

namespace Executor

open Registry

/-! ## Starts of somebody else -/

/-- Somebody else, who may start certain generations from a given time on. -/
structure Foreign where
  generations : List GenerationId
  before : Registry

/-- Whether somebody else made a start. -/
def Foreign.IsStart (o : Foreign) (a : Start) : Prop :=
  a.1 ∈ o.generations ∧ (o.before.only a.1).flights.length ≤ a.2

instance (o : Foreign) (a : Start) : Decidable (o.IsStart a) :=
  inferInstanceAs (Decidable (_ ∧ _))

/-- Tickets of the same starts in the same order, but for those of foreign
starts on the left. -/
inductive Tickets (o : Foreign) (r s : Registry) : List Nat → List Nat → Prop
  | nil : Tickets o r s [] []
  | foreign {a n ts us} (ha : o.IsStart a) (hn : r.startOf? n = some a) (h : Tickets o r s ts us) :
    Tickets o r s (n :: ts) us
  | shared {a n m ts us} (ha : ¬ o.IsStart a) (hn : r.startOf? n = some a)
    (hm : s.startOf? m = some a) (h : Tickets o r s ts us) : Tickets o r s (n :: ts) (m :: us)

variable {o : Foreign} {r r' s s' : Registry} {ts ts' us us' : List Nat} {n m : Nat} {a : Start}

namespace Tickets

/-- Starts keep their names as registries go on, so tickets keep theirs. -/
theorem grows (h : Tickets o r s ts us) (hr : r.Grows r') (hs : s.Grows s') :
    Tickets o r' s' ts us := by
  induction h with
  | nil => exact .nil
  | foreign ha hn _ ih => exact .foreign ha (hr.startOf? hn) ih
  | shared ha hn hm _ ih => exact .shared ha (hr.startOf? hn) (hs.startOf? hm) ih

/-- Tickets that come after go behind. -/
theorem append (h : Tickets o r s ts us) (h' : Tickets o r s ts' us') :
    Tickets o r s (ts ++ ts') (us ++ us') := by
  induction h with
  | nil => exact h'
  | foreign ha hn _ ih => exact .foreign ha hn ih
  | shared ha hn hm _ ih => exact .shared ha hn hm ih

/-- A ticket that both have is used up. -/
theorem erase (h : Tickets o r s ts us) (ha : ¬ o.IsStart a) (hn : r.startOf? n = some a)
    (hm : s.startOf? m = some a) : Tickets o r s (ts.erase n) (us.erase m) := by
  induction h with
  | nil => exact .nil
  | @foreign b i ts us hb hi h ih =>
    have hne : i ≠ n := by
      rintro rfl
      exact ha (Option.some.inj (hi.symm.trans hn) ▸ hb)
    rw [List.erase_cons_tail (by simpa using hne)]
    exact .foreign hb hi ih
  | @shared b i j ts us hb hi hj h ih =>
    by_cases hin : i = n
    · subst hin
      obtain rfl := Option.some.inj (hi.symm.trans hn)
      obtain rfl := startOf?_inj hj hm
      rwa [List.erase_cons_head, List.erase_cons_head]
    · have hjm : j ≠ m := by
        rintro rfl
        obtain rfl := Option.some.inj (hj.symm.trans hm)
        exact hin (startOf?_inj hi hn)
      rw [List.erase_cons_tail (by simpa using hin), List.erase_cons_tail (by simpa using hjm)]
      exact .shared hb hi hj ih

/-- A foreign ticket that is used up is missed on the left only. -/
theorem erase_foreign (h : Tickets o r s ts us) (ha : o.IsStart a) (hn : r.startOf? n = some a) :
    Tickets o r s (ts.erase n) us := by
  induction h with
  | nil => exact .nil
  | @foreign b i ts us hb hi h ih =>
    by_cases hin : i = n
    · subst hin
      rwa [List.erase_cons_head]
    · rw [List.erase_cons_tail (by simpa using hin)]
      exact .foreign hb hi ih
  | @shared b i j ts us hb hi hj h ih =>
    have hne : i ≠ n := by
      rintro rfl
      exact hb (Option.some.inj (hi.symm.trans hn) ▸ ha)
    rw [List.erase_cons_tail (by simpa using hne)]
    exact .shared hb hi hj ih

/-- A ticket of a shared start is there on both sides or on none. -/
theorem mem_iff (h : Tickets o r s ts us) (ha : ¬ o.IsStart a) (hn : r.startOf? n = some a)
    (hm : s.startOf? m = some a) : n ∈ ts ↔ m ∈ us := by
  induction h with
  | nil => simp
  | @foreign b i ts us hb hi h ih =>
    have hne : n ≠ i := by
      rintro rfl
      exact ha (Option.some.inj (hi.symm.trans hn) ▸ hb)
    simp [hne, ih]
  | @shared b i j ts us hb hi hj h ih =>
    have heq : n = i ↔ m = j := by
      constructor
      · rintro rfl
        obtain rfl := Option.some.inj (hi.symm.trans hn)
        exact startOf?_inj hm hj
      · rintro rfl
        obtain rfl := Option.some.inj (hj.symm.trans hm)
        exact startOf?_inj hn hi
    simp [heq, ih]

end Tickets

/-! ## The relation

Two executors are alike, as seen from a set of generations that others work
on, if all other generations have the same records and flights, and their
tickets wait in the same order. -/

/-- Relays with the same two sides, and the same tickets up to foreign ones. -/
structure RelayAlike (o : Foreign) (r s : Registry) (a b : Relay) : Prop where
  drivers_eq : a.drivers = b.drivers
  isOwned_eq : a.isOwned = b.isOwned
  /-- The tickets of others may stand anywhere between them. -/
  waiting : Tickets o r s a.waiting b.waiting
  held : Tickets o r s a.held b.held

/-- Staffs of the same kind. -/
inductive StaffAlike (o : Foreign) (r s : Registry) : Staff → Staff → Prop
  | workers (operations : List Operation) :
    StaffAlike o r s (.workers operations) (.workers operations)
  | relay {a b : Relay} (h : RelayAlike o r s a b) : StaffAlike o r s (.relay a) (.relay b)

namespace StaffAlike

variable {c d : Staff}

theorem grows (h : StaffAlike o r s c d) (hr : r.Grows r') (hs : s.Grows s') :
    StaffAlike o r' s' c d := by
  cases h with
  | workers operations => exact .workers operations
  | relay h =>
    exact .relay ⟨h.drivers_eq, h.isOwned_eq, h.waiting.grows hr hs, h.held.grows hr hs⟩

/-- A new ticket for both. -/
theorem assign (h : StaffAlike o r s c d) (ha : ¬ o.IsStart a) (hn : r.startOf? n = some a)
    (hm : s.startOf? m = some a) : StaffAlike o r s (assign n c) (assign m d) := by
  cases h with
  | workers operations => exact .workers operations
  | relay h =>
    exact .relay { h with waiting := h.waiting.append (.shared ha hn hm .nil) }

/-- A foreign start is assigned on the left only. -/
theorem assign_foreign (h : StaffAlike o r s c d) (ha : o.IsStart a) (hn : r.startOf? n = some a) :
    StaffAlike o r s (Executor.assign n c) d := by
  cases h with
  | workers operations => exact .workers operations
  | @relay c d h =>
    have hwaiting := h.waiting.append (.foreign ha hn .nil)
    rw [List.append_nil] at hwaiting
    exact .relay { h with waiting := hwaiting }

end StaffAlike

/-- The right executor lacks the foreign starts, and only those. -/
structure Alike (o : Foreign) (x y : Executor) : Prop where
  left_sound : x.registry.Sound
  right_sound : y.registry.Sound
  /-- What had ended before the others began has ended still. -/
  left_grows : o.before.Grows x.registry
  right_grows : o.before.Grows y.registry
  /-- All other generations have the same record and the same flights. -/
  only_eq : ∀ id, id ∉ o.generations → x.registry.only id = y.registry.only id
  staff : StaffAlike o x.registry y.registry x.staff y.staff

variable {x x' y : Executor} {id : GenerationId} {now : Timestamp} {isStreaming : Bool}
  {result : WorkResult} {relay : Relay}

/-- What a call on one generation makes of a registry. -/
structure Follows (key : GenerationId) (r r' : Registry) : Prop where
  sound : r'.Sound
  /-- No final status is lost. -/
  grows : r.Grows r'
  /-- All other generations are left alone. -/
  apart : ∀ id, key ≠ id → Apart id r r'

namespace Follows

/-- Each call on a generation makes something of the registry that `Follows`
describes. -/
theorem of_set (hs : r.Sound) {g : Generation} (h : r.set g = .ok r') : Follows g.id r r' :=
  ⟨(Registry.set_sound hs h).1, (Registry.set_sound hs h).2,
    fun _ hne => (changes_set h).apart hs hne⟩

theorem of_begin (hs : r.Sound) (h : r.begin id isStreaming now = .ok (r', n)) : Follows id r r' :=
  ⟨(begin_sound hs h).1, (begin_sound hs h).2.1, fun _ hne => apart_begin h hs hne⟩

theorem of_stop (hs : r.Sound) {wasLive : Bool} (h : r.stop id now = .ok (r', wasLive)) :
    Follows id r r' :=
  ⟨(Registry.stop_sound hs h).1, (Registry.stop_sound hs h).2,
    fun _ hne => (changes_stop h).apart hs hne⟩

theorem of_delta (hs : r.Sound) (text : String) : Follows id r (r.delta id text).1 :=
  ⟨(delta_sound hs).1, (delta_sound hs).2, fun _ hne => (changes_delta text).apart hs hne⟩

theorem of_finish (hs : r.Sound) (result : WorkResult) (now : Timestamp) :
    Follows id r (r.finish id result now).1 :=
  ⟨(finish_sound hs).1, (finish_sound hs).2, fun _ hne => (changes_finish result now).apart hs hne⟩

end Follows

/-- The end of work takes nothing back. -/
theorem finish_grows (hs : x.registry.Sound) (n : Nat) (result : WorkResult) (now : Timestamp) :
    x.registry.Grows (x.finish n result now).1.registry := by
  unfold finish
  split
  · exact .refl _
  · exact (finish_sound hs).2

namespace Alike

theorem get?_eq (h : Alike o x y) (hid : id ∉ o.generations) : x.get? id = y.get? id := by
  rw [Executor.get?, Executor.get?, ← get?_only, h.only_eq id hid, get?_only]

/-- The same flight, by its name, has heard the same. -/
theorem flights_eq (h : Alike o x y) (ha : a.1 ∉ o.generations)
    (hn : x.registry.startOf? n = some a) (hm : y.registry.startOf? m = some a) :
    x.registry.flights[n]? = y.registry.flights[m]? := by
  rw [flights_startOf? hn, flights_startOf? hm, h.only_eq a.1 ha]

/-- What is not foreign was started on both sides. -/
theorem exists_startOf? (h : Alike o x y) (ha : ¬ o.IsStart a)
    (hn : x.registry.startOf? n = some a) : ∃ m, y.registry.startOf? m = some a := by
  refine Registry.exists_startOf? ?_
  by_cases hid : a.1 ∈ o.generations
  · have hbefore : a.2 < (o.before.only a.1).flights.length :=
      Nat.lt_of_not_le fun hle => ha ⟨hid, hle⟩
    exact Nat.lt_of_lt_of_le hbefore h.right_grows.length_only
  · rw [← h.only_eq a.1 hid]
    have hflight := List.getElem?_eq_getElem (lt_of_startOf? hn)
    rw [flights_startOf? hn] at hflight
    exact (List.getElem?_eq_some_iff.mp hflight).1

/-! ### Calls on generations -/

/-- Two calls that do the same to all but foreign generations. -/
theorem change (h : Alike o x y) (hr : r.Sound) (hr' : x.registry.Grows r) (hs : s.Sound)
    (hs' : y.registry.Grows s) (honly : ∀ id, id ∉ o.generations → r.only id = s.only id) :
    Alike o { x with registry := r } { y with registry := s } :=
  ⟨hr, hs, h.left_grows.trans hr', h.right_grows.trans hs', honly, h.staff.grows hr' hs'⟩

/-- A call on one generation, made on both. -/
theorem both (h : Alike o x y) (hr : Follows id x.registry r) (hs : Follows id y.registry s)
    (honly : id ∉ o.generations → r.only id = s.only id) :
    Alike o { x with registry := r } { y with registry := s } := by
  refine h.change hr.sound hr.grows hs.sound hs.grows fun key hkey => ?_
  by_cases hid : id = key
  · exact hid ▸ honly (hid ▸ hkey)
  · rw [(hr.apart key hid).only_eq, (hs.apart key hid).only_eq, h.only_eq key hkey]

/-- A call on a foreign generation, made on the left only. -/
theorem left (h : Alike o x y) (hr : Follows id x.registry r) (hid : id ∈ o.generations) :
    Alike o { x with registry := r } y := by
  refine h.change hr.sound hr.grows h.right_sound (.refl _) fun key hkey => ?_
  have hne : id ≠ key := fun heq => hkey (heq ▸ hid)
  rw [(hr.apart key hne).only_eq, h.only_eq key hkey]

/-- A record that may be stored on one side may be stored on the other. -/
theorem set (h : Alike o x y) {g : Generation} (hg : g.id ∉ o.generations) :
    Both (Alike o) (x.set g) (y.set g) := by
  have hregistry : Both (fun r s => x.registry.set g = .ok r ∧ y.registry.set g = .ok s ∧
      r.only g.id = s.only g.id) (x.registry.set g) (y.registry.set g) :=
    .of_map_eq (by rw [only_set, only_set, h.only_eq g.id hg])
  refine hregistry.map fun r s hrs => ?_
  exact h.both (.of_set h.left_sound hrs.1) (.of_set h.right_sound hrs.2.1) fun _ => hrs.2.2

/-- A stop has the same answer on both sides. -/
theorem stop (h : Alike o x y) (hid : id ∉ o.generations) (now : Timestamp) :
    Both (Alike o) (x.stop id now) (y.stop id now) := by
  have hregistry : Both (fun u v => x.registry.stop id now = .ok u ∧
      y.registry.stop id now = .ok v ∧ (u.1.only id, u.2) = (v.1.only id, v.2))
      (x.registry.stop id now) (y.registry.stop id now) :=
    .of_map_eq (by rw [only_stop h.left_sound, only_stop h.right_sound, h.only_eq id hid])
  refine hregistry.map fun u v huv => ?_
  exact h.both (.of_stop h.left_sound huv.1) (.of_stop h.right_sound huv.2.1)
    fun _ => congrArg Prod.fst huv.2.2

/-- A stop that is of no effect where it is refused. -/
theorem stopped (h : Alike o x y) (hid : id ∉ o.generations) (now : Timestamp) :
    let x' := (x.stop id now).toOption.getD x
    let y' := (y.stop id now).toOption.getD y
    Alike o x' y' ∧ x.registry.Grows x'.registry ∧ y.registry.Grows y'.registry := by
  have hstop := h.stop hid now
  cases hx : x.stop id now with
  | error e =>
    cases hy : y.stop id now with
    | error e' => exact ⟨h, .refl _, .refl _⟩
    | ok y' =>
      rw [hx, hy] at hstop
      cases hstop
  | ok x' =>
    cases hy : y.stop id now with
    | error e =>
      rw [hx, hy] at hstop
      cases hstop
    | ok y' =>
      rw [hx, hy] at hstop
      cases hstop with
      | ok halike =>
        exact ⟨halike, (stop_sound h.left_sound hx).2, (stop_sound h.right_sound hy).2⟩

/-- Both staffs take on the same starts. -/
theorem checkStaff_eq (h : Alike o x y) (hid : id ∉ o.generations) :
    x.checkStaff id = y.checkStaff id := by
  have hget := h.get?_eq hid
  obtain ⟨r, c⟩ := x
  obtain ⟨s, d⟩ := y
  unfold checkStaff
  cases h.staff with
  | workers operations => simp only [hget]
  | relay hrelay => simp only [hrelay.drivers_eq, hrelay.isOwned_eq]

/-- An accepted start has the same name on both sides. -/
theorem start (h : Alike o x y) (hid : id ∉ o.generations) (isStreaming : Bool) (now : Timestamp) :
    Both (fun u v => Alike o u.1 v.1 ∧ ∃ k, u.1.registry.startOf? u.2 = some (id, k) ∧
        v.1.registry.startOf? v.2 = some (id, k))
      (x.start id isStreaming now) (y.start id isStreaming now) := by
  have hregistry : Both (fun u v => x.registry.begin id isStreaming now = .ok u ∧
      y.registry.begin id isStreaming now = .ok v ∧
        (u.1.only id, u.1.rank id u.2) = (v.1.only id, v.1.rank id v.2))
      (x.registry.begin id isStreaming now) (y.registry.begin id isStreaming now) :=
    .of_map_eq (by rw [only_begin h.left_sound, only_begin h.right_sound, h.only_eq id hid])
  rw [Executor.start, Executor.start, h.checkStaff_eq hid]
  cases y.checkStaff id with
  | error e => exact .error e
  | ok _ =>
    refine hregistry.bind fun u v huv => .ok ?_
    obtain ⟨hu, hv, heq⟩ := huv
    have hn : u.1.startOf? u.2 = some (id, u.1.rank id u.2) :=
      startOf?_eq_some.mpr ⟨(begin_sound h.left_sound hu).2.2, rfl⟩
    have hm : v.1.startOf? v.2 = some (id, u.1.rank id u.2) :=
      startOf?_eq_some.mpr ⟨(begin_sound h.right_sound hv).2.2, (congrArg Prod.snd heq).symm⟩
    have hboth := h.both (.of_begin h.left_sound hu) (.of_begin h.right_sound hv)
      fun _ => congrArg Prod.fst heq
    have hown : ¬ o.IsStart (id, u.1.rank id u.2) := fun hforeign => hid hforeign.1
    exact ⟨{ hboth with staff := hboth.staff.assign hown hn hm }, _, hn, hm⟩

/-- A foreign record is stored on the left, and the right does not see it. -/
theorem set_left (h : Alike o x y) {g : Generation} (hg : g.id ∈ o.generations)
    (hset : x.set g = .ok x') : Alike o x' y := by
  obtain ⟨r, hr, rfl⟩ := set_eq hset
  exact h.left (.of_set h.left_sound hr) hg

theorem stop_left (h : Alike o x y) (hid : id ∈ o.generations) (hstop : x.stop id now = .ok x') :
    Alike o x' y := by
  obtain ⟨r, wasLive, hr, rfl⟩ := stop_eq hstop
  exact h.left (.of_stop h.left_sound hr) hid

/-- A start that only the left one has is foreign, as it is new. -/
theorem start_left (h : Alike o x y) (hid : id ∈ o.generations)
    (hstart : x.start id isStreaming now = .ok (x', n)) : Alike o x' y := by
  obtain ⟨r, hr, rfl⟩ := start_eq hstart
  have hn : r.startOf? n = some (id, r.rank id n) :=
    startOf?_eq_some.mpr ⟨(begin_sound h.left_sound hr).2.2, rfl⟩
  have hforeign : o.IsStart (id, r.rank id n) :=
    ⟨hid, rank_begin h.left_sound hr ▸ h.left_grows.length_only⟩
  have hleft := h.left (.of_begin h.left_sound hr) hid
  exact { hleft with staff := hleft.staff.assign_foreign hforeign hn }

/-! ### The work -/

/-- The end of the work of a flight is the end for its generation. -/
theorem finish_eq (n : Nat) (hn : x.registry.target? n = some id) (result : WorkResult)
    (now : Timestamp) : x.finish n result now =
      ({ x with registry := (x.registry.finish id result now).1 },
        (x.registry.finish id result now).2) := by
  rw [finish, show x.target? n = some id from hn]

/-- Work of the same start ends on both sides. -/
theorem finish (h : Alike o x y) (hn : x.registry.startOf? n = some a)
    (hm : y.registry.startOf? m = some a) (result : WorkResult) (now : Timestamp) :
    Alike o (x.finish n result now).1 (y.finish m result now).1 := by
  rw [finish_eq n (startOf?_eq_some.mp hn).1, finish_eq m (startOf?_eq_some.mp hm).1]
  refine h.both (.of_finish h.left_sound result now) (.of_finish h.right_sound result now)
    fun ha => ?_
  have heq := only_finish h.left_sound a.1 result now
  rw [h.only_eq a.1 ha, ← only_finish h.right_sound a.1 result now] at heq
  exact congrArg Prod.fst heq

theorem finish_left (h : Alike o x y) (hn : x.registry.startOf? n = some a)
    (ha : a.1 ∈ o.generations) (result : WorkResult) (now : Timestamp) :
    Alike o (x.finish n result now).1 y := by
  rw [finish_eq n (startOf?_eq_some.mp hn).1]
  exact h.left (.of_finish h.left_sound result now) ha

/-- Text from the same start reaches both sides or none. -/
theorem delta (h : Alike o x y) (hn : x.registry.startOf? n = some a)
    (hm : y.registry.startOf? m = some a) (text : String) :
    Alike o (x.delta n text).1 (y.delta m text).1 := by
  rw [Executor.delta, Executor.delta,
    show x.target? n = some a.1 from (startOf?_eq_some.mp hn).1,
    show y.target? m = some a.1 from (startOf?_eq_some.mp hm).1]
  refine h.both (.of_delta h.left_sound text) (.of_delta h.right_sound text) fun ha => ?_
  have heq := only_delta h.left_sound a.1 text
  rw [h.only_eq a.1 ha, ← only_delta h.right_sound a.1 text] at heq
  exact congrArg Prod.fst heq

/-- Text from a foreign start is heard on the left only. -/
theorem delta_left (h : Alike o x y) (hn : x.registry.startOf? n = some a)
    (ha : a.1 ∈ o.generations) (text : String) : Alike o (x.delta n text).1 y := by
  rw [Executor.delta, show x.target? n = some a.1 from (startOf?_eq_some.mp hn).1]
  exact h.left (.of_delta h.left_sound text) ha

/-! ### Relays -/

/-- The relays of both change. -/
theorem withRelay (h : Alike o x y) {f g : Relay → Relay}
    (hfg : ∀ c d, RelayAlike o x.registry y.registry c d →
      RelayAlike o x.registry y.registry (f c) (g d)) :
    Alike o (x.withRelay f) (y.withRelay g) := by
  obtain ⟨r, c⟩ := x
  obtain ⟨s, d⟩ := y
  have hstaff := h.staff
  cases hstaff with
  | workers operations => exact h
  | relay hrelay => exact { h with staff := .relay (hfg _ _ hrelay) }

/-- A change of the left relay that only touches foreign tickets. -/
theorem withRelay_left (h : Alike o x y) {f : Relay → Relay}
    (hf : ∀ c d, RelayAlike o x.registry y.registry c d →
      RelayAlike o x.registry y.registry (f c) d) : Alike o (x.withRelay f) y := by
  obtain ⟨r, c⟩ := x
  obtain ⟨s, d⟩ := y
  have hstaff := h.staff
  cases hstaff with
  | workers operations => exact h
  | relay hrelay => exact { h with staff := .relay (hf _ _ hrelay) }

/-- Whether the ticket of a shared start is held. -/
theorem isHeld_eq (h : Alike o x y) (ha : ¬ o.IsStart a) (hn : x.registry.startOf? n = some a)
    (hm : y.registry.startOf? m = some a) : x.isHeld n = y.isHeld m := by
  obtain ⟨r, c⟩ := x
  obtain ⟨s, d⟩ := y
  cases h.staff with
  | workers operations => rfl
  | @relay c d hrelay =>
    show c.held.contains n = d.held.contains m
    rw [Bool.eq_iff_iff, List.contains_iff_mem, List.contains_iff_mem]
    exact hrelay.held.mem_iff ha hn hm

/-- A ticket of a shared start is used on both sides. -/
theorem redeem (h : Alike o x y) (ha : ¬ o.IsStart a) (hn : x.registry.startOf? n = some a)
    (hm : y.registry.startOf? m = some a) (result : WorkResult) (now : Timestamp) :
    Alike o (x.redeem n result now).1 (y.redeem m result now).1 := by
  unfold Executor.redeem
  rw [h.isHeld_eq ha hn hm]
  split
  · refine (h.withRelay fun c d hrelay => ?_).finish (by rwa [withRelay_registry])
      (by rwa [withRelay_registry]) result now
    exact { hrelay with held := hrelay.held.erase ha hn hm }
  · exact h

/-- A foreign ticket is used on the left only. -/
theorem redeem_left (h : Alike o x y) (ha : o.IsStart a) (hn : x.registry.startOf? n = some a)
    (result : WorkResult) (now : Timestamp) : Alike o (x.redeem n result now).1 y := by
  unfold Executor.redeem
  split
  · refine (h.withRelay_left fun c d hrelay => ?_).finish_left (by rwa [withRelay_registry])
      ha.1 result now
    exact { hrelay with held := hrelay.held.erase_foreign ha hn }
  · exact h

/-- A result of shared work is reported on both sides. -/
theorem report (h : Alike o x y) (ha : ¬ o.IsStart a) (hn : x.registry.startOf? n = some a)
    (hm : y.registry.startOf? m = some a) (result : WorkResult) (now : Timestamp) :
    Alike o (x.report n result now).1 (y.report m result now).1 := by
  have hfinish := h.finish hn hm result now
  have hredeem := h.redeem ha hn hm result now
  obtain ⟨r, c⟩ := x
  obtain ⟨s, d⟩ := y
  have hstaff := h.staff
  cases hstaff with
  | workers operations => exact hfinish
  | relay hrelay => exact hredeem

/-- A result of foreign work is reported on the left only. -/
theorem report_left (h : Alike o x y) (ha : o.IsStart a) (hn : x.registry.startOf? n = some a)
    (result : WorkResult) (now : Timestamp) : Alike o (x.report n result now).1 y := by
  unfold Executor.report
  split
  · exact h.finish_left hn ha.1 result now
  · exact h.redeem_left ha hn result now

/-- Waiting tickets are dropped on both sides, the foreign ones in between. -/
theorem finish_all (h : Alike o x y) (htickets : Tickets o x.registry y.registry ts us)
    (result : WorkResult) (now : Timestamp) :
    Alike o (ts.foldl (fun x n => (x.finish n result now).1) x)
      (us.foldl (fun y m => (y.finish m result now).1) y) := by
  induction ts generalizing x y us with
  | nil =>
    cases htickets
    exact h
  | cons n rest ih =>
    have hgrows := finish_grows h.left_sound n result now
    cases htickets with
    | foreign ha hn hrest =>
      exact ih (h.finish_left hn ha.1 result now) (hrest.grows hgrows (.refl _))
    | @shared _ _ m _ _ ha hn hm hrest =>
      rw [List.foldl_cons, List.foldl_cons]
      exact ih (h.finish hn hm result now)
        (hrest.grows hgrows (finish_grows h.right_sound m result now))

/-- Tickets that wait in vain are lost on both sides, and foreign ones on the
left. -/
theorem sweep (h : Alike o x y) (now : Timestamp) : Alike o (x.sweep now) (y.sweep now) := by
  obtain ⟨r, c⟩ := x
  obtain ⟨s, d⟩ := y
  have hstaff := h.staff
  cases hstaff with
  | workers operations => exact h
  | @relay c d hrelay =>
    simp only [Executor.sweep, relay?, hrelay.drivers_eq, hrelay.isOwned_eq]
    split
    · have hempty := h.withRelay (f := ({ · with waiting := [] })) (g := ({ · with waiting := [] }))
        fun c d hcd => { hcd with waiting := .nil }
      exact hempty.finish_all hrelay.waiting _ now
    · exact h

/-- Taking a ticket needs a driver, and moves the oldest that waits to those
held. -/
theorem take_relay {c : Relay} : Executor.take ⟨r, .relay c⟩ = some (x', n) ↔
    c.drivers ≠ 0 ∧ ∃ rest, c.waiting = n :: rest ∧
      x' = ⟨r, .relay { c with waiting := rest, held := c.held ++ [n] }⟩ := by
  obtain ⟨drivers, isOwned, waiting, held⟩ := c
  by_cases hdrivers : drivers = 0
  · simp [Executor.take, relay?, hdrivers]
  · cases waiting with
    | nil => simp [Executor.take, relay?, hdrivers]
    | cons i rest =>
      have heq : Executor.take ⟨r, .relay ⟨drivers, isOwned, i :: rest, held⟩⟩ =
          some (⟨r, .relay ⟨drivers, isOwned, rest, held ++ [i]⟩⟩, i) := by
        simp [Executor.take, relay?, Executor.withRelay, hdrivers]
      rw [heq]
      constructor
      · intro h
        obtain ⟨rfl, rfl⟩ := Prod.mk.inj (Option.some.inj h)
        exact ⟨hdrivers, rest, rfl, rfl⟩
      · rintro ⟨-, rest', hcons, rfl⟩
        obtain ⟨rfl, rfl⟩ := List.cons.inj hcons
        rfl

/-- A ticket that both have is taken from the head of both queues. -/
theorem take (h : Alike o x y) (ha : ¬ o.IsStart a) (hn : x.registry.startOf? n = some a)
    (hm : y.registry.startOf? m = some a) (htake : x.take = some (x', n)) :
    ∃ y', y.take = some (y', m) ∧ Alike o x' y' := by
  obtain ⟨r, c⟩ := x
  obtain ⟨s, d⟩ := y
  have hstaff := h.staff
  cases hstaff with
  | workers operations => cases htake
  | @relay c d hrelay =>
    obtain ⟨hdrivers, rest, hwaiting, rfl⟩ := take_relay.mp htake
    have htickets := hrelay.waiting
    rw [hwaiting] at htickets
    generalize hd : d.waiting = us at htickets
    cases htickets with
    | foreign hb hi _ => exact absurd (Option.some.inj (hi.symm.trans hn) ▸ hb) ha
    | @shared b _ j _ us hb hi hj hrest =>
      obtain rfl := Option.some.inj (hi.symm.trans hn)
      obtain rfl := startOf?_inj hj hm
      refine ⟨_, take_relay.mpr ⟨hrelay.drivers_eq ▸ hdrivers, us, hd, rfl⟩, ?_⟩
      exact { h with staff := .relay { hrelay with
        waiting := hrest
        held := hrelay.held.append (.shared hb hi hj .nil) } }

/-- A driver that takes a foreign ticket is not noticed on the right. -/
theorem take_left (h : Alike o x y) (ha : o.IsStart a) (hn : x.registry.startOf? n = some a)
    (htake : x.take = some (x', n)) : Alike o x' y := by
  obtain ⟨r, c⟩ := x
  obtain ⟨s, d⟩ := y
  have hstaff := h.staff
  cases hstaff with
  | workers operations => cases htake
  | @relay c d hrelay =>
    obtain ⟨hdrivers, rest, hwaiting, rfl⟩ := take_relay.mp htake
    have hheld := hrelay.held.append (.foreign ha hn .nil)
    rw [List.append_nil] at hheld
    have htickets := hrelay.waiting
    rw [hwaiting] at htickets
    generalize hd : d.waiting = us at htickets
    cases htickets with
    | foreign hb hi hrest =>
      exact { h with staff := .relay { hrelay with waiting := hd ▸ hrest, held := hheld } }
    | shared hb hi _ _ => exact absurd ha (Option.some.inj (hi.symm.trans hn) ▸ hb)

end Alike

/-! ## Where both begin -/

/-- The tickets that are not used up. -/
def heldTickets : Staff → List Nat
  | .workers _ => []
  | .relay relay => relay.waiting ++ relay.held

/-- Tickets are of flights that there are. -/
def Ticketed (x : Executor) : Prop := ∀ n ∈ heldTickets x.staff, n < x.registry.flights.length

/-- Before anybody else has started anything, all tickets are shared. -/
theorem Tickets.of_before (generations : List GenerationId) (h : ∀ n ∈ ts, n < r.flights.length) :
    Tickets ⟨generations, r⟩ r r ts ts := by
  induction ts with
  | nil => exact .nil
  | cons n rest ih =>
    obtain ⟨hn, hrest⟩ := List.forall_mem_cons.mp h
    obtain ⟨a, ha⟩ := startOf?_isSome hn
    obtain ⟨htarget, hrank⟩ := startOf?_eq_some.mp ha
    refine .shared (fun hforeign => ?_) ha ha (ih hrest)
    have hlt := rank_lt_of_target? htarget hn
    have hle : (r.only a.1).flights.length ≤ a.2 := hforeign.2
    rw [length_flights_only] at hle
    omega

/-- An executor is like itself: nothing foreign was started yet. -/
theorem Alike.refl (hs : x.registry.Sound) (h : x.Ticketed) (generations : List GenerationId) :
    Alike ⟨generations, x.registry⟩ x x := by
  refine ⟨hs, hs, .refl _, .refl _, fun _ _ => rfl, ?_⟩
  obtain ⟨r, c⟩ := x
  cases c with
  | workers operations => exact .workers operations
  | relay c =>
    obtain ⟨hwaiting, hheld⟩ := List.forall_mem_append.mp h
    exact .relay ⟨rfl, rfl, .of_before generations hwaiting, .of_before generations hheld⟩

/-- Tickets do not come from nowhere: what is there after a command was there
before, or is of the flight that was started. -/
theorem mem_heldTickets_run (hs : x.registry.Sound) {c : Command}
    (h : n ∈ heldTickets (x.run now c).1.staff) :
    n ∈ heldTickets x.staff ∨ n < (x.run now c).1.registry.flights.length := by
  cases hstaff : x.staff with
  | workers operations =>
    rw [run_staff, hstaff] at h
    exact absurd h List.not_mem_nil
  | relay relay =>
    rw [run_staff, hstaff] at h
    have hmem : n ∈ relay.tickets ++ (x.run now c).2.started?.toList :=
      (tickets_conserved hstaff now c).mem_iff.mp (List.mem_append_right _ h)
    refine (List.mem_append.mp hmem).imp_right fun hnew => ?_
    have heffect := run_effect x now c
    rw [Option.mem_toList.mp hnew] at heffect
    exact heffect.lt_of_started hs

/-- A command gives out no ticket but of a flight that it started. -/
theorem Ticketed.run (h : x.Ticketed) (hs : x.registry.Sound) (now : Timestamp) (c : Command) :
    (x.run now c).1.Ticketed := by
  intro n hn
  rcases mem_heldTickets_run hs hn with hold | hnew
  · exact (run_sound hs now c).2.lt (h n hold)
  · exact hnew

/-- An executor that is new, or came about from a new one by commands. -/
inductive Arises : Executor → Prop
  | workers (operations : List Operation) : Arises (ofWorkers operations)
  | relay : Arises ofRelay
  | run {x : Executor} (h : Arises x) (now : Timestamp) (c : Command) : Arises (x.run now c).1

/-- Whatever comes about from a new executor is sound. -/
theorem Arises.sound (h : x.Arises) : x.registry.Sound := by
  induction h with
  | workers operations => exact sound_empty
  | relay => exact sound_empty
  | run _ now c ih => exact (run_sound ih now c).1

/-- Whatever comes about from a new executor has tickets of its flights only. -/
theorem Arises.ticketed (h : x.Arises) : x.Ticketed := by
  induction h with
  | workers operations => exact fun n hn => absurd hn List.not_mem_nil
  | relay => exact fun n hn => absurd hn List.not_mem_nil
  | run h now c ih => exact ih.run h.sound now c

/-- Nothing foreign has been done yet. -/
theorem Arises.alike (h : x.Arises) (generations : List GenerationId) :
    Alike ⟨generations, x.registry⟩ x x :=
  .refl h.sound h.ticketed generations

/-! ## Errands

An errand names the start that it is about, and not the number of a flight, so
that it means the same on both sides. -/

/-- A request of those who do the work, which they name by its start. -/
inductive Errand where
  /-- A text of streamed work. -/
  | delta (a : Start) (text : String)
  /-- The result of work. -/
  | report (a : Start) (result : WorkResult)
  /-- A driver takes a request from the queue. -/
  | take (a : Start)
  /-- A ticket is dropped without a result. -/
  | dropTicket (a : Start)
  | addDriver
  | dropDriver
  /-- The starting side is given up. -/
  | disown
deriving Repr

namespace Errand

/-- The start that an errand is about. -/
def start? : Errand → Option Start
  | .delta a _ | .report a _ | .take a | .dropTicket a => some a
  | .addDriver | .dropDriver | .disown => none

/-- What an errand asks of an executor, if it can be run now: the start has
been made, and a ticket that is taken is the oldest that waits. -/
def command? (x : Executor) : Errand → Option Command
  | .delta a text => (x.registry.numberOf? a).map (.delta · text)
  | .report a result => (x.registry.numberOf? a).map (.report · result)
  | .take a => do
    let n ← x.registry.numberOf? a
    let (_, m) ← x.take
    if n = m then some .take else none
  | .dropTicket a => (x.registry.numberOf? a).map .dropTicket
  | .addDriver => some .addDriver
  | .dropDriver => some .dropDriver
  | .disown => some .disown

/-- A ticket is taken on an errand only if it is the one that the errand asks
for. -/
theorem command?_take {c : Command} (h : command? x (.take a) = some c) :
    ∃ n x', x.registry.startOf? n = some a ∧ x.take = some (x', n) ∧ c = .take := by
  simp only [command?, Option.bind_eq_bind, Option.bind_eq_some_iff, Option.ite_none_right_eq_some,
    Prod.exists] at h
  obtain ⟨n, hn, x', m, htake, rfl, hc⟩ := h
  exact ⟨n, x', numberOf?_eq_some.mp hn, htake, (Option.some.inj hc).symm⟩

end Errand

namespace Alike

variable {e : Errand} {c : Command}

/-- What is done about a start that both have is done on both. -/
theorem errand (h : Alike o x y) (he : ∀ a, e.start? = some a → ¬ o.IsStart a)
    (hc : e.command? x = some c) (now : Timestamp) :
    ∃ c', e.command? y = some c' ∧ Alike o (x.run now c).1 (y.run now c').1 := by
  cases e with
  | delta a text =>
    obtain ⟨n, hnumber, rfl⟩ := Option.map_eq_some_iff.mp hc
    have hn := numberOf?_eq_some.mp hnumber
    obtain ⟨m, hm⟩ := h.exists_startOf? (he a rfl) hn
    exact ⟨.delta m text, congrArg (Option.map _) (numberOf?_eq_some.mpr hm), h.delta hn hm text⟩
  | report a result =>
    obtain ⟨n, hnumber, rfl⟩ := Option.map_eq_some_iff.mp hc
    have hn := numberOf?_eq_some.mp hnumber
    obtain ⟨m, hm⟩ := h.exists_startOf? (he a rfl) hn
    exact ⟨.report m result, congrArg (Option.map _) (numberOf?_eq_some.mpr hm),
      h.report (he a rfl) hn hm result now⟩
  | take a =>
    obtain ⟨n, x', hn, htake, rfl⟩ := Errand.command?_take hc
    obtain ⟨m, hm⟩ := h.exists_startOf? (he a rfl) hn
    obtain ⟨y', htake', halike⟩ := h.take (he a rfl) hn hm htake
    refine ⟨.take, ?_, ?_⟩
    · simp [Errand.command?, numberOf?_eq_some.mpr hm, htake']
    · simpa only [Executor.run, htake, htake'] using halike
  | dropTicket a =>
    obtain ⟨n, hnumber, rfl⟩ := Option.map_eq_some_iff.mp hc
    have hn := numberOf?_eq_some.mp hnumber
    obtain ⟨m, hm⟩ := h.exists_startOf? (he a rfl) hn
    exact ⟨.dropTicket m, congrArg (Option.map _) (numberOf?_eq_some.mpr hm),
      h.redeem (he a rfl) hn hm _ now⟩
  | addDriver =>
    cases hc
    refine ⟨.addDriver, rfl, h.withRelay fun c d hcd => ?_⟩
    rw [hcd.drivers_eq]
    split
    · exact hcd
    · exact { hcd with drivers_eq := rfl }
  | dropDriver =>
    cases hc
    refine ⟨.dropDriver, rfl, (h.withRelay fun c d hcd => ?_).sweep now⟩
    exact { hcd with drivers_eq := congrArg (· - 1) hcd.drivers_eq }
  | disown =>
    cases hc
    have hdisowned := h.withRelay (f := ({ · with isOwned := false }))
      (g := ({ · with isOwned := false })) fun c d hcd => { hcd with isOwned_eq := rfl }
    exact ⟨.disown, rfl, hdisowned.sweep now⟩

/-- What is done about a foreign start makes no difference. -/
theorem errand_left (h : Alike o x y) (he : e.start? = some a) (ha : o.IsStart a)
    (hc : e.command? x = some c) (now : Timestamp) : Alike o (x.run now c).1 y := by
  cases e with
  | delta b text =>
    cases he
    obtain ⟨n, hn, rfl⟩ := Option.map_eq_some_iff.mp hc
    exact h.delta_left (numberOf?_eq_some.mp hn) ha.1 text
  | report b result =>
    cases he
    obtain ⟨n, hn, rfl⟩ := Option.map_eq_some_iff.mp hc
    exact h.report_left ha (numberOf?_eq_some.mp hn) result now
  | take b =>
    cases he
    obtain ⟨n, x', hn, htake, rfl⟩ := Errand.command?_take hc
    simpa only [Executor.run, htake] using h.take_left ha hn htake
  | dropTicket b =>
    cases he
    obtain ⟨n, hn, rfl⟩ := Option.map_eq_some_iff.mp hc
    exact h.redeem_left ha (numberOf?_eq_some.mp hn) _ now
  | _ => cases he

end Alike

end Executor

end Workflow
