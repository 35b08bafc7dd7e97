/-
Workflow.Proofs.Engine.Duet — two runs at the same time do not interfere.

A `Duet` is a world in which two acts are run. What happens next is a call of
either run, a move of it or of one of its steps, its cancellation, a command
to the store about its act, or an errand of those who do the work, in any
order. Leaving out all that only concerns the other run gives the schedule
of a run that is alone.

* `Happening.concerns` — what is not left out: everything but what is done by
  the other run, to the other act, and about starts that the other run made.
* `Duet.Mirrors` — the invariant between the duet and the run that is alone.
  `Mirrors.concern` and `Mirrors.aside` are its two step lemmas.
* `runs_apart` — whole schedules.
-/
import Mathlib.Data.List.Destutter
import Mathlib.Logic.Function.Basic
import Workflow.Proofs.Engine.Alike

namespace Workflow

/-- One of two acts that are run at the same time. -/
inductive Side where
  | first
  | second
deriving DecidableEq, Repr

def Side.other : Side → Side
  | .first => .second
  | .second => .first

/-- A world with the run of each side, once it has been called. -/
structure Duet where
  world : World
  runs : Side → Option Run

namespace World

/-- Whatever is done to a world, its executor arises from a new one. -/
theorem arises_after {w : World} (hw : w.executor.Arises) (d : Deed) :
    (w.after d).executor.Arises := by
  cases d with
  | executor c => exact hw.run w.now c
  | _ => exact hw

theorem arises_afterAll {w : World} (hw : w.executor.Arises) (deeds : List Deed) :
    (w.afterAll deeds).executor.Arises := by
  induction deeds generalizing w with
  | nil => exact hw
  | cons d rest ih => exact ih (arises_after hw d)

end World

namespace Duet

/-- Nothing has been called yet. -/
def begin (w : World) : Duet := ⟨w, fun _ => none⟩

/-- One thing that happens. -/
inductive Happening where
  /-- The run of a side is called, cancelled beforehand or not. -/
  | call (s : Side) (isCancelled : Bool)
  /-- The run moves on between its sequences. -/
  | lead (s : Side)
  /-- A step of the running sequence moves. -/
  | step (s : Side) (j : Nat)
  | cancel (s : Side)
  /-- A command about the act of this side. -/
  | store (s : Side) (c : Store.Command)
  /-- Those who do the work make a request. -/
  | errand (e : Executor.Errand)
  | wait (ms : Nat)

/-- The run of a side has come to this point, in this world. -/
def moved (d : Duet) (s : Side) (m : World × Run) : Duet :=
  ⟨m.1, Function.update d.runs s (some m.2)⟩

@[simp] theorem moved_self (d : Duet) (s : Side) (m : World × Run) :
    (d.moved s m).runs s = some m.2 := Function.update_self ..

theorem moved_of_ne {s t : Side} (h : t ≠ s) (d : Duet) (m : World × Run) :
    (d.moved s m).runs t = d.runs t := Function.update_of_ne h ..

variable (acts : Side → Act)

/-- The duet afterwards, if this can happen. -/
def occur (d : Duet) : Happening → Option Duet
  | .call s isCancelled =>
    if (d.runs s).isNone then some (d.moved s (d.world, .new d.world (acts s) isCancelled))
    else none
  | .lead s => (d.runs s).bind fun r => (r.lead d.world).map (d.moved s)
  | .step s j => (d.runs s).bind fun r => (r.stepMove d.world j).map (d.moved s)
  | .cancel s => (d.runs s).map fun r => d.moved s (d.world, r.cancel)
  | .store s c =>
    if c.act = (acts s).id then some { d with world := d.world.after (.store c) } else none
  | .errand e =>
    (e.command? d.world.executor).map fun c => { d with world := d.world.after (.executor c) }
  | .wait ms => some { d with world := d.world.after (.wait ms) }

/-- The duet at the end of a schedule. -/
def perform (d : Duet) : List Happening → Option Duet
  | [] => some d
  | e :: rest => (d.occur acts e).bind (perform · rest)

/-! ## One side alone -/

/-- What the other side does with the executor. -/
def foreign (w : World) (s : Side) : Executor.Foreign :=
  ⟨(acts s.other).generations, w.executor.registry⟩

/-- Whether something is more than an affair of the other side. -/
def Happening.concerns (w : World) (s : Side) : Happening → Bool
  | .call t _ | .lead t | .step t _ | .cancel t | .store t _ => t = s
  | .errand e => e.start?.all fun a => !(foreign acts w s).IsStart a
  | .wait _ => true

/-! ## What is seen of a side -/

/-- The stored record of an act and its patch log, all that its run did and
told its observer, and the records of its generations. -/
structure Sight where
  stored : Option Act
  log : List Patch
  journal : List Entry
  records : List (Option Generation)
deriving DecidableEq, Repr

/-- What is seen of a side at one point of a duet. -/
def sight (s : Side) (d : Duet) : Sight where
  stored := d.world.store.get? (acts s).id
  log := d.world.store.logOf (acts s).id
  journal := (d.runs s).elim [] (·.journal)
  records := (acts s).generations.map d.world.executor.get?

/-- What is seen of a side from one thing that happens to the next. -/
def course (s : Side) (d : Duet) : List Happening → List Sight
  | [] => [d.sight acts s]
  | e :: rest => d.sight acts s :: (d.occur acts e).elim [] (course s · rest)

/-- The states that a side goes through. -/
def states (s : Side) (d : Duet) (schedule : List Happening) : List Sight :=
  (course acts s d schedule).destutter (· ≠ ·)

variable {acts} {w : World} {s : Side} {d d' c : Duet} {e : Happening}

/-! ## The invariant

The whole duet and the side alone agree on everything that can be seen from
the side. The other run is described by what it must leave alone. -/

/-- The second duet lacks what the other side does in the first. -/
structure Mirrors (acts : Side → Act) (w : World) (s : Side) (d c : Duet) : Prop where
  /-- Apart from what the other side owns the worlds are alike. -/
  world : d.world.Alike (acts s.other) w.executor.registry c.world
  /-- The side's own run stands at the same point in both. -/
  run : Option.Rel (Run.Alike (foreign acts w s) d.world.executor.registry
    c.world.executor.registry) (d.runs s) (c.runs s)
  /-- On the right the other side is never called. -/
  alone : c.runs s.other = none
  /-- Each run is of its own act, and holds on to no other records. -/
  owns : ∀ t r, d.runs t = some r → r.act = acts t ∧ r.Owns

/-- The acts have their own identifiers and their own generations. -/
structure Distinct (acts : Side → Act) : Prop where
  id_ne : (acts .first).id ≠ (acts .second).id
  disjoint : (acts .first).generations.Disjoint (acts .second).generations

namespace Distinct

/-- Seen from either side, the other act has another identifier. -/
theorem side_id (h : Distinct acts) (s : Side) : (acts s).id ≠ (acts s.other).id := by
  cases s with
  | first => exact h.id_ne
  | second => exact h.id_ne.symm

theorem side_disjoint (h : Distinct acts) (s : Side) :
    (acts s).generations.Disjoint (acts s.other).generations := by
  cases s with
  | first => exact h.disjoint
  | second => exact h.disjoint.symm

end Distinct

theorem ne_other (s : Side) : s ≠ s.other := by cases s <;> nofun

theorem eq_or_eq_other (s t : Side) : t = s ∨ t = s.other := by
  cases s <;> cases t <;> simp [Side.other]

namespace Mirrors

variable {w' v' : World} {r r' q q' : Run}

/-- A run in the duet has its counterpart alone. -/
theorem exists_run (h : Mirrors acts w s d c) (hr : d.runs s = some r) :
    ∃ q, c.runs s = some q ∧ Run.Alike (foreign acts w s) d.world.executor.registry
      c.world.executor.registry r q := by
  have hrun := h.run
  rw [hr] at hrun
  generalize c.runs s = o at hrun
  cases hrun with
  | some halike => exact ⟨_, rfl, halike⟩

theorem run_none (h : Mirrors acts w s d c) (hr : d.runs s = none) : c.runs s = none := by
  have hrun := h.run
  rw [hr] at hrun
  generalize c.runs s = o at hrun
  cases hrun
  rfl

/-- What is seen of a side is the same alone. -/
theorem sight_eq (hacts : Distinct acts) (h : Mirrors acts w s d c) :
    c.sight acts s = d.sight acts s := by
  have hview := h.world.store (acts s).id (hacts.side_id s)
  have hrecords : (acts s).generations.map c.world.executor.get? =
      (acts s).generations.map d.world.executor.get? := by
    refine List.map_congr_left fun id hid => ?_
    exact (h.world.executor.get?_eq fun hother => hacts.side_disjoint s hid hother).symm
  have hjournal : (c.runs s).elim [] (·.journal) = (d.runs s).elim [] (·.journal) := by
    cases hr : d.runs s with
    | none => rw [h.run_none hr]
    | some r =>
      obtain ⟨q, hq, halike⟩ := h.exists_run hr
      rw [hq]
      exact halike.journal_eq
  rw [sight, sight, hrecords, hjournal]
  exact congrArg₂ (Sight.mk · · _ _) (congrArg View.act? hview).symm (congrArg View.log hview).symm

/-! ### Moves of either side -/

/-- Runs stay alike while both registries grow. -/
theorem run_grows (h : Mirrors acts w s d c) {x y : Registry}
    (hx : d.world.executor.registry.Grows x) (hy : c.world.executor.registry.Grows y) :
    Option.Rel (Run.Alike (foreign acts w s) x y) (d.runs s) (c.runs s) := by
  have hrun := h.run
  generalize d.runs s = a, c.runs s = b at hrun
  cases hrun with
  | none => exact .none
  | some halike => exact .some (halike.grows hx hy)

/-- A move that keeps its act, and owns its records, keeps this true of both
sides. -/
theorem owns_moved (h : ∀ t r, d.runs t = some r → r.act = acts t ∧ r.Owns) {t : Side}
    (hact : r'.act = acts t) (howns : r'.Owns) :
    ∀ u r, (d.moved t (w', r')).runs u = some r → r.act = acts u ∧ r.Owns := by
  intro u r hr
  by_cases hu : u = t
  · subst hu
    rw [moved_self] at hr
    exact Option.some.inj hr ▸ ⟨hact, howns⟩
  · rw [moved_of_ne hu] at hr
    exact h u r hr

/-- A move of the side itself is made in both. -/
theorem moved (h : Mirrors acts w s d c) (hw : w'.Alike (acts s.other) w.executor.registry v')
    (hr : Run.Alike (foreign acts w s) w'.executor.registry v'.executor.registry r' q')
    (hact : r'.act = acts s) (howns : r'.Owns) :
    Mirrors acts w s (d.moved s (w', r')) (c.moved s (v', q')) where
  world := hw
  run := by
    rw [moved_self, moved_self]
    exact .some hr
  alone := (moved_of_ne (ne_other s).symm c _).trans h.alone
  owns := owns_moved h.owns hact howns

/-- A move of the other side is not noticed alone. -/
theorem moved_other (h : Mirrors acts w s d c)
    (hw : w'.Alike (acts s.other) w.executor.registry c.world)
    (hgrows : d.world.executor.registry.Grows w'.executor.registry)
    (hact : r'.act = acts s.other) (howns : r'.Owns) :
    Mirrors acts w s (d.moved s.other (w', r')) c where
  world := hw
  run := by
    rw [moved_of_ne (ne_other s)]
    exact h.run_grows hgrows (.refl _)
  alone := h.alone
  owns := owns_moved h.owns hact howns

/-- Somebody else changes the worlds. -/
theorem change (h : Mirrors acts w s d c) (hw : w'.Alike (acts s.other) w.executor.registry v')
    (hx : d.world.executor.registry.Grows w'.executor.registry)
    (hy : c.world.executor.registry.Grows v'.executor.registry) :
    Mirrors acts w s { d with world := w' } { c with world := v' } :=
  ⟨hw, h.run_grows hx hy, h.alone, h.owns⟩

/-- What concerns the side happens in both. -/
theorem concern (hacts : Distinct acts) (h : Mirrors acts w s d c) (he : e.concerns acts w s)
    (hd : d.occur acts e = some d') :
    ∃ c', c.occur acts e = some c' ∧ Mirrors acts w s d' c' := by
  have hsound := h.world.executor.left_sound
  cases e with
  | call t isCancelled =>
    obtain rfl : t = s := of_decide_eq_true he
    simp only [occur, Option.ite_none_right_eq_some, Option.isNone_iff_eq_none] at hd ⊢
    obtain ⟨hnone, hd⟩ := hd
    obtain rfl := Option.some.inj hd
    have hnew : Run.new c.world (acts t) isCancelled = Run.new d.world (acts t) isCancelled := by
      rw [Run.new, Run.new, h.world.clock_eq]
    refine ⟨_, ⟨h.run_none hnone, rfl⟩, h.moved h.world ?_ rfl (Run.owns_of_nil rfl)⟩
    exact hnew ▸ .refl nofun
  | lead t =>
    obtain rfl : t = s := of_decide_eq_true he
    obtain ⟨r, hr, hd⟩ := Option.bind_eq_some_iff.mp hd
    obtain ⟨⟨w', r'⟩, hlead, rfl⟩ := Option.map_eq_some_iff.mp hd
    obtain ⟨q, hq, halike⟩ := h.exists_run hr
    obtain ⟨hact, howns⟩ := h.owns t r hr
    have hled := Run.led_of_lead hlead
    obtain ⟨v', q', hled', hw', hr'⟩ := hled.alike h.world halike (hact ▸ hacts.side_id t)
      (hact ▸ hacts.side_disjoint t)
    refine ⟨c.moved t (v', q'), ?_, h.moved hw' ?_ ?_ (hled.owns hsound howns)⟩
    · simp [occur, hq, Run.lead_of_led hled']
    · rw [hled.executor_eq, hled'.executor_eq]
      exact hr'
    · exact hled.continues.act_eq.trans hact
  | step t j =>
    obtain rfl : t = s := of_decide_eq_true he
    obtain ⟨r, hr, hd⟩ := Option.bind_eq_some_iff.mp hd
    obtain ⟨⟨w', r'⟩, hmove, rfl⟩ := Option.map_eq_some_iff.mp hd
    obtain ⟨q, hq, halike⟩ := h.exists_run hr
    obtain ⟨hact, howns⟩ := h.owns t r hr
    obtain ⟨v', q', hmove', hw', hr'⟩ := Run.stepMove_alike h.world halike howns
      (hact ▸ hacts.side_disjoint t) hmove
    refine ⟨c.moved t (v', q'), ?_,
      h.moved hw' hr' ((Run.act_of_stepMove hmove).trans hact) (Run.owns_of_stepMove hmove howns)⟩
    simp [occur, hq, hmove']
  | cancel t =>
    obtain rfl : t = s := of_decide_eq_true he
    obtain ⟨r, hr, rfl⟩ := Option.map_eq_some_iff.mp hd
    obtain ⟨q, hq, halike⟩ := h.exists_run hr
    obtain ⟨hact, howns⟩ := h.owns t r hr
    refine ⟨c.moved t (c.world, q.cancel), ?_, h.moved h.world halike.cancel hact howns⟩
    rw [occur, hq]
    rfl
  | store t b =>
    obtain rfl : t = s := of_decide_eq_true he
    simp only [occur, Option.ite_none_right_eq_some] at hd ⊢
    obtain ⟨hb, hd⟩ := hd
    obtain rfl := Option.some.inj hd
    have hstore := h.world.store.run (hb ▸ hacts.side_id t)
    exact ⟨_, ⟨hb, rfl⟩, h.change ⟨h.world.clock_eq, hstore, h.world.executor⟩ (.refl _) (.refl _)⟩
  | errand b =>
    obtain ⟨command, hcommand, rfl⟩ := Option.map_eq_some_iff.mp hd
    -- the errand is about a start of this side's own
    have hown : ∀ a, b.start? = some a → ¬ (foreign acts w s).IsStart a := by
      intro a ha
      simpa [Happening.concerns, ha] using he
    obtain ⟨command', hcommand', halike⟩ := h.world.executor.errand hown hcommand d.world.now
    have hnow : d.world.now = c.world.now := congrArg Timestamp.ofMillis h.world.clock_eq
    refine ⟨_, congrArg (Option.map _) hcommand', h.change ⟨h.world.clock_eq, h.world.store, ?_⟩
      (World.after_sound hsound _).2 (World.after_sound h.world.executor.right_sound _).2⟩
    show Executor.Alike _ (d.world.executor.run d.world.now command).1
      (c.world.executor.run c.world.now command').1
    rw [← hnow]
    exact halike
  | wait ms =>
    obtain rfl := Option.some.inj hd
    exact ⟨_, rfl, h.change
      ⟨congrArg (· + ms) h.world.clock_eq, h.world.store, h.world.executor⟩ (.refl _) (.refl _)⟩

/-- What only concerns the other side happens in the first. -/
theorem aside (h : Mirrors acts w s d c) (he : ¬ e.concerns acts w s)
    (hd : d.occur acts e = some d') : Mirrors acts w s d' c := by
  have hsound := h.world.executor.left_sound
  -- what does not concern the side is a move of the other
  have hside {t : Side} (ht : ¬ decide (t = s) = true) : t = s.other :=
    (eq_or_eq_other s t).resolve_left (by simpa using ht)
  cases e with
  | call t isCancelled =>
    obtain rfl := hside he
    simp only [occur, Option.ite_none_right_eq_some] at hd
    obtain ⟨-, hd⟩ := hd
    obtain rfl := Option.some.inj hd
    exact h.moved_other h.world (.refl _) rfl (Run.owns_of_nil rfl)
  | lead t =>
    obtain rfl := hside he
    obtain ⟨r, hr, hd⟩ := Option.bind_eq_some_iff.mp hd
    obtain ⟨⟨w', r'⟩, hlead, rfl⟩ := Option.map_eq_some_iff.mp hd
    obtain ⟨hact, howns⟩ := h.owns s.other r hr
    have hled := Run.led_of_lead hlead
    have hgrows : d.world.executor.registry.Grows w'.executor.registry :=
      hled.executor_eq ▸ .refl _
    exact h.moved_other (hled.left h.world hact) hgrows (hled.continues.act_eq.trans hact)
      (hled.owns hsound howns)
  | step t j =>
    obtain rfl := hside he
    obtain ⟨r, hr, hd⟩ := Option.bind_eq_some_iff.mp hd
    obtain ⟨⟨w', r'⟩, hmove, rfl⟩ := Option.map_eq_some_iff.mp hd
    obtain ⟨hact, howns⟩ := h.owns s.other r hr
    exact h.moved_other (Run.stepMove_left h.world hact howns hmove)
      (Run.grows_of_stepMove hmove hsound) ((Run.act_of_stepMove hmove).trans hact)
      (Run.owns_of_stepMove hmove howns)
  | cancel t =>
    obtain rfl := hside he
    obtain ⟨r, hr, rfl⟩ := Option.map_eq_some_iff.mp hd
    obtain ⟨hact, howns⟩ := h.owns s.other r hr
    exact h.moved_other h.world (.refl _) hact howns
  | store t b =>
    obtain rfl := hside he
    simp only [occur, Option.ite_none_right_eq_some] at hd
    obtain ⟨hb, hd⟩ := hd
    obtain rfl := Option.some.inj hd
    exact h.change (c := c) ⟨h.world.clock_eq, h.world.store.run_left hb, h.world.executor⟩
      (.refl _) (.refl _)
  | errand b =>
    obtain ⟨command, hcommand, rfl⟩ := Option.map_eq_some_iff.mp hd
    -- an errand that does not concern the side is about a start of the other's
    obtain ⟨a, ha, hforeign⟩ : ∃ a, b.start? = some a ∧ (foreign acts w s).IsStart a := by
      cases ha : b.start? with
      | none => simp [Happening.concerns, ha] at he
      | some a => exact ⟨a, rfl, by simpa [Happening.concerns, ha] using he⟩
    have halike := h.world.executor.errand_left ha hforeign hcommand d.world.now
    exact h.change ⟨h.world.clock_eq, h.world.store, halike⟩ (World.after_sound hsound _).2
      (.refl _)
  | wait ms => exact absurd rfl he

/-! ### Whole schedules -/

end Mirrors

/-- The states of a side over one more thing that happens. -/
theorem states_cons (hd : d.occur acts e = some d') (rest : List Happening) :
    d.states acts s (e :: rest) =
      if d.sight acts s = d'.sight acts s then d'.states acts s rest
      else d.sight acts s :: d'.states acts s rest := by
  have hcourse : ∃ l, course acts s d' rest = d'.sight acts s :: l := by
    cases rest <;> exact ⟨_, rfl⟩
  obtain ⟨l, hl⟩ := hcourse
  rw [states, states, course, hd, Option.elim_some, hl, List.destutter_cons', List.destutter_cons',
    List.destutter'_cons]
  by_cases heq : d.sight acts s = d'.sight acts s
  · rw [if_pos heq, if_neg (not_not.mpr heq), heq]
  · rw [if_neg heq, if_pos heq]

/-- A whole schedule: alone, the side goes through what concerns it, with the
same states. -/
theorem Mirrors.perform (hacts : Distinct acts) (h : Mirrors acts w s d c)
    {schedule : List Happening} (hd : d.perform acts schedule = some d') :
    ∃ c', c.perform acts (schedule.filter (·.concerns acts w s)) = some c' ∧
      Mirrors acts w s d' c' ∧
      c.states acts s (schedule.filter (·.concerns acts w s)) = d.states acts s schedule := by
  induction schedule generalizing d c with
  | nil =>
    obtain rfl := Option.some.inj hd
    exact ⟨c, rfl, h, congrArg (fun x => [x].destutter (· ≠ ·)) (h.sight_eq hacts)⟩
  | cons e rest ih =>
    obtain ⟨d₁, hfirst, hrest⟩ := Option.bind_eq_some_iff.mp hd
    by_cases he : e.concerns acts w s
    · obtain ⟨c₁, hfirst', h₁⟩ := h.concern hacts he hfirst
      obtain ⟨c', hc', h', hstates⟩ := ih h₁ hrest
      rw [List.filter_cons_of_pos he]
      refine ⟨c', Option.bind_eq_some_iff.mpr ⟨c₁, hfirst', hc'⟩, h', ?_⟩
      rw [states_cons hfirst, states_cons hfirst', h.sight_eq hacts, h₁.sight_eq hacts, hstates]
    · have h₁ := h.aside he hfirst
      obtain ⟨c', hc', h', hstates⟩ := ih h₁ hrest
      have hsame : d.sight acts s = d₁.sight acts s :=
        (h.sight_eq hacts).symm.trans (h₁.sight_eq hacts)
      rw [List.filter_cons_of_neg he]
      exact ⟨c', hc', h', by rw [states_cons hfirst, if_pos hsame, hstates]⟩

/-- At first there is nothing to leave out. -/
theorem mirrors_begin (hw : w.executor.Arises) (s : Side) :
    Mirrors acts w s (begin w) (begin w) where
  world := ⟨rfl, fun _ _ => rfl, hw.alike _⟩
  run := .none
  alone := rfl
  owns := fun _ _ hr => by cases hr

/-- Whatever happens to two runs at the same time, each goes through the
states that it goes through alone, in the same order.

`Mirrors` relates the two performances. A move that concerns the side is
made in both of them; any other one is made in the first only, and changes
nothing that this side sees. -/
theorem runs_apart (hacts : Distinct acts) (hw : w.executor.Arises) {schedule : List Happening}
    (hd : (begin w).perform acts schedule = some d) (s : Side) :
    ∃ c, (begin w).perform acts (schedule.filter (·.concerns acts w s)) = some c ∧
      c.runs s.other = none ∧ c.sight acts s = d.sight acts s ∧
      (begin w).states acts s (schedule.filter (·.concerns acts w s)) =
        (begin w).states acts s schedule := by
  obtain ⟨c, hc, h, hstates⟩ := (mirrors_begin hw s).perform hacts hd
  exact ⟨c, hc, h.alone, h.sight_eq hacts, hstates⟩

/-! ## Two runs over one relay -/

/-- The plan of the sample under two sets of identifiers. -/
def paired : Side → Blueprint
  | .first => Sample.blueprint
  | .second =>
    (Blueprint.compile (fun e n => .numbered e (n + 3)) .epoch Sample.workspace
      ⟨"write"⟩).toOption.getD default

def pairedActs (s : Side) : Act := (paired s).act

/-- A relay, and both plans loaded. -/
def pairedWorld : World :=
  (World.fresh (.relay .new)).afterAll ([Side.first, Side.second].flatMap fun s =>
    .store (.insert (pairedActs s)) :: (paired s).generations.map fun g => .executor (.set g))

/-- Both searches are started, the second one first. That run is cancelled
while its search is out, and the search of the first run fails. -/
def pairedSchedule : List Happening :=
  [.call .second false, .call .first false, .lead .second, .lead .first, .lead .first,
    .lead .second, .lead .second, .lead .first, .lead .second, .step .second 0, .lead .first,
    .step .first 0, .step .second 0, .step .first 0, .errand (.take (⟨"gnr-3"⟩, 0)), .wait 1,
    .errand (.take (⟨"gnr-1"⟩, 0)), .cancel .second, .wait 1, .step .second 0,
    .errand (.report (⟨"gnr-1"⟩, 0) (.error "quota exceeded")),
    .errand (.report (⟨"gnr-3"⟩, 0) (.ok [])), .step .first 0, .step .second 0,
    .lead .second, .lead .first, .lead .first, .lead .second, .lead .second, .lead .first]

theorem sample_runs_apart : Distinct pairedActs ∧ pairedWorld.executor.Arises ∧
    ∃ d, (begin pairedWorld).perform pairedActs pairedSchedule = some d ∧
      ((d.runs .first).bind (·.outcome?)).map (·.status) = some .failed ∧
      ((d.runs .second).bind (·.outcome?)).map (·.status) = some .cancelled ∧
      ∀ s, ∃ c, (begin pairedWorld).perform pairedActs
          (pairedSchedule.filter (·.concerns pairedActs pairedWorld s)) = some c ∧
        c.runs s.other = none ∧ c.sight pairedActs s = d.sight pairedActs s ∧
        (begin pairedWorld).states pairedActs s
            (pairedSchedule.filter (·.concerns pairedActs pairedWorld s)) =
          (begin pairedWorld).states pairedActs s pairedSchedule := by
  have hdisjoint : ∀ id ∈ (pairedActs .first).generations,
      id ∉ (pairedActs .second).generations := by
    decide +kernel
  have hacts : Distinct pairedActs := ⟨by decide +kernel, fun id h => hdisjoint id h⟩
  have harises : pairedWorld.executor.Arises := World.arises_afterAll .relay _
  have hplayed : ((begin pairedWorld).perform pairedActs pairedSchedule).map (fun d =>
      (((d.runs .first).bind (·.outcome?)).map (·.status),
        ((d.runs .second).bind (·.outcome?)).map (·.status))) =
      some (some .failed, some .cancelled) := by
    decide +kernel
  obtain ⟨d, hd, hends⟩ := Option.map_eq_some_iff.mp hplayed
  obtain ⟨hfirst, hsecond⟩ := Prod.mk.inj hends
  exact ⟨hacts, harises, d, hd, hfirst, hsecond, runs_apart hacts harises hd⟩

end Duet

end Workflow
