/-
Workflow.Proofs.Engine.Scene — a run among others.

A `Scene` is a run with the world that it shares. What happens next is a
move of the run, a move of one of its steps, the cancellation, or something
that others do, in any order. What others may do is a parameter: a theorem
for `others` holds for all that do no more than that.

* `Reaches.induct` — what holds at first and is kept by everything that can
  happen holds of all that is reached.
* `Scene.perform`, `reaches_of_perform` — a schedule lists what happens, and
  leads to a scene that is reached.
-/
import Mathlib.Logic.Relation
import Workflow.Engine.Run

namespace Workflow

/-- A run in its world. -/
structure Scene where
  world : World
  run : Run

/-- Something that others may do to a world. -/
abbrev Interference := World → World → Prop

namespace Scene

/-- A run of an act is about to begin. -/
def begin (w : World) (act : Act) (isCancelled : Bool) : Scene := ⟨w, .new w act isCancelled⟩

/-- The scene changes. -/
inductive Next (others : Interference) : Scene → Scene → Prop
  | lead {w w' r r'} (h : Run.lead r w = some (w', r')) : Next others ⟨w, r⟩ ⟨w', r'⟩
  | step {w w' r r'} (j : Nat) (h : Run.stepMove r w j = some (w', r')) :
    Next others ⟨w, r⟩ ⟨w', r'⟩
  | cancel {w r} : Next others ⟨w, r⟩ ⟨w, r.cancel⟩
  | others {w w' r} (h : others w w') : Next others ⟨w, r⟩ ⟨w', r⟩

/-- Who may do more may do as much. -/
theorem Next.mono {others others' : Interference} {c c' : Scene} (h : Next others c c')
    (hothers : ∀ w w', others w w' → others' w w') : Next others' c c' := by
  cases h with
  | lead h => exact .lead h
  | step j h => exact .step j h
  | cancel => exact .cancel
  | others h => exact .others (hothers _ _ h)

/-- A scene comes about from another one. -/
def Reaches (others : Interference) : Scene → Scene → Prop := Relation.ReflTransGen (Next others)

/-! ## Whatever is kept holds throughout -/

/-- What holds at first, and is kept by whatever happens, holds throughout. -/
theorem Reaches.induct {others : Interference} {c c' : Scene} {P : Scene → Prop}
    (h : Reaches others c c') (hbegin : P c)
    (hnext : ∀ d d', Next others d d' → P d → P d') : P c' := by
  induction h with
  | refl => exact hbegin
  | tail _ hlast ih => exact hnext _ _ hlast ih

/-! ## Schedules -/

/-- One thing that happens in a scene. -/
inductive Happening where
  /-- The run moves on between its sequences. -/
  | lead
  /-- A step of the running sequence moves. -/
  | step (j : Nat)
  /-- The token fires. -/
  | cancel
  /-- Something else happens in the world. -/
  | deed (d : Deed)

/-- The scene afterwards, if this can happen. -/
def happen (c : Scene) : Happening → Option Scene
  | .lead => (c.run.lead c.world).map fun (w, r) => ⟨w, r⟩
  | .step j => (c.run.stepMove c.world j).map fun (w, r) => ⟨w, r⟩
  | .cancel => some ⟨c.world, c.run.cancel⟩
  | .deed d => some ⟨c.world.after d, c.run⟩

/-- The scene at the end of a schedule. -/
def perform (c : Scene) : List Happening → Option Scene
  | [] => some c
  | h :: rest => (c.happen h).bind (perform · rest)

/-- Something that happens in a schedule is something that can happen. -/
theorem next_of_happen {others : Interference} {c c' : Scene} {e : Happening}
    (hothers : ∀ d, e = .deed d → ∀ w : World, others w (w.after d))
    (h : c.happen e = some c') : Next others c c' := by
  cases e with
  | lead =>
    simp only [happen, Option.map_eq_some_iff, Prod.exists] at h
    obtain ⟨w, r, hlead, rfl⟩ := h
    exact .lead hlead
  | step j =>
    simp only [happen, Option.map_eq_some_iff, Prod.exists] at h
    obtain ⟨w, r, hstep, rfl⟩ := h
    exact .step j hstep
  | cancel =>
    cases h
    exact .cancel
  | deed d =>
    cases h
    exact .others (hothers d rfl c.world)

theorem reaches_of_perform {others : Interference} {schedule : List Happening} {c c' : Scene}
    (hothers : ∀ d, .deed d ∈ schedule → ∀ w : World, others w (w.after d))
    (h : c.perform schedule = some c') : Reaches others c c' := by
  induction schedule generalizing c with
  | nil =>
    cases h
    exact .refl
  | cons e rest ih =>
    obtain ⟨d, hd, hrest⟩ := Option.bind_eq_some_iff.mp h
    refine .head (next_of_happen (fun x hx => hothers x ?_) hd)
      (ih (fun x hx => hothers x ?_) hrest)
    · exact hx ▸ List.mem_cons_self
    · exact List.mem_cons_of_mem _ hx

end Scene

end Workflow
