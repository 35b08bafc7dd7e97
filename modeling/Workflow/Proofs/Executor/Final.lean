/-
Workflow.Proofs.Executor.Final — a final record stays as it is.

Five operations write records, each behind a guard of its own: storing asks
whether the record is the same, a start and an end ask whether the move is
allowed, and a stop looks at the status. None of them relies on how the
record came to be there, so nothing is assumed of the registry.

* `Registry.KeepsFinal id stored` — a final record stays; if a record is
  stored in its place, outputs may take another form of the same value.
* `final_record_stays` — any history of calls, on any executor.
* `final_form_rewritten` — the form of an output is not kept: a zero may
  lose its sign.
-/
import Workflow.Proofs.Executor.Sound
import Workflow.Proofs.Generation.Same

namespace Workflow

namespace Registry

variable {r r' r'' : Registry} {id key : GenerationId} {n : Nat} {now : Timestamp} {stored : Prop}

/-- From `r` to `r'` a final record stays, with outputs that are the same,
and in the same form unless a record was stored in its place. -/
def KeepsFinal (id : GenerationId) (stored : Prop) (r r' : Registry) : Prop :=
  ∀ g, r.get? id = some g → g.isTerminal →
    ∃ outputs, r'.get? id = some { g with outputs } ∧
      Generation.SameOutputs g.outputs outputs ∧ (¬ stored → outputs = g.outputs)

theorem keepsFinal_of_get? (h : r'.get? id = r.get? id) : KeepsFinal id stored r r' := by
  intro g hg _
  exact ⟨g.outputs, h.trans hg, List.forall₂_same.mpr fun _ _ => Output.same_refl _, fun _ => rfl⟩

/-- Records that are kept twice are kept. -/
theorem KeepsFinal.trans (h : KeepsFinal id stored r r') (h' : KeepsFinal id stored r' r'') :
    KeepsFinal id stored r r'' := by
  intro g hg hfinal
  obtain ⟨outputs, hg', hsame, heq⟩ := h g hg hfinal
  obtain ⟨outputs', hg'', hsame', heq'⟩ := h' _ hg' hfinal
  exact ⟨outputs', hg'', Generation.sameOutputs_trans hsame hsame',
    fun hnot => (heq' hnot).trans (heq hnot)⟩

theorem KeepsFinal.mono {stored' : Prop} (h : KeepsFinal id stored r r')
    (hsub : stored → stored') : KeepsFinal id stored' r r' := by
  intro g hg hfinal
  obtain ⟨outputs, hg', hsame, heq⟩ := h g hg hfinal
  exact ⟨outputs, hg', hsame, fun hnot => heq (mt hsub hnot)⟩

/-! ## Operations -/

/-- A record that is not final may be replaced. -/
theorem keepsFinal_put {old : Generation} (hold : r.get? key = some old)
    (hopen : old.isTerminal = false) (g : Generation) : KeepsFinal id stored r (r.put key g) := by
  by_cases hkey : key = id
  · subst hkey
    intro k hk hfinal
    rw [hold, Option.some.injEq] at hk
    simp [← hk, hopen] at hfinal
  · exact keepsFinal_of_get? (Table.get?_insert_of_ne hkey)

/-- Storing over a final record is only accepted if the two are the same. -/
theorem set_keepsFinal {g : Generation} (h : r.set g = .ok r') :
    KeepsFinal id (g.id = id) r r' := by
  unfold Registry.set at h
  by_cases hid : g.id = id
  · subst hid
    intro k hk hfinal
    simp only [hk, hfinal, Bool.true_and, Bool.not_eq_true'] at h
    split at h
    · cases h
    · rename_i hsame
      cases h
      obtain ⟨outputs, rfl, houtputs⟩ := Generation.same_iff.mp (by simpa using hsame)
      exact ⟨outputs, Table.get?_insert_self .., houtputs, fun hne => absurd rfl hne⟩
  · have hput : r' = r.put g.id g := by
      split at h
      · exact (Except.ok.inj h).symm
      · split at h
        · cases h
        · exact (Except.ok.inj h).symm
    exact hput ▸ keepsFinal_of_get? (Table.get?_insert_of_ne hid)

/-- Only queued records are started. -/
theorem begin_keepsFinal {isStreaming : Bool} (h : r.begin key isStreaming now = .ok (r', n)) :
    KeepsFinal id stored r r' := by
  unfold Registry.begin at h
  split at h
  · cases h
  · rename_i record hrecord
    split at h
    · cases h
    · rename_i running hstart
      obtain ⟨hqueued, -⟩ := Generation.start_eq hstart
      have hopen : record.isTerminal = false := by
        simp [Generation.isTerminal, hqueued, GenerationStatus.isTerminal]
      simp only [Except.ok.injEq] at h
      obtain rfl := congrArg Prod.fst h
      exact (keepsFinal_put hrecord hopen running).trans (keepsFinal_of_get? get?_forget)

/-- Text touches no record. -/
theorem delta_keepsFinal (key : GenerationId) (text : String) :
    KeepsFinal id stored r (r.delta key text).1 := by
  refine keepsFinal_of_get? ?_
  unfold Registry.delta
  split
  · rfl
  · simp only
    split <;> rfl

/-- An end is refused by records that are final. -/
theorem resolve_keepsFinal (key : GenerationId) (result : WorkResult) (now : Timestamp) :
    KeepsFinal id stored r (r.resolve key result now).1 := by
  unfold Registry.resolve
  split
  · exact keepsFinal_of_get? rfl
  · exact keepsFinal_of_get? rfl
  · rename_i n record _ hrecord
    split
    · exact keepsFinal_of_get? rfl
    · rename_i final signal hsettle
      cases final with
      | none => exact keepsFinal_of_get? rfl
      | some g =>
        have hopen := ((settle_eq hsettle).1 g rfl).1
        exact (keepsFinal_put hrecord hopen g).trans (keepsFinal_of_get? rfl)

theorem finish_keepsFinal (key : GenerationId) (result : WorkResult) (now : Timestamp) :
    KeepsFinal id stored r (r.finish key result now).1 := by
  have hresolve : KeepsFinal id stored r (r.resolve key result now).1 :=
    resolve_keepsFinal key result now
  unfold Registry.finish
  split
  · rename_i r' heq
    rwa [heq] at hresolve
  · rename_i r' d heq
    rw [heq] at hresolve
    exact hresolve.trans (keepsFinal_of_get? rfl)

/-- A stop leaves final records as they are. -/
theorem stop_keepsFinal {wasLive : Bool} (h : r.stop key now = .ok (r', wasLive)) :
    KeepsFinal id stored r r' := by
  unfold Registry.stop at h
  split at h
  · cases h
  · rename_i record hrecord
    split at h
    · cases h
      exact keepsFinal_of_get? rfl
    · split at h
      · cases h
      · rename_i cancelled hcancel
        have hput : KeepsFinal id stored r (r.put key cancelled) :=
          keepsFinal_put hrecord (Generation.cancel_eq hcancel).1 cancelled
        split at h
        · cases h
          exact hput
        · cases h
          exact hput.trans (keepsFinal_of_get? get?_forget)

end Registry

namespace Executor

open Registry

variable {id : GenerationId}

/-- What the users of an executor and those who do its work may call. -/
inductive Call where
  | command (command : Command)
  | insertAll (generations : List Generation)
deriving Repr

/-- The executor after one call. -/
def call (x : Executor) (now : Timestamp) : Call → Executor
  | .command c => (x.run now c).1
  | .insertAll generations => (x.insertAll generations).1

/-- The executor after calls in order, each at its time. -/
def callAll (x : Executor) : List (Timestamp × Call) → Executor
  | [] => x
  | (now, c) :: rest => (x.call now c).callAll rest

/-- Whether a command offers a record to be stored under an identifier. -/
def Command.Stores (id : GenerationId) : Command → Prop
  | .set g => g.id = id
  | _ => False

/-- Whether a call offers a record to be stored under an identifier. -/
def Call.Stores (id : GenerationId) : Call → Prop
  | .command c => c.Stores id
  | .insertAll generations => ∃ g ∈ generations, g.id = id

/-- No command but one that stores the record changes a final one. -/
theorem run_keepsFinal (x : Executor) (now : Timestamp) (c : Command) :
    KeepsFinal id (c.Stores id) x.registry (x.run now c).1.registry := by
  have hwithin : c.Within now (fun _ _ => True) (KeepsFinal id (c.Stores id)) :=
    { refl := fun _ => keepsFinal_of_get? rfl
      trans := KeepsFinal.trans
      set := by
        rintro r r' g rfl hr
        exact set_keepsFinal hr
      start := fun _ hr => begin_keepsFinal hr
      stop := fun _ hr => stop_keepsFinal hr
      delta := fun _ key text => delta_keepsFinal key text
      finish := fun _ key result _ => finish_keepsFinal key result now }
  exact hwithin.run x fun _ _ _ _ => trivial

theorem insertAll_keepsFinal (x : Executor) (generations : List Generation) :
    KeepsFinal id (∃ g ∈ generations, g.id = id) x.registry
      (x.insertAll generations).1.registry := by
  induction generations generalizing x with
  | nil => exact keepsFinal_of_get? rfl
  | cons g rest ih =>
    unfold insertAll
    split
    · exact keepsFinal_of_get? rfl
    · rename_i x' h
      obtain ⟨r, hr, rfl⟩ := set_eq h
      have hfirst : KeepsFinal id (∃ k ∈ g :: rest, k.id = id) x.registry r :=
        (set_keepsFinal hr).mono fun hid => ⟨g, List.mem_cons_self, hid⟩
      refine hfirst.trans ((ih { x with registry := r }).mono ?_)
      rintro ⟨k, hk, hid⟩
      exact ⟨k, List.mem_cons_of_mem g hk, hid⟩

theorem call_keepsFinal (x : Executor) (now : Timestamp) (c : Call) :
    KeepsFinal id (c.Stores id) x.registry (x.call now c).registry := by
  cases c with
  | command c => exact run_keepsFinal x now c
  | insertAll generations => exact insertAll_keepsFinal x generations

theorem callAll_keepsFinal (x : Executor) (calls : List (Timestamp × Call)) :
    KeepsFinal id (∃ e ∈ calls, e.2.Stores id) x.registry (x.callAll calls).registry := by
  induction calls generalizing x with
  | nil => exact keepsFinal_of_get? rfl
  | cons e rest ih =>
    have hfirst : KeepsFinal id (∃ d ∈ e :: rest, d.2.Stores id) x.registry
        (x.call e.1 e.2).registry :=
      (call_keepsFinal x e.1 e.2).mono fun hid => ⟨e, List.mem_cons_self, hid⟩
    refine hfirst.trans ((ih (x.call e.1 e.2)).mono ?_)
    rintro ⟨d, hd, hid⟩
    exact ⟨d, List.mem_cons_of_mem e hd, hid⟩

/-- **Final records stay.** Whatever is called, in whichever order and for
whichever identifiers, a final record keeps every field: its outputs stay the
same one by one, and they keep their form as well unless a record is offered
to be stored in its place. -/
theorem final_record_stays (x : Executor) (calls : List (Timestamp × Call)) {g : Generation}
    (hg : x.get? id = some g) (hfinal : g.isTerminal) :
    ∃ outputs, (x.callAll calls).get? id = some { g with outputs } ∧
      Generation.SameOutputs g.outputs outputs ∧
      ((∀ e ∈ calls, ¬ e.2.Stores id) → outputs = g.outputs) := by
  obtain ⟨outputs, hg', hsame, heq⟩ := callAll_keepsFinal x calls g hg hfinal
  refine ⟨outputs, hg', hsame, fun hnone => heq ?_⟩
  rintro ⟨e, he, hid⟩
  exact hnone e he hid

/-- A completed record whose only output is a zero. -/
def sampleZero (negative : Bool) : Generation :=
  { (default : Generation) with
    id := ⟨"gnr-1"⟩
    status := .completed
    outputs := [.json ⟨"out"⟩ (.float { Double.zero with negative })] }

/-- All that could change a record whose output is a negative zero. -/
def sampleCalls : List (Timestamp × Call) :=
  let id : GenerationId := ⟨"gnr-1"⟩
  [.insertAll [sampleZero false, { sampleZero false with error := some "late" }],
    .command (.set { sampleZero true with status := .queued }), .command (.start id true),
    .command (.report 0 (.ok [])), .command (.stop id)].map (default, ·)

theorem sample_final_record_stays :
    let x := (ofWorkers []).call default (.command (.set (sampleZero true)))
    (x.get? ⟨"gnr-1"⟩ = some (sampleZero true) ∧ (sampleZero true).isTerminal) ∧
    ∃ outputs, (x.callAll sampleCalls).get? ⟨"gnr-1"⟩ = some { sampleZero true with outputs } ∧
      Generation.SameOutputs (sampleZero true).outputs outputs ∧
      ((∀ e ∈ sampleCalls, ¬ e.2.Stores ⟨"gnr-1"⟩) → outputs = (sampleZero true).outputs) := by
  intro x
  have hg : x.get? ⟨"gnr-1"⟩ = some (sampleZero true) ∧ (sampleZero true).isTerminal := by
    decide +kernel
  exact ⟨hg, final_record_stays x sampleCalls hg.1 hg.2⟩

/-- A final record is not kept field by field: the record of a negative zero
gives way to that of a positive one, which is the same by value. -/
theorem final_form_rewritten :
    ¬ ∀ (operations : List Operation) (before later : List (Timestamp × Call))
      (id : GenerationId) (g : Generation),
      ((ofWorkers operations).callAll before).get? id = some g → g.isTerminal →
      ((ofWorkers operations).callAll (before ++ later)).get? id = some g := by
  intro hkept
  have hzero := hkept [] [(default, .command (.set (sampleZero true)))]
    [(default, .command (.set (sampleZero false)))] ⟨"gnr-1"⟩ (sampleZero true)
    (by decide +kernel) (by decide)
  exact absurd hzero (by decide +kernel)

end Executor

end Workflow
