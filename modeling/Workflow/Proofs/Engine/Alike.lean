/-
Workflow.Proofs.Engine.Alike — a run in two worlds.

Two worlds are alike if the second one lacks what the run of another act
does: they show the same of all other acts, and their executors are alike.
A run is alike in both if it stands at the same point, listens to flights of
the same starts and has done the same.

* `Run.Led.alike`, `Run.stepMove_alike` — a move of the run in the first world
  is a move in the second, and leaves both worlds and both runs alike.
* `Run.Led.left`, `Run.stepMove_left` — a move of the other act's run in the
  first world changes nothing of this.
-/
import Workflow.Proofs.Engine.Agreement
import Workflow.Proofs.Engine.Forecast
import Workflow.Proofs.Executor.Alike

namespace Workflow

open Registry

/-! ## Stores -/

namespace Store

variable {s s' t : Store} {id key : ActId} {patches : List Patch}

/-- The stores show the same of all acts but one. -/
def Alike (other : ActId) (s t : Store) : Prop := ∀ id, id ≠ other → s.view id = t.view id

/-- A batch for one act is not seen at another. -/
theorem view_of_apply (h : s.apply id patches = .ok s') (hne : id ≠ key) :
    s'.view key = s.view key := by
  unfold apply at h
  split at h
  · cases h
  · split at h
    · cases h
    · split at h
      · cases h
      · cases h
        simp [view, get?, logOf, Table.get?_insert, hne]

variable {other : ActId}

/-- A batch for an act that both stores show is accepted by both or by none. -/
theorem Alike.apply (h : s.Alike other t) (hid : id ≠ other) (patches : List Patch) :
    Both (Alike other) (s.apply id patches) (t.apply id patches) := by
  have hviews : Both (fun s' t' => s.apply id patches = .ok s' ∧ t.apply id patches = .ok t' ∧
      s'.view id = t'.view id) (s.apply id patches) (t.apply id patches) :=
    .of_map_eq (by rw [← view_apply, ← view_apply, h id hid])
  refine hviews.imp fun s' t' hst key hkey => ?_
  by_cases hne : id = key
  · exact hne ▸ hst.2.2
  · rw [view_of_apply hst.1 hne, view_of_apply hst.2.1 hne, h key hkey]

theorem Alike.apply_left (h : s.Alike other t) (hs : s.apply other patches = .ok s') :
    s'.Alike other t := fun key hkey =>
  (view_of_apply hs (Ne.symm hkey)).trans (h key hkey)

/-- The act that a command is about. -/
def Command.act : Command → ActId
  | .insert act => act.id
  | .get id | .log id | .apply id _ => id

/-- An inserted act is seen at its own identifier, with an empty log. -/
theorem view_insert (act : Act) :
    (s.insert act).view key = if act.id = key then ⟨some act, [], s.isClosed⟩ else s.view key := by
  simp only [view, get?, logOf, insert, Table.get?_insert]
  split <;> rfl

/-- A command about one act is not seen at another. -/
theorem view_run_of_ne {c : Command} (hne : c.act ≠ key) : (s.run c).1.view key = s.view key := by
  unfold run
  split
  · rfl
  · cases c with
    | insert act => exact (view_insert act).trans (if_neg hne)
    | get id => rfl
    | log id => rfl
    | apply id patches =>
      cases hs : s.apply id patches with
      | error e => simp only [hs]
      | ok s' => simpa only [hs] using view_of_apply hs hne

/-- Commands about acts that both stores show. -/
theorem Alike.run (h : s.Alike other t) {c : Command} (hc : c.act ≠ other) :
    (s.run c).1.Alike other (t.run c).1 := by
  intro key hkey
  by_cases hne : c.act = key
  · have hview := h key hkey
    have hclosed : s.isClosed = t.isClosed := congrArg View.isClosed hview
    unfold Store.run
    rw [hclosed]
    split
    · exact hview
    · cases c with
      | insert act => rw [view_insert, view_insert, hclosed, hview]
      | get id => exact hview
      | log id => exact hview
      | apply id patches =>
        have happly : Both (Alike other) (s.apply id patches) (t.apply id patches) :=
          h.apply hc patches
        simp only
        generalize s.apply id patches = u, t.apply id patches = v at happly ⊢
        cases happly with
        | error e => exact hview
        | ok hst => exact hst key hkey
  · rw [view_run_of_ne hne, view_run_of_ne hne, h key hkey]

theorem Alike.run_left (h : s.Alike other t) {c : Command} (hc : c.act = other) :
    (s.run c).1.Alike other t := fun key hkey =>
  (view_run_of_ne (hc ▸ Ne.symm hkey)).trans (h key hkey)

end Store

/-! ## Worlds -/

/-- The second world lacks what the run of another act does, which began
when the registry was `before`. -/
structure World.Alike (other : Act) (before : Registry) (w v : World) : Prop where
  clock_eq : w.clock = v.clock
  /-- The stores differ in the other act only. -/
  store : w.store.Alike other.id v.store
  executor : Executor.Alike ⟨other.generations, before⟩ w.executor v.executor

/-! ## Steps

A step of the run is in flight with different flights in the two worlds. They
are the same start, seen from its generation. -/

namespace Activity

/-- A step stands at the same point in both, and listens to the same
flight. -/
inductive Alike (o : Executor.Foreign) (r s : Registry) : Activity → Activity → Prop
  | waiting (record : Generation) : Alike o r s (.waiting record) (.waiting record)
  | announced (since : Nat) : Alike o r s (.announced since) (.announced since)
  | flying {a : Start} {n m : Nat} (since taken : Nat) (isStopped : Bool)
    (ha : a.1 ∉ o.generations) (hn : r.startOf? n = some a) (hm : s.startOf? m = some a) :
    Alike o r s (.flying since n taken isStopped) (.flying since m taken isStopped)
  | refused (since : Nat) (message : String) :
    Alike o r s (.refused since message) (.refused since message)
  | ended (report : StepReport) : Alike o r s (.ended report) (.ended report)

variable {o : Executor.Foreign} {r r' s s' : Registry} {a a' b : Activity}

/-- A step keeps its place as registries go on. -/
theorem Alike.grows (h : Alike o r s a b) (hr : r.Grows r') (hs : s.Grows s') :
    Alike o r' s' a b := by
  cases h with
  | flying since taken isStopped ha hn hm =>
    exact .flying since taken isStopped ha (hr.startOf? hn) (hs.startOf? hm)
  | waiting record => exact .waiting record
  | announced since => exact .announced since
  | refused since message => exact .refused since message
  | ended report => exact .ended report

theorem Alike.report?_eq (h : Alike o r s a b) : a.report? = b.report? := by
  cases h <;> rfl

variable {x x' y : Executor} {clock : Nat} {isCancelled : Bool} {p : PlacedStep}
  {es : List Entry}

/-- A failure is recorded in both, or in none. -/
theorem recordFailure_alike (h : Executor.Alike o x y) {id : GenerationId}
    (hid : id ∉ o.generations) (message : String) (now : Timestamp) :
    Executor.Alike o (recordFailure x id message now).1 (recordFailure y id message now).1 ∧
      (recordFailure x id message now).2 = (recordFailure y id message now).2 := by
  unfold recordFailure
  rw [h.get?_eq hid]
  cases hget : y.get? id with
  | none => exact ⟨h, rfl⟩
  | some record =>
    have hkey : record.id = id := h.right_sound.key_eq id record hget
    simp only
    split
    · exact ⟨h, rfl⟩
    · cases hfail : record.fail message now with
      | error e => exact ⟨h, rfl⟩
      | ok failed =>
        have hfailed : failed.id ∉ o.generations := by
          rw [(Generation.fail_eq hfail).2]
          exact hkey ▸ hid
        refine ⟨?_, rfl⟩
        have hset := h.set hfailed
        simp only
        generalize x.set failed = u, y.set failed = v at hset ⊢
        cases hset with
        | error e => exact h
        | ok h' => exact h'

/-- What a step makes of the next signal is the same for the same flight. -/
theorem listen_alike (h : Executor.Alike o x y) (clock : Nat) (p : PlacedStep) {a : Start}
    (ha : a.1 ∉ o.generations) {n m : Nat} (hn : x.registry.startOf? n = some a)
    (hm : y.registry.startOf? m = some a) (since taken : Nat) (isStopped : Bool) :
    Option.Rel (fun u v => Alike o x.registry y.registry u.1 v.1 ∧ u.2 = v.2)
      (listen x clock p since n taken isStopped) (listen y clock p since m taken isStopped) := by
  unfold listen
  rw [h.flights_eq ha hn hm]
  cases y.registry.flights[m]? with
  | none => exact .none
  | some f =>
    simp only
    cases f.heard[taken]? with
    | none =>
      simp only
      split
      · exact .none
      · exact .some ⟨.ended _, rfl⟩
    | some signal =>
      cases signal with
      | delta text => exact .some ⟨.flying since (taken + 1) isStopped ha hn hm, rfl⟩
      | completed record => exact .some ⟨.ended _, rfl⟩
      | failed record => exact .some ⟨.ended _, rfl⟩
      | broken message => exact .some ⟨.refused since message, rfl⟩

/-- What a step does in both worlds: the same, and both stay alike. -/
def Together (o : Executor.Foreign) (u v : Executor × Activity × List Entry) : Prop :=
  Executor.Alike o u.1 v.1 ∧ Alike o u.1.registry v.1.registry u.2.1 v.2.1 ∧ u.2.2 = v.2.2

/-- A step advances in both by the same move. -/
theorem advance_alike (h : Executor.Alike o x y) (hab : Alike o x.registry y.registry a b)
    (hid : p.step.generation ∉ o.generations)
    (hrecord : ∀ record, a = .waiting record → record.id ∉ o.generations) :
    Option.Rel (Together o) (a.advance x clock isCancelled p)
      (b.advance y clock isCancelled p) := by
  cases hab with
  | waiting record =>
    simp only [advance]
    split
    · exact .some ⟨h, .ended _, rfl⟩
    · cases hq : record.queue (.ofMillis clock) with
      | error e => exact .some ⟨h, .refused .., rfl⟩
      | ok queued =>
        -- queueing keeps the identifier
        have hqueued : queued.id ∉ o.generations := by
          rw [(Generation.queue_eq hq).2]
          exact hrecord record rfl
        have hset := h.set hqueued
        simp only
        generalize x.set queued = u, y.set queued = v at hset ⊢
        cases hset with
        | error e => exact .some ⟨h, .refused .., rfl⟩
        | ok h' => exact .some ⟨h', .announced _, rfl⟩
  | announced since =>
    have hstart := h.start hid p.step.operation.isStreaming (.ofMillis clock)
    simp only [advance]
    generalize x.start p.step.generation p.step.operation.isStreaming (.ofMillis clock) = u,
      y.start p.step.generation p.step.operation.isStreaming (.ofMillis clock) = v at hstart ⊢
    cases hstart with
    | error e => exact .some ⟨h, .refused .., rfl⟩
    | ok h' =>
      obtain ⟨h', k, hn, hm⟩ := h'
      exact .some ⟨h', .flying since 0 false hid hn hm, rfl⟩
  | @flying i n m since taken isStopped ha hn hm =>
    simp only [advance]
    split
    · have hstop := h.stopped hid (.ofMillis clock)
      refine .some ⟨hstop.1, ?_, rfl⟩
      exact .flying since taken true ha (hstop.2.1.startOf? hn) (hstop.2.2.startOf? hm)
    · have hlisten := listen_alike h clock p ha hn hm since taken isStopped
      generalize listen x clock p since n taken isStopped = u,
        listen y clock p since m taken isStopped = v at hlisten ⊢
      cases hlisten with
      | none => exact .none
      | some huv => exact .some ⟨h, huv.1, huv.2⟩
  | refused since message =>
    obtain ⟨hrecorded, hentries⟩ := recordFailure_alike h hid message (.ofMillis clock)
    refine .some ⟨hrecorded, .ended _, ?_⟩
    exact congrArg (· ++ _) hentries
  | ended report => exact .none

/-- A step takes nothing back from the registry. -/
theorem Advanced.grows (h : Advanced x clock isCancelled p a x' a' es) (hs : x.registry.Sound) :
    x.registry.Grows x'.registry := by
  cases h with
  | announce hi hq hx => exact (Executor.set_sound hs hx).2
  | start hx => exact (Executor.start_sound hs hx).2.1
  | stop hi =>
    cases hstop : x.stop p.step.generation (.ofMillis clock) with
    | error e => exact .refl _
    | ok x' => exact (Executor.stop_sound hs hstop).2
  | settle hr => exact (recordFailure_sound hs hr).2.1
  | _ => exact .refl _

/-- A move of a step of the other act in the first world. -/
theorem Advanced.left (h : Executor.Alike o x y) (hid : p.step.generation ∈ o.generations)
    (hrecord : ∀ record, a = .waiting record → record.id ∈ o.generations)
    (ha : Advanced x clock isCancelled p a x' a' es) : Executor.Alike o x' y := by
  cases ha with
  | @announce record queued x' hi hq hx =>
    refine h.set_left ?_ hx
    rw [(Generation.queue_eq hq).2]
    exact hrecord record rfl
  | start hx => exact h.start_left hid hx
  | stop hi =>
    cases hstop : x.stop p.step.generation (.ofMillis clock) with
    | error e => exact h
    | ok x' => exact h.stop_left hid hstop
  | settle hr =>
    rcases set_of_recordFailure h.left_sound hr with rfl | ⟨failed, hfailed, hset⟩
    · exact h
    · exact h.set_left (hfailed ▸ hid) hset
  | _ => exact h

end Activity

/-! ## Runs

Outside a sequence two runs that are alike are equal. Inside one they differ
in the flights of their steps only. -/

/-- The record that a step holds on to. -/
def Activity.record? : Activity → Option Generation
  | .waiting record => some record
  | _ => none

/-- The records that a run holds on to. -/
def Control.records : Control → List Generation
  | .opening _ records => records
  | .running _ _ steps => steps.filterMap (·.record?)
  | _ => []

namespace Run

/-- The records that a run holds on to are of generations of its act. -/
def Owns (r : Run) : Prop := ∀ g ∈ r.control.records, g.id ∈ r.act.generations

variable {w w' v : World} {r r' q : Run}

theorem owns_of_nil (h : r.control.records = []) : r.Owns := by
  intro g hg
  rw [h] at hg
  cases hg

/-- An accepted or refused batch leaves the records to the continuation. -/
theorem owns_of_send {patches : List Patch} {next : Run → Run}
    (h : send w r patches next = (w', r')) (hnext : (next (r.record [.batch patches none])).Owns) :
    r'.Owns := by
  rcases send_eq h with ⟨store, -, -, rfl⟩ | ⟨e, -, -, rfl⟩
  · exact hnext
  · exact owns_of_nil rfl

theorem records_judge (r : Run) (k : Nat) (tally : Tally) : (r.judge k tally).records = [] := by
  rcases r.judge_eq k tally with ⟨hj, -⟩ | ⟨hj, -⟩ | ⟨hj, -⟩ <;> rw [hj] <;> rfl

/-- Opening and closing only take up records of the act's own generations. -/
theorem Led.owns (hs : w.executor.registry.Sound) (h : Led w r w' r') (hr : r.Owns) : r'.Owns := by
  cases h with
  | begin hc hs hsend => exact owns_of_send hsend (owns_of_nil rfl)
  | @found k records s step g hc hs' hstep hg hstatus =>
    have hhas : r.act.Has ⟨k, records.length, step⟩ := by
      rw [Act.Has, Act.step?, hs']
      exact hstep
    have hid : g.id = step.generation := hs.key_eq _ _ hg
    intro g' hg'
    rcases List.mem_append.mp hg' with hold | hnew
    · exact hr g' (by rwa [hc])
    · rw [List.mem_singleton.mp hnew, hid]
      exact hhas.mem_generations
  | @«open» k records s _ _ hc hs hall hsend =>
    refine owns_of_send hsend fun g hg => hr g ?_
    have hmap : (records.map Activity.waiting).filterMap (·.record?) = records := by
      rw [List.filterMap_map]
      exact List.filterMap_some
    rw [hc]
    rwa [goto_control, Control.records, hmap] at hg
  | close hc hs hreports hsend => exact owns_of_send hsend (owns_of_nil rfl)
  | judge hc => exact owns_of_nil (records_judge ..)
  | finish hc ho hsend => exact owns_of_send hsend (owns_of_nil rfl)
  | abort hc hsend => exact owns_of_nil rfl
  | _ => exact owns_of_nil rfl

/-- A step that has moved holds on to no record. -/
theorem record?_of_advanced {x x' : Executor} {clock : Nat} {isCancelled : Bool} {p : PlacedStep}
    {a a' : Activity} {es : List Entry} (h : Activity.Advanced x clock isCancelled p a x' a' es) :
    a'.record? = none := by
  cases h <;> rfl

/-- A step takes up no record that is not its own. -/
theorem owns_of_stepMove {j : Nat} (h : r.stepMove w j = some (w', r')) (hr : r.Owns) :
    r'.Owns := by
  obtain ⟨k, since, steps, s, step, a, x, a', es, hc, -, -, -, hadvance, -, rfl⟩ := stepMove_eq h
  have hnone := record?_of_advanced (Activity.advanced_of_advance hadvance)
  intro g hg
  obtain ⟨b, hb, hrecord⟩ := List.mem_filterMap.mp hg
  rcases List.mem_or_eq_of_mem_set hb with hold | rfl
  · refine hr g ?_
    rw [hc]
    exact List.mem_filterMap.mpr ⟨b, hold, hrecord⟩
  · rw [hnone] at hrecord
    cases hrecord

end Run

/-- A run stands at the same point in both. -/
inductive Control.Alike (o : Executor.Foreign) (x y : Registry) : Control → Control → Prop
  | same {c : Control} (h : ∀ k since steps, c ≠ .running k since steps) : Alike o x y c c
  | running (k since : Nat) {steps steps' : List Activity}
    (h : List.Forall₂ (Activity.Alike o x y) steps steps') :
    Alike o x y (.running k since steps) (.running k since steps')

theorem Control.Alike.grows {o : Executor.Foreign} {x x' y y' : Registry} {c d : Control}
    (h : Control.Alike o x y c d) (hx : x.Grows x') (hy : y.Grows y') :
    Control.Alike o x' y' c d := by
  cases h with
  | same hc => exact .same hc
  | running k since hsteps => exact .running k since (hsteps.imp fun _ _ hab => hab.grows hx hy)

/-- A run is the same in both but for the numbers of its flights. -/
structure Run.Alike (o : Executor.Foreign) (x y : Registry) (r q : Run) : Prop where
  eq_goto : q = r.goto q.control
  control : Control.Alike o x y r.control q.control

namespace Run

variable {w w' v : World} {r r' q : Run} {o : Executor.Foreign} {x x' y y' : Registry}

namespace Alike

theorem act_eq (h : Alike o x y r q) : q.act = r.act := by rw [h.eq_goto, goto_act]

theorem journal_eq (h : Alike o x y r q) : q.journal = r.journal := by rw [h.eq_goto, goto_journal]

/-- Outside a sequence, runs that are alike are equal. -/
theorem eq_of_control (h : Alike o x y r q) {c : Control} (hc : r.control = c)
    (hother : ∀ k since steps, c ≠ .running k since steps) : q = r := by
  have hcontrol := h.control
  have heq := h.eq_goto
  rw [hc] at hcontrol
  generalize q.control = d at hcontrol heq
  cases hcontrol with
  | same _ => rw [heq, ← hc]; rfl
  | running k since hsteps => exact absurd rfl (hother k since _)

/-- Inside a sequence, their steps are alike one by one. -/
theorem running_of_control (h : Alike o x y r q) {k since : Nat} {steps : List Activity}
    (hc : r.control = .running k since steps) : ∃ steps', q.control = .running k since steps' ∧
      List.Forall₂ (Activity.Alike o x y) steps steps' := by
  have hcontrol := h.control
  rw [hc] at hcontrol
  generalize q.control = d at hcontrol
  cases hcontrol with
  | same hother => exact absurd rfl (hother k since steps)
  | running k since hsteps => exact ⟨_, rfl, hsteps⟩

/-- A run stays alike under each of the things that it does to itself, if both
do it. -/
theorem record (h : Alike o x y r q) (es : List Entry) : Alike o x y (r.record es) (q.record es) :=
  ⟨congrArg (·.record es) h.eq_goto, h.control⟩

theorem note (h : Alike o x y r q) (n : Notice) : Alike o x y (r.note n) (q.note n) :=
  h.record [.notice n]

theorem goto (h : Alike o x y r q) {c d : Control} (hcd : Control.Alike o x y c d) :
    Alike o x y (r.goto c) (q.goto d) :=
  ⟨congrArg (·.goto d) h.eq_goto, hcd⟩

theorem refl (h : ∀ k since steps, r.control ≠ .running k since steps) : Alike o x y r r :=
  ⟨rfl, .same h⟩

theorem cancel (h : Alike o x y r q) : Alike o x y r.cancel q.cancel :=
  ⟨congrArg Run.cancel h.eq_goto, h.control⟩

theorem grows (h : Alike o x y r q) (hx : x.Grows x') (hy : y.Grows y') : Alike o x' y' r q :=
  ⟨h.eq_goto, h.control.grows hx hy⟩

end Alike

variable {other : Act} {before : Registry}

/-- A batch is accepted in both worlds or in none. -/
theorem send_alike (hw : w.Alike other before v) (hid : r.act.id ≠ other.id)
    (hr : Alike o x y r q) {patches : List Patch} {next : Run → Run}
    (h : send w r patches next = (w', r'))
    (hnext : Alike o x y (next (r.record [.batch patches none]))
      (next (q.record [.batch patches none]))) :
    ∃ v' q', send v q patches next = (v', q') ∧ w'.Alike other before v' ∧ Alike o x y r' q' := by
  have happly := hw.store.apply hid patches
  unfold send at h ⊢
  rw [hr.act_eq]
  generalize w.store.apply r.act.id patches = s, v.store.apply r.act.id patches = t at happly h ⊢
  cases happly with
  | error e =>
    cases h
    exact ⟨v, _, rfl, hw, (hr.record _).goto (.same fun _ _ _ h => by cases h)⟩
  | @ok s t hst =>
    cases h
    exact ⟨{ v with store := t }, _, rfl, ⟨hw.clock_eq, hst, hw.executor⟩, hnext⟩

/-- Every move of the run itself is made when its conditions are met. -/
theorem lead_of_led (h : Led w r w' r') : r.lead w = some (w', r') := by
  cases h with
  | refuse hc hs => simp [lead, hc, hs]
  | begin hc hs hsend => simp [lead, hc, hs, hsend]
  | skip hc hk hi => simp [lead, hc, hk, hi]
  | enter hc hk hi => simp [lead, hc, hk, hi]
  | complete hc hk => simp [lead, hc, Nat.not_lt.mpr hk]
  | missing hc hs hstep hg => simp [lead, lookUp, hc, hs, hstep, hg]
  | unexpected hc hs hstep hg hstatus => simp [lead, lookUp, hc, hs, hstep, hg, hstatus]
  | found hc hs hstep hg hstatus => simp [lead, lookUp, hc, hs, hstep, hg, hstatus]
  | «open» hc hs hall hsend => 
    simp [lead, lookUp, hc, hs, List.getElem?_eq_none hall, hsend]
  | close hc hs hreports hsend => simp [lead, hc, hs, hreports, hsend]
  | judge hc => simp [lead, hc]
  | finish hc ho hsend => 
    subst ho
    simp only [lead, hc]
    exact congrArg some hsend
  | abort hc hsend => simp [lead, hc, hsend]

/-- The generation of a step that the run comes to. -/
theorem generation_mem {k j : Nat} {s : Sequence} {step : Step}
    (hs : r.act.sequences[k]? = some s) (hstep : s.steps[j]? = some step) :
    step.generation ∈ r.act.generations := by
  have hhas : r.act.Has ⟨k, j, step⟩ := by
    rw [Act.Has, Act.step?, hs]
    exact hstep
  exact hhas.mem_generations

/-- Sequences that are alike end at the same moment with the same reports. -/
theorem mapM_report?_eq {steps steps' : List Activity}
    (h : List.Forall₂ (Activity.Alike o x y) steps steps') :
    steps.mapM (·.report?) = steps'.mapM (·.report?) := by
  induction h with
  | nil => rfl
  | cons hab _ ih => rw [List.mapM_cons, List.mapM_cons, hab.report?_eq, ih]

/-- A move of the run itself in both worlds. -/
theorem Led.alike (hw : w.Alike other before v) (hr : Alike o x y r q)
    (hid : r.act.id ≠ other.id) (hgenerations : r.act.generations.Disjoint other.generations)
    (h : Led w r w' r') :
    ∃ v' q', Led v q v' q' ∧ w'.Alike other before v' ∧ Alike o x y r' q' := by
  -- the run looks up its own generations only, and these are the same in both worlds
  have hget {k j : Nat} {s : Sequence} {step : Step} (hs : r.act.sequences[k]? = some s)
      (hstep : s.steps[j]? = some step) :
      w.executor.get? step.generation = v.executor.get? step.generation :=
    hw.executor.get?_eq fun hmem => hgenerations (generation_mem hs hstep) hmem
  cases h with
  | refuse hc hs =>
    obtain rfl := hr.eq_of_control hc nofun
    exact ⟨v, _, .refuse hc hs, hw, .refl nofun⟩
  | begin hc hs hsend =>
    obtain rfl := hr.eq_of_control hc nofun
    obtain ⟨v', q', hsend', hw', hr'⟩ := send_alike hw hid hr hsend (.refl nofun)
    exact ⟨v', q', .begin hc hs hsend', hw', hr'⟩
  | skip hc hk hi =>
    obtain rfl := hr.eq_of_control hc nofun
    exact ⟨v, _, .skip hc hk hi, hw, .refl nofun⟩
  | enter hc hk hi =>
    obtain rfl := hr.eq_of_control hc nofun
    exact ⟨v, _, .enter hc hk hi, hw, .refl nofun⟩
  | complete hc hk =>
    obtain rfl := hr.eq_of_control hc nofun
    exact ⟨v, _, .complete hc hk, hw, .refl nofun⟩
  | missing hc hs hstep hg =>
    obtain rfl := hr.eq_of_control hc nofun
    exact ⟨v, _, .missing hc hs hstep (hget hs hstep ▸ hg), hw, .refl nofun⟩
  | unexpected hc hs hstep hg hstatus =>
    obtain rfl := hr.eq_of_control hc nofun
    exact ⟨v, _, .unexpected hc hs hstep (hget hs hstep ▸ hg) hstatus, hw, .refl nofun⟩
  | found hc hs hstep hg hstatus =>
    obtain rfl := hr.eq_of_control hc nofun
    exact ⟨v, _, .found hc hs hstep (hget hs hstep ▸ hg) hstatus, hw, .refl nofun⟩
  | @«open» k records s _ _ hc hs hall hsend =>
    obtain rfl := hr.eq_of_control hc nofun
    -- steps that wait hold on to records, which do not depend on the world
    have hwaiting : List.Forall₂ (Activity.Alike o x y) (records.map .waiting)
        (records.map .waiting) :=
      List.forall₂_same.mpr fun a ha => by
        obtain ⟨record, -, rfl⟩ := List.mem_map.mp ha
        exact .waiting record
    obtain ⟨v', q', hsend', hw', hr'⟩ := send_alike hw hid hr hsend
      (((hr.record _).note (.sequenceStart k s)).goto (.running k w.clock hwaiting))
    rw [hw.clock_eq] at hsend'
    exact ⟨v', q', .open hc hs hall hsend', hw', hr'⟩
  | @close k since steps s reports _ _ hc hs hreports hsend =>
    obtain ⟨steps', hc', hsteps⟩ := hr.running_of_control hc
    have hreports' := (mapM_report?_eq hsteps).symm.trans hreports
    obtain ⟨v', q', hsend', hw', hr'⟩ := send_alike hw hid hr hsend
      (((hr.record _).note (.sequenceFinish k s (Tally.ofReports reports).status)).goto
        (.same (c := .closed k (Tally.ofReports reports)) nofun))
    rw [hw.clock_eq] at hsend'
    exact ⟨v', q', .close hc' (hr.act_eq ▸ hs) hreports' hsend', hw', hr'⟩
  | @judge k tally hc =>
    obtain rfl := hr.eq_of_control hc nofun
    refine ⟨v, _, .judge hc, hw, .refl ?_⟩
    rcases q.judge_eq k tally with ⟨hj, -⟩ | ⟨hj, -⟩ | ⟨hj, -⟩ <;> rw [goto_control, hj] <;> nofun
  | finish hc ho hsend =>
    obtain rfl := hr.eq_of_control hc nofun
    obtain ⟨v', q', hsend', hw', hr'⟩ := send_alike (r := q.record _) hw hid (hr.record _)
      hsend (.refl nofun)
    rw [hw.clock_eq] at ho
    exact ⟨v', q', .finish hc ho hsend', hw', hr'⟩
  | @abort e _ _ hc hsend =>
    obtain rfl := hr.eq_of_control hc nofun
    obtain ⟨v', q', hsend', hw', hr'⟩ := send_alike hw hid hr hsend (hr.record _)
    rw [hw.clock_eq] at hsend' ⊢
    exact ⟨v', _, .abort hc hsend', hw', (hr'.note _).goto (.same nofun)⟩

/-- A move of a step in both worlds. -/
theorem stepMove_alike (hw : w.Alike other before v)
    (hr : Alike ⟨other.generations, before⟩ w.executor.registry v.executor.registry r q)
    (howns : r.Owns) (hgenerations : r.act.generations.Disjoint other.generations) {j : Nat}
    (h : r.stepMove w j = some (w', r')) :
    ∃ v' q', q.stepMove v j = some (v', q') ∧ w'.Alike other before v' ∧
      Alike ⟨other.generations, before⟩ w'.executor.registry v'.executor.registry r' q' := by
  obtain ⟨k, since, steps, s, step, a, x, a', es, hc, hs, hstep, ha, hadvance, rfl, rfl⟩ :=
    stepMove_eq h
  obtain ⟨steps', hc', hsteps⟩ := hr.running_of_control hc
  obtain ⟨b, hb, hab⟩ := forall₂_getElem? hsteps ha
  -- the record that a step holds on to is one of the run's own
  have hrecord : ∀ record, a = .waiting record → record.id ∉ other.generations := by
    rintro record rfl hmem
    refine hgenerations (howns record ?_) hmem
    rw [hc]
    exact List.mem_filterMap.mpr ⟨_, List.mem_of_getElem? ha, rfl⟩
  have hid : step.generation ∉ other.generations := fun hmem =>
    hgenerations (generation_mem hs hstep) hmem
  have htogether : Option.Rel (Activity.Together ⟨other.generations, before⟩)
      (a.advance w.executor w.clock r.isCancelled ⟨k, j, step⟩)
      (b.advance v.executor w.clock r.isCancelled ⟨k, j, step⟩) :=
    Activity.advance_alike hw.executor hab hid hrecord
  rw [hadvance] at htogether
  generalize hv : b.advance v.executor w.clock r.isCancelled ⟨k, j, step⟩ = u at htogether
  cases htogether with
  | @some _ u htogether =>
    obtain ⟨y, b', es'⟩ := u
    obtain ⟨hxy, hab', rfl⟩ := htogether
    have hx := (Activity.advanced_of_advance hadvance).grows hw.executor.left_sound
    have hy := (Activity.advanced_of_advance hv).grows hw.executor.right_sound
    -- the other steps stay alike, since both registries only grow
    have hsteps' := forall₂_set (hsteps.imp fun _ _ hab => hab.grows hx hy) hab' j
    refine ⟨v.withExecutor y, _, ?_, ⟨hw.clock_eq, hw.store, hxy⟩,
      ((hr.grows hx hy).record es).goto (.running k since hsteps')⟩
    have hcancelled : q.isCancelled = r.isCancelled := by rw [hr.eq_goto, goto_isCancelled]
    simp only [stepMove, hc', hr.act_eq, hs, hstep, hb, hcancelled, ← hw.clock_eq, hv,
      Option.bind_eq_bind, Option.bind_some]
    rfl

theorem act_of_stepMove {j : Nat} (h : r.stepMove w j = some (w', r')) : r'.act = r.act := by
  obtain ⟨_, _, _, _, _, _, _, _, _, -, -, -, -, -, -, rfl⟩ := stepMove_eq h
  rfl

/-- A move of a step takes nothing back from the registry. -/
theorem grows_of_stepMove {j : Nat} (h : r.stepMove w j = some (w', r'))
    (hs : w.executor.registry.Sound) : w.executor.registry.Grows w'.executor.registry := by
  obtain ⟨_, _, _, _, _, _, _, _, _, -, -, -, -, hadvance, rfl, -⟩ := stepMove_eq h
  exact (Activity.advanced_of_advance hadvance).grows hs

/-! ### The run of the other act -/

/-- A batch is sent to the run's own act, or refused. -/
theorem store_eq_of_send {patches : List Patch} {next : Run → Run}
    (h : send w r patches next = (w', r')) :
    w'.store = w.store ∨ ∃ patches, w.store.apply r.act.id patches = .ok w'.store := by
  rcases send_eq h with ⟨store, hstore, rfl, -⟩ | ⟨e, -, rfl, -⟩
  · exact Or.inr ⟨patches, hstore⟩
  · exact Or.inl rfl

/-- A run sends batches for its own act only. -/
theorem Led.store_eq (h : Led w r w' r') : w'.store = w.store ∨
    ∃ patches, w.store.apply r.act.id patches = .ok w'.store := by
  cases h with
  | begin hc hs hsend => exact store_eq_of_send hsend
  | «open» hc hs hall hsend => exact store_eq_of_send hsend
  | close hc hs hreports hsend => exact store_eq_of_send hsend
  | finish hc ho hsend => exact store_eq_of_send (r := r.record _) hsend
  | abort hc hsend => exact store_eq_of_send hsend
  | _ => exact Or.inl rfl

/-- What the other run does between steps is not seen. -/
theorem Led.left (hw : w.Alike other before v) (hact : r.act = other) (h : Led w r w' r') :
    w'.Alike other before v := by
  have hclock := h.clock_eq
  have hexecutor := h.executor_eq
  refine ⟨hclock.trans hw.clock_eq, ?_, hexecutor ▸ hw.executor⟩
  rcases h.store_eq with hsame | ⟨patches, happly⟩
  · exact hsame ▸ hw.store
  · exact hw.store.apply_left (hact ▸ happly)

/-- What a step of the other run does is not seen. -/
theorem stepMove_left (hw : w.Alike other before v) (hact : r.act = other) (howns : r.Owns)
    {j : Nat} (h : r.stepMove w j = some (w', r')) : w'.Alike other before v := by
  obtain ⟨k, since, steps, s, step, a, x, a', es, hc, hs, hstep, ha, hadvance, rfl, rfl⟩ :=
    stepMove_eq h
  subst hact
  refine ⟨hw.clock_eq, hw.store, ?_⟩
  refine (Activity.advanced_of_advance hadvance).left hw.executor (generation_mem hs hstep) ?_
  rintro record rfl
  refine howns record ?_
  rw [hc]
  exact List.mem_filterMap.mpr ⟨_, List.mem_of_getElem? ha, rfl⟩

end Run

end Workflow
