/-
Workflow.Proofs.Engine.StepAgreement — a step and the record of its
generation, while the step goes on and once it has ended.

`Activity.Agrees` says what the registry and the journal show at every point
of a step: nothing has happened to a step that waits, a step that listens
has a flight that is live, has ended or was stopped, and a step that has
ended has a generation that is not in flight and whose record says the same
(`Settled`).

* `Advanced.agrees` — each move of the step keeps this.
* `Agrees.works` — so does all that others and the work itself do.
-/
import Workflow.Proofs.Engine.Moves
import Workflow.Proofs.Executor.Works

namespace Workflow

open Registry

/-- The entry is a call on the generation of the step, or says that the step
failed. -/
def Entry.IsAbout (p : PlacedStep) : Entry → Prop
  | .set id _ | .start id _ | .stop id => id = p.step.generation
  | .notice (.stepError _ k j _) => k = p.sequence ∧ j = p.index
  | _ => False

variable {x x' : Registry} {g : Generation} {journal es : List Entry} {p : PlacedStep}
  {status : Status} {n taken : Nat} {isStopped : Bool}

/-- Nobody has said yet that the step failed. -/
def Untold (journal : List Entry) (p : PlacedStep) : Prop :=
  ∀ step message, Entry.notice (.stepError step p.sequence p.index message) ∉ journal

/-- The failure of the step was told with this message, and with no other. -/
structure FailedWith (journal : List Entry) (p : PlacedStep) (message : String) : Prop where
  told : Entry.notice (.stepError p.step p.sequence p.index message) ∈ journal
  only : ∀ step m, Entry.notice (.stepError step p.sequence p.index m) ∈ journal → m = message

/-- The generation of the step is as it was, and was never dispatched. -/
structure Untouched (x : Registry) (g : Generation) (journal : List Entry) (p : PlacedStep) :
    Prop where
  record_eq : x.get? p.step.generation = some g
  entry_eq : x.inFlight.get? p.step.generation = none
  /-- Nothing in the journal is about the step. -/
  silent : ∀ e ∈ journal, ¬ e.IsAbout p

/-- The record of the generation says the same as the status of its step;
`g` is the record that was loaded. -/
inductive Settled (x : Registry) (g : Generation) (journal : List Entry) (p : PlacedStep) :
    Status → Prop where
  | completed (hentry : x.inFlight.get? p.step.generation = none)
      (hrecord : x.HasStatus p.step.generation .completed) : Settled x g journal p .completed
  | failed {record : Generation} {message : String}
      (hentry : x.inFlight.get? p.step.generation = none)
      (hrecord : x.get? p.step.generation = some record) (hstatus : record.status = .failed)
      (herror : record.error = some message) (htold : FailedWith journal p message) :
      Settled x g journal p .failed
  /-- The work was stopped, and the record tells of it. -/
  | stopped (hentry : x.inFlight.get? p.step.generation = none)
      (hrecord : x.HasStatus p.step.generation .cancelled) : Settled x g journal p .cancelled
  /-- The step never started its work: its record is left as it was. -/
  | skipped (h : Untouched x g journal p) : Settled x g journal p .cancelled

/-- How the flight of a step stands that has heard `taken` of its signals. -/
inductive Flying (x : Registry) (id : GenerationId) (n taken : Nat) (isStopped : Bool) : Prop where
  | live {f : Flight} (hf : Live x n f) (hid : f.generation = id)
      (htaken : taken ≤ f.heard.length) (hstopped : isStopped = false)
  /-- The ending is still to be heard. -/
  | ended {f : Flight} {s : Signal} (hf : Ended x n f s) (hid : f.generation = id)
      (hsilent : ∀ s ∈ f.heard, s.isEnding = false) (hrunning : f.record.status = .running)
      (htaken : taken ≤ f.heard.length)
  | stopped {f : Flight} (hf : Stopped x n f) (hid : f.generation = id)
      (hsilent : ∀ s ∈ f.heard, s.isEnding = false) (hstopped : isStopped = true)

/-- The registry and the journal show how far a step has come. -/
def Activity.Agrees (x : Registry) (g : Generation) (journal : List Entry) (p : PlacedStep) :
    Activity → Prop
  | .waiting record => record = g ∧ Untouched x g journal p
  | .announced _ => x.HasStatus p.step.generation .queued ∧
    x.inFlight.get? p.step.generation = none ∧ Untold journal p
  | .flying _ n taken isStopped => Flying x p.step.generation n taken isStopped ∧ Untold journal p
  | .refused _ _ =>
    (x.HasStatus p.step.generation .queued ∨ x.HasStatus p.step.generation .running) ∧
    x.inFlight.get? p.step.generation = none ∧ Untold journal p
  | .ended report => Settled x g journal p report.outcome.status

/-! ## What others do, and what the work does -/

/-- Work on a generation that is not in flight leaves it as it was. -/
theorem Untouched.works (h : Untouched x g journal p) (hw : Works p.step.generation x x') :
    Untouched x' g journal p := by
  obtain ⟨hrecord, hentry⟩ := hw.idle h.entry_eq
  exact ⟨hrecord.trans h.record_eq, hentry, h.silent⟩

/-- What is settled stays so. -/
theorem Settled.works (h : Settled x g journal p status) (hw : Works p.step.generation x x') :
    Settled x' g journal p status := by
  cases h with
  | completed hentry hrecord =>
    obtain ⟨heq, hentry'⟩ := hw.idle hentry
    exact .completed hentry' ((hasStatus_congr heq).mpr hrecord)
  | failed hentry hrecord hstatus herror htold =>
    obtain ⟨heq, hentry'⟩ := hw.idle hentry
    exact .failed hentry' (heq.trans hrecord) hstatus herror htold
  | stopped hentry hrecord =>
    obtain ⟨heq, hentry'⟩ := hw.idle hentry
    exact .stopped hentry' ((hasStatus_congr heq).mpr hrecord)
  | skipped hu => exact .skipped (hu.works hw)

/-- A flight that the step listens to hears its text and its one ending, and is
changed by no other work. -/
theorem Flying.works {id : GenerationId} (h : Flying x id n taken isStopped)
    (hw : Works id x x') : Flying x' id n taken isStopped := by
  -- by induction on the work; a flight is live, has ended or was stopped, and only a
  -- live one hears
  induction hw with
  | refl => exact h
  | apart _ ha ih =>
    cases ih with
    | live hf hid htaken hstopped =>
      subst hid
      exact .live (ha.live hf) rfl htaken hstopped
    | ended hf hid hsilent hrunning htaken =>
      subst hid
      exact .ended (ha.ended hf) rfl hsilent hrunning htaken
    | stopped hf hid hsilent hstopped =>
      subst hid
      exact .stopped (ha.stopped hf) rfl hsilent hstopped
  | delta _ text ih =>
    cases ih with
    | live hf hid htaken hstopped =>
      subst hid
      obtain ⟨heard, -, hlive⟩ := hf.delta text
      refine .live hlive rfl ?_ hstopped
      rw [List.length_append]
      exact Nat.le_add_right_of_le htaken
    | ended hf hid hsilent hrunning htaken =>
      subst hid
      rw [delta_of_free hf.entry_eq]
      exact .ended hf rfl hsilent hrunning htaken
    | stopped hf hid hsilent hstopped =>
      subst hid
      rw [delta_of_free hf.entry_eq]
      exact .stopped hf rfl hsilent hstopped
  | finish _ result now ih =>
    cases ih with
    | live hf hid htaken hstopped =>
      subst hid
      obtain ⟨⟨s, hended⟩, -⟩ := hf.finish result now
      exact .ended hended rfl hf.silent hf.running htaken
    | ended hf hid hsilent hrunning htaken =>
      subst hid
      rw [finish_of_free hf.entry_eq]
      exact .ended hf rfl hsilent hrunning htaken
    | stopped hf hid hsilent hstopped =>
      subst hid
      rw [finish_of_free hf.entry_eq]
      exact .stopped hf rfl hsilent hstopped

/-- A step agrees with its generation whatever work goes on. -/
theorem Activity.Agrees.works {a : Activity} (h : a.Agrees x g journal p)
    (hw : Works p.step.generation x x') : a.Agrees x' g journal p := by
  cases a with
  | waiting record => exact ⟨h.1, h.2.works hw⟩
  | announced since =>
    obtain ⟨hstatus, hentry, huntold⟩ := h
    obtain ⟨heq, hentry'⟩ := hw.idle hentry
    exact ⟨(hasStatus_congr heq).mpr hstatus, hentry', huntold⟩
  | flying since n taken isStopped => exact ⟨h.1.works hw, h.2⟩
  | refused since message =>
    obtain ⟨hstatus, hentry, huntold⟩ := h
    obtain ⟨heq, hentry'⟩ := hw.idle hentry
    exact ⟨hstatus.imp (hasStatus_congr heq).mpr (hasStatus_congr heq).mpr, hentry', huntold⟩
  | ended report => exact Settled.works h hw

/-! ## What is written about other steps -/

theorem Untold.append (h : Untold journal p) (hes : Untold es p) : Untold (journal ++ es) p :=
  fun step message hmem => (List.mem_append.mp hmem).elim (h step message) (hes step message)

/-- The first message is the only one. -/
theorem Untold.failedWith {message : String} (h : Untold journal p)
    (hes : FailedWith es p message) :
    FailedWith (journal ++ es) p message where
  told := List.mem_append_right _ hes.told
  only := fun step m hmem =>
    (List.mem_append.mp hmem).elim (fun hold => absurd hold (h step m)) (hes.only step m)

theorem Untold.of_silent (h : ∀ e ∈ journal, ¬ e.IsAbout p) : Untold journal p :=
  fun _ _ hmem => h _ hmem ⟨rfl, rfl⟩

theorem Untouched.mono (h : Untouched x g journal p) (hes : ∀ e ∈ es, ¬ e.IsAbout p) :
    Untouched x g (journal ++ es) p :=
  { h with silent := fun e he => (List.mem_append.mp he).elim (h.silent e) (hes e) }

theorem FailedWith.mono {message : String} (h : FailedWith journal p message)
    (hes : ∀ e ∈ es, ¬ e.IsAbout p) : FailedWith (journal ++ es) p message where
  told := List.mem_append_left _ h.told
  only := fun step m hmem =>
    (List.mem_append.mp hmem).elim (h.only step m) fun hnew => absurd ⟨rfl, rfl⟩ (hes _ hnew)

/-- Entries about other steps do not matter. -/
theorem Settled.mono (h : Settled x g journal p status) (hes : ∀ e ∈ es, ¬ e.IsAbout p) :
    Settled x g (journal ++ es) p status := by
  cases h with
  | completed hentry hrecord => exact .completed hentry hrecord
  | failed hentry hrecord hstatus herror htold =>
    exact .failed hentry hrecord hstatus herror (htold.mono hes)
  | stopped hentry hrecord => exact .stopped hentry hrecord
  | skipped hu => exact .skipped (hu.mono hes)

theorem Activity.Agrees.mono {a : Activity} (h : a.Agrees x g journal p)
    (hes : ∀ e ∈ es, ¬ e.IsAbout p) : a.Agrees x g (journal ++ es) p := by
  cases a with
  | waiting record => exact ⟨h.1, h.2.mono hes⟩
  | announced since => exact ⟨h.1, h.2.1, h.2.2.append (.of_silent hes)⟩
  | flying since n taken isStopped => exact ⟨h.1, h.2.append (.of_silent hes)⟩
  | refused since message => exact ⟨h.1, h.2.1, h.2.2.append (.of_silent hes)⟩
  | ended report => exact Settled.mono h hes

/-! ## Records that a step stores -/

/-- A record that is not final may be replaced. -/
theorem Executor.set_of_open {y : Executor} {old : Generation}
    (hget : y.registry.get? g.id = some old) (hopen : old.isTerminal = false) :
    y.set g = .ok { y with registry := y.registry.put g.id g } := by
  simp [Executor.set, Registry.set, hget, hopen, Except.map]

/-- A generation that was not dispatched can be queued. -/
theorem Executor.set_of_queue {y : Executor} {id : GenerationId} {queued : Generation}
    {now : Timestamp} (hs : y.registry.Sound) (hget : y.registry.get? id = some g)
    (hq : g.queue now = .ok queued) :
    queued.id = id ∧ y.set queued = .ok { y with registry := y.registry.put id queued } := by
  obtain ⟨hcreated, heq⟩ := Generation.queue_eq hq
  have hid : queued.id = id := by
    rw [heq]
    exact hs.key_eq id g hget
  have hopen : g.isTerminal = false := by
    simp [Generation.isTerminal, hcreated, GenerationStatus.isTerminal]
  refine ⟨hid, ?_⟩
  have hset := set_of_open (g := queued) (hid.symm ▸ hget) hopen
  rwa [hid] at hset

/-- The failure of a step whose generation did not end is put on record. -/
theorem Activity.recordFailure_of_open {y : Executor} (hs : y.registry.Sound) {id : GenerationId}
    (h : y.registry.HasStatus id .queued ∨ y.registry.HasStatus id .running) (message : String)
    (now : Timestamp) :
    ∃ failed, failed.status = .failed ∧ failed.error = some message ∧
      recordFailure y id message now =
        ({ y with registry := y.registry.put id failed }, [.set id .failed]) := by
  obtain ⟨record, hrecord, hstatus⟩ : ∃ record, y.registry.get? id = some record ∧
      (record.status = .queued ∨ record.status = .running) := by
    rcases h with ⟨record, hrecord, hstatus⟩ | ⟨record, hrecord, hstatus⟩
    · exact ⟨record, hrecord, Or.inl hstatus⟩
    · exact ⟨record, hrecord, Or.inr hstatus⟩
  have hid : record.id = id := hs.key_eq id record hrecord
  have hopen : record.isTerminal = false := by
    rcases hstatus with h | h <;> simp [Generation.isTerminal, h, GenerationStatus.isTerminal]
  obtain ⟨failed, hfail, hfailed, herror, hkey⟩ : ∃ failed, record.fail message now = .ok failed ∧
      failed.status = .failed ∧ failed.error = some message ∧ failed.id = id :=
    ⟨_, Generation.fail_of_open hstatus message, rfl, rfl, hid⟩
  have hset := Executor.set_of_open (y := y) (hkey ▸ hrecord) hopen
  rw [hkey] at hset
  refine ⟨failed, hfailed, herror, ?_⟩
  simp [recordFailure, Executor.get?, hrecord, hopen, hfail, hset, hfailed, Except.toOption]

/-! ## Moves of a step

A move of a step is seen at its own generation and at no other, and the
entries that it writes are about this step. -/

/-- The next signal of a flight that has ended is its ending, or comes
before it. -/
theorem Registry.Ended.next {f f' : Flight} {s : Signal} (h : Ended x n f s)
    (htaken : taken ≤ f.heard.length) (hf : x.flights[n]? = some f') :
    (taken < f.heard.length ∧ f'.heard[taken]? = f.heard[taken]?) ∨ f'.heard[taken]? = some s := by
  obtain rfl := Option.some.inj (h.flight_eq.symm.trans hf)
  rcases Nat.lt_or_eq_of_le htaken with hlt | rfl
  · exact Or.inl ⟨hlt, List.getElem?_append_left hlt⟩
  · exact Or.inr List.getElem?_concat_length

/-- An ending that a step hears is the one that its flight has ended
with. -/
theorem Flying.of_heard {id : GenerationId} {f : Flight} {s : Signal}
    (h : Flying x id n taken isStopped) (hf : x.flights[n]? = some f)
    (hs : f.heard[taken]? = some s) (hending : s.isEnding) :
    ∃ f', f'.generation = id ∧ Ended x n f' s ∧ f'.record.status = .running := by
  have hnot {heard : List Signal} (hsilent : ∀ s ∈ heard, s.isEnding = false) :
      heard[taken]? ≠ some s := by
    intro hmem
    rw [hsilent s (List.mem_of_getElem? hmem)] at hending
    cases hending
  cases h with
  | live hlive hid htaken hstopped =>
    obtain rfl := Option.some.inj (hlive.flight_eq.symm.trans hf)
    exact absurd hs (hnot hlive.silent)
  | @ended f' s' hended hid hsilent hrunning htaken =>
    rcases hended.next htaken hf with ⟨-, heq⟩ | heq
    · exact absurd (heq.symm.trans hs) (hnot hsilent)
    · obtain rfl := Option.some.inj (heq.symm.trans hs)
      exact ⟨f', hid, hended, hrunning⟩
  | stopped hstop hid hsilent hstopped =>
    obtain rfl := Option.some.inj (hstop.flight_eq.symm.trans hf)
    exact absurd hs (hnot hsilent)

/-- A step that hears text goes on listening. -/
theorem Flying.delta {id : GenerationId} {f : Flight} {s : Signal}
    (h : Flying x id n taken isStopped) (hf : x.flights[n]? = some f)
    (hs : f.heard[taken]? = some s) (hdelta : s.isEnding = false) :
    Flying x id n (taken + 1) isStopped := by
  cases h with
  | live hlive hid htaken hstopped =>
    obtain rfl := Option.some.inj (hlive.flight_eq.symm.trans hf)
    exact .live hlive hid (List.getElem?_eq_some_iff.mp hs).1 hstopped
  | ended hended hid hsilent hrunning htaken =>
    rcases hended.next htaken hf with ⟨hlt, -⟩ | heq
    · exact .ended hended hid hsilent hrunning hlt
    · obtain rfl := Option.some.inj (heq.symm.trans hs)
      rw [hended.isEnding] at hdelta
      cases hdelta
  | stopped hstop hid hsilent hstopped => exact .stopped hstop hid hsilent hstopped

/-- A step that can hear nothing any more is one that was stopped. -/
theorem Flying.of_silence {id : GenerationId} {f : Flight} (h : Flying x id n taken isStopped)
    (hf : x.flights[n]? = some f) (hs : f.heard[taken]? = none)
    (hopen : (f.isOpen && (f.isStreaming || !isStopped)) = false) :
    ∃ f', f'.generation = id ∧ Stopped x n f' := by
  cases h with
  | live hlive hid htaken hstopped =>
    obtain rfl := Option.some.inj (hlive.flight_eq.symm.trans hf)
    simp [hlive.isOpen, hstopped] at hopen
  | ended hended hid hsilent hrunning htaken =>
    rcases hended.next htaken hf with ⟨hlt, heq⟩ | heq
    · rw [heq, List.getElem?_eq_getElem hlt] at hs
      cases hs
    · rw [heq] at hs
      cases hs
  | stopped hstop hid hsilent hstopped => exact ⟨_, hid, hstop⟩

/-- A stop stops a flight that is live, and no other. -/
theorem Flying.stop {y : Executor} {id : GenerationId} (h : Flying y.registry id n taken false)
    (now : Timestamp) :
    Flying ((y.stop id now).toOption.getD y).registry id n taken true := by
  cases h with
  | live hlive hid htaken hstopped =>
    subst hid
    obtain ⟨r, hr, hstop⟩ := hlive.stop now
    simp only [Executor.stop, hr, Except.map, Except.toOption, Option.getD_some]
    exact .stopped hstop rfl hlive.silent rfl
  | ended hended hid hsilent hrunning htaken =>
    subst hid
    simp only [Executor.stop, hended.stop hrunning now, Except.map, Except.toOption,
      Option.getD_some]
    exact .ended hended rfl hsilent hrunning htaken
  | stopped hstop hid hsilent hstopped => cases hstopped

namespace Activity

variable {y y' : Executor} {clock : Nat} {isCancelled : Bool} {a a' : Activity}
  {entries : List Entry}

/-- Each move of a step keeps it in agreement. -/
theorem Advanced.agrees (h : Advanced y clock isCancelled p a y' a' entries)
    (hs : y.registry.Sound) (hg : g.status = .created) (ha : a.Agrees y.registry g journal p) :
    a'.Agrees y'.registry g (journal ++ entries) p := by
  cases h with
  | skip hi =>
    obtain ⟨-, hu⟩ := ha
    exact .skipped (hu.mono (by simp [Entry.IsAbout]))
  | unqueued hi hq =>
    obtain ⟨rfl, -⟩ := ha
    -- a record that is created can be queued
    rw [Generation.queue_of_created hg] at hq
    cases hq
  | unset hi hq hx =>
    obtain ⟨rfl, hu⟩ := ha
    rw [(Executor.set_of_queue hs hu.record_eq hq).2] at hx
    cases hx
  | @announce record queued y' hi hq hx =>
    obtain ⟨rfl, hu⟩ := ha
    rw [(Executor.set_of_queue hs hu.record_eq hq).2] at hx
    cases hx
    refine ⟨⟨queued, by simp, ?_⟩, hu.entry_eq, (Untold.of_silent hu.silent).append ?_⟩
    · rw [(Generation.queue_eq hq).2]
    · simp [Untold]
  | unstarted hx =>
    obtain ⟨hstatus, hentry, huntold⟩ := ha
    exact ⟨Or.inl hstatus, hentry, huntold.append (by simp [Untold])⟩
  | start hx =>
    obtain ⟨-, hentry, huntold⟩ := ha
    obtain ⟨r, hr, rfl⟩ := Executor.start_eq hx
    obtain ⟨-, -, -, record, hlive⟩ := begin_of_free hentry hr
    exact ⟨.live hlive rfl (Nat.zero_le _) rfl, huntold.append (by simp [Untold])⟩
  | stop hi => exact ⟨ha.1.stop _, ha.2.append (by simp [Untold])⟩
  | delta hf hsignal => exact ⟨ha.1.delta hf hsignal rfl, ha.2.append (by simp [Untold])⟩
  | complete hf hsignal =>
    obtain ⟨f', hid, hended, -⟩ := ha.1.of_heard hf hsignal rfl
    obtain ⟨hrecord, hstatus⟩ := hended.carries
    exact .completed (hid ▸ hended.entry_eq) ⟨_, hid ▸ hrecord, hstatus⟩
  | @fail since flight taken isStopped f record message hf hsignal hm =>
    obtain ⟨f', hid, hended, -⟩ := ha.1.of_heard hf hsignal rfl
    obtain ⟨-, hrecord, hstatus, herror⟩ := hended.carries
    obtain ⟨cause, hcause⟩ := Option.isSome_iff_exists.mp herror
    have hmessage : message = cause := by rw [hm, hcause, Option.getD_some]
    exact .failed (hid ▸ hended.entry_eq) (hid ▸ hrecord) hstatus (hmessage ▸ hcause)
      (ha.2.failedWith ⟨List.mem_singleton_self _, by simp⟩)
  | «break» hf hsignal =>
    obtain ⟨f', hid, hended, hrunning⟩ := ha.1.of_heard hf hsignal rfl
    obtain ⟨-, hrecord⟩ := hended.carries
    exact ⟨Or.inr ⟨_, hid ▸ hrecord, hrunning⟩, hid ▸ hended.entry_eq,
      ha.2.append (by simp [Untold])⟩
  | lose hf hsignal hopen =>
    obtain ⟨f', hid, hstopped⟩ := ha.1.of_silence hf hsignal hopen
    exact .stopped (hid ▸ hstopped.entry_eq) (hid ▸ hstopped.cancelled)
  | @settle since message y' entries hr =>
    -- the generation was not started, or its stream broke: either way nothing is in
    -- flight
    obtain ⟨hstatus, hentry, huntold⟩ := ha
    obtain ⟨failed, hfailed, herror, heq⟩ :=
      recordFailure_of_open hs hstatus message (.ofMillis clock)
    rw [heq] at hr
    cases hr
    exact .failed hentry (by simp) hfailed herror
      (huntold.failedWith ⟨List.mem_append_right _ (List.mem_singleton_self _), by simp⟩)

/-- A failure is recorded under the identifier of its generation. -/
theorem set_of_recordFailure (hs : y.registry.Sound) {id : GenerationId} {message : String}
    {now : Timestamp} (h : recordFailure y id message now = (y', entries)) :
    y' = y ∨ ∃ failed, failed.id = id ∧ y.set failed = .ok y' := by
  unfold recordFailure at h
  split at h
  · cases h
    exact Or.inl rfl
  · rename_i record hget
    split at h
    · cases h
      exact Or.inl rfl
    · split at h
      · cases h
        exact Or.inl rfl
      · rename_i failed hfail
        -- the record stands under its own identifier
        have hfailed : failed.id = id := by
          rw [(Generation.fail_eq hfail).2]
          exact hs.key_eq id record hget
        cases hset : y.set failed with
        | error e =>
          rw [hset] at h
          cases h
          exact Or.inl rfl
        | ok z =>
          rw [hset] at h
          cases h
          exact Or.inr ⟨failed, hfailed, hset⟩

/-- A move of a step is not seen of a step with another generation, at
another place, whose record it does not hold on to. -/
theorem Advanced.spares (h : Advanced y clock isCancelled p a y' a' entries)
    (hs : y.registry.Sound) {q : PlacedStep}
    (hrecord : ∀ record, a = .waiting record → record.id ≠ q.step.generation)
    (hid : p.step.generation ≠ q.step.generation)
    (hplace : ¬ (p.sequence = q.sequence ∧ p.index = q.index)) :
    Apart q.step.generation y.registry y'.registry ∧ ∀ e ∈ entries, ¬ e.IsAbout q := by
  cases h with
  | @unset record queued e hi hq hx =>
    -- queueing keeps the identifier
    have hkey : queued.id = record.id := by rw [(Generation.queue_eq hq).2]
    exact ⟨.refl _ _, by simp [Entry.IsAbout, hkey, hrecord record rfl]⟩
  | @announce record queued y' hi hq hx =>
    have hkey : queued.id ≠ q.step.generation := by
      rw [(Generation.queue_eq hq).2]
      exact hrecord record rfl
    obtain ⟨r, hr, rfl⟩ := Executor.set_eq hx
    exact ⟨(changes_set hr).apart hs hkey, by simp [Entry.IsAbout, hkey]⟩
  | start hx =>
    obtain ⟨r, hr, rfl⟩ := Executor.start_eq hx
    exact ⟨apart_begin hr hs hid, by simp [Entry.IsAbout, hid]⟩
  | stop hi =>
    refine ⟨?_, by simp [Entry.IsAbout, hid]⟩
    cases hstop : y.stop p.step.generation (.ofMillis clock) with
    | error e => exact .refl _ _
    | ok z =>
      obtain ⟨r, wasLive, hr, rfl⟩ := Executor.stop_eq hstop
      exact (changes_stop hr).apart hs hid
  | settle hr =>
    refine ⟨?_, ?_⟩
    · rcases set_of_recordFailure hs hr with rfl | ⟨failed, hfailed, hset⟩
      · exact .refl _ _
      · obtain ⟨r, hput, rfl⟩ := Executor.set_eq hset
        exact (changes_set hput).apart hs (hfailed ▸ hid)
    · rcases recordFailure_eq hr with ⟨-, rfl⟩ | ⟨failed, -, rfl⟩ <;>
        simp [Entry.IsAbout, hid, hplace]
  -- the other moves make no call
  | _ => exact ⟨.refl _ _, by simp [Entry.IsAbout, hid, hplace]⟩

/-- A step that agrees with its generation holds on to no other record. -/
theorem Advanced.elsewhere (h : Advanced y clock isCancelled p a y' a' entries)
    (hs : y.registry.Sound) (ha : a.Agrees y.registry g journal p) {q : PlacedStep}
    (hid : p.step.generation ≠ q.step.generation)
    (hplace : ¬ (p.sequence = q.sequence ∧ p.index = q.index)) :
    Apart q.step.generation y.registry y'.registry ∧ ∀ e ∈ entries, ¬ e.IsAbout q := by
  refine h.spares hs (fun record hwaiting => ?_) hid hplace
  subst hwaiting
  obtain ⟨rfl, hu⟩ := ha
  rwa [hs.key_eq _ _ hu.record_eq]

end Activity

end Workflow
