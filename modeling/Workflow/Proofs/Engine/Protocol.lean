/-
Workflow.Proofs.Engine.Protocol — what an observer is told, and when.

The reports of a run are its batches and its notices, in one order, so that
they also say which batch was accepted before a notice. For a run that comes
to an outcome they are put together like this:

* `preface` — the act has begun;
* `Chapter.entries` — for each sequence that ran, from its opening to its
  closing, with what its steps told in between (`Story`, for each step);
* `epilogue` — the sequences that were skipped, and the end of the act.

`Run.Narrated` is the part of this that is there wherever a run stands.
Nothing is asked of the plan; what is stored of it may be of any kind.
-/
import Workflow.Proofs.Engine.FinalRecord
import Workflow.Proofs.Engine.Sequences

namespace Workflow

/-! ## Reports -/

/-- Whether an entry is a batch or a notice. -/
def Entry.isReport : Entry → Bool
  | .batch .. | .notice _ => true
  | .set .. | .start .. | .stop .. => false

namespace Run

/-- The batches and the notices of a run, oldest first. -/
def reports (r : Run) : List Entry := r.journal.filter (·.isReport)

@[simp] theorem reports_goto (r : Run) (c : Control) : (r.goto c).reports = r.reports := rfl

@[simp] theorem reports_record (r : Run) (es : List Entry) :
    (r.record es).reports = r.reports ++ es.filter (·.isReport) := List.filter_append ..

@[simp] theorem reports_note (r : Run) (n : Notice) :
    (r.note n).reports = r.reports ++ [.notice n] := List.filter_append ..

end Run

/-! ## What one step tells

A step first tells that it starts, then any number of texts, and then its end,
or its end at once if it was skipped. -/

namespace PlacedStep

variable {p : PlacedStep} {told : List Notice}

/-- The notice of a step's end. -/
def ending (p : PlacedStep) : StepOutcome → Notice
  | .completed => .stepComplete p.step
  | .failed message => .stepError p.step p.sequence p.index message
  | .cancelled => .stepCancel p.step

/-- The step was started, and has told what it streamed. -/
def HasStarted (p : PlacedStep) (told : List Notice) : Prop :=
  ∃ texts : List String, told = .stepStart p.step :: texts.map (.stepDelta p.step)

/-- All that a step tells that has ended: one end, after at most one start
and what was streamed since. Only a step that was started completes. -/
def Story (p : PlacedStep) (outcome : StepOutcome) (told : List Notice) : Prop :=
  ∃ before, told = before ++ [p.ending outcome] ∧
    (p.HasStarted before ∨ before = [] ∧ outcome ≠ .completed)

theorem HasStarted.delta (h : p.HasStarted told) (text : String) :
    p.HasStarted (told ++ [.stepDelta p.step text]) := by
  obtain ⟨texts, rfl⟩ := h
  exact ⟨texts ++ [text], by simp⟩

theorem HasStarted.story (h : p.HasStarted told) (outcome : StepOutcome) :
    p.Story outcome (told ++ [p.ending outcome]) := ⟨told, rfl, Or.inl h⟩

end PlacedStep

namespace Activity

variable {x x' : Executor} {clock : Nat} {isCancelled : Bool} {p : PlacedStep} {b b' : Activity}
  {entries : List Entry} {told : List Notice}

/-- What a step has told, by how far it has come. -/
def HasTold (p : PlacedStep) (told : List Notice) : Activity → Prop
  | .waiting _ => told = []
  | .announced _ | .flying .. => p.HasStarted told
  | .refused .. => told = [] ∨ p.HasStarted told
  | .ended report => p.Story report.outcome told

/-- One move of a step adds to its story. -/
theorem Advanced.hasTold (h : Advanced x clock isCancelled p b x' b' entries)
    (hb : b.HasTold p told) : ∃ more : List Notice,
      entries.filter (·.isReport) = more.map .notice ∧ b'.HasTold p (told ++ more) := by
  cases h with
  | skip hi =>
    obtain rfl : told = [] := hb
    exact ⟨[p.ending .cancelled], rfl, [], rfl, Or.inr ⟨rfl, by simp⟩⟩
  | unqueued hi hq =>
    obtain rfl : told = [] := hb
    exact ⟨[], rfl, Or.inl rfl⟩
  | unset hi hq hx =>
    obtain rfl : told = [] := hb
    exact ⟨[], rfl, Or.inl rfl⟩
  | announce hi hq hx =>
    obtain rfl : told = [] := hb
    exact ⟨[.stepStart p.step], rfl, [], rfl⟩
  | unstarted hx => exact ⟨[], rfl, Or.inr (by rwa [List.append_nil])⟩
  | start hx => exact ⟨[], rfl, by rwa [List.append_nil]⟩
  | stop hi => exact ⟨[], rfl, by rwa [List.append_nil]⟩
  | delta hf hs => exact ⟨[.stepDelta p.step _], rfl, PlacedStep.HasStarted.delta hb _⟩
  | complete hf hs => exact ⟨[p.ending .completed], rfl, PlacedStep.HasStarted.story hb _⟩
  | fail hf hs hm => exact ⟨[p.ending (.failed _)], rfl, PlacedStep.HasStarted.story hb _⟩
  | «break» hf hs => exact ⟨[], rfl, Or.inr (by rwa [List.append_nil])⟩
  | lose hf hs hopen => exact ⟨[p.ending .cancelled], rfl, PlacedStep.HasStarted.story hb _⟩
  | @settle since message x' entries hr =>
    refine ⟨[p.ending (.failed message)], ?_, told, rfl, ?_⟩
    · rcases recordFailure_eq hr with ⟨-, rfl⟩ | ⟨failed, -, rfl⟩ <;> rfl
    · exact hb.symm.imp_right fun hnone => ⟨hnone, by simp⟩

end Activity

/-! ## What is told of one sequence -/

/-- A sequence that has run, with all that its steps told meanwhile, each
notice with the position of its step. -/
structure Chapter extends Finished where
  told : List (Nat × Notice)

/-- Of what the steps of a sequence told, what one of them did. -/
def toldBy (told : List (Nat × Notice)) (j : Nat) : List Notice :=
  (told.filter (·.1 = j)).map (·.2)

namespace Chapter

/-- The sequence at position `k` has opened, and its steps have told something. -/
def beginning (k : Nat) (s : Sequence) (told : List (Nat × Notice)) : List Entry :=
  [.batch (Batch.opening k s) none, .notice (.sequenceStart k s)] ++ told.map (.notice ·.2)

/-- All that is reported of the sequence, at position `k` of an act. -/
def entries (c : Chapter) (k : Nat) : List Entry :=
  beginning k c.planned c.told ++
    [.batch (Batch.closing k c.planned c.reports c.ms) none,
      .notice (.sequenceFinish k c.planned c.record.status)]

/-- Each step of the sequence has told its story, and it agrees with the
status that is recorded. -/
structure Fits (c : Chapter) (k : Nat) : Prop where
  length_eq : c.reports.length = c.planned.steps.length
  /-- Nothing is told of steps that there are not. -/
  told_lt : ∀ t ∈ c.told, t.1 < c.planned.steps.length
  /-- Each step tells a story that ends with the status on record. -/
  story : ∀ (j : Nat) (step : Step), c.planned.steps[j]? = some step →
    ∃ stored outcome, c.record.steps[j]? = some stored ∧ stored.status = outcome.status ∧
      PlacedStep.Story ⟨k, j, step⟩ outcome (toldBy c.told j)

end Chapter

/-- What is reported of sequences that ran one after the other, from
position `k` on. -/
def narrate (k : Nat) : List Chapter → List Entry
  | [] => []
  | c :: rest => c.entries k ++ narrate (k + 1) rest

theorem narrate_concat (chapters : List Chapter) (c : Chapter) (k : Nat) :
    narrate k (chapters ++ [c]) = narrate k chapters ++ c.entries (k + chapters.length) := by
  induction chapters generalizing k with
  | nil => simp [narrate]
  | cons d rest ih => simp [narrate, ih, Nat.add_assoc, Nat.add_comm 1]

/-! ## Where a run stands

What was told so far is a list of chapters, one for each sequence that has
run, and the beginning of one more while a sequence runs. -/

/-- The act has begun. -/
def preface (a : Act) : List Entry := [.batch Batch.begin none, .notice (.actStart a)]

/-- The run has an outcome, and has skipped some sequences. -/
def epilogue (o : Outcome) (skipped : List Sequence) : List Entry :=
  skipped.map (.notice <| .sequenceSkip ·) ++
    [.batch (Batch.final o.status o.wallClockMs) none,
      .notice (.actComplete o.hasError o.wallClockMs), .notice (.actFinish o)]

/-- What is stored of an act and what was reported of it, once some
sequences have run; one more may have been opened, and `latest` is reported
of it. -/
structure Account (a stored : Act) (reports : List Entry) (tally : Tally)
    (chapters : List Chapter) (now later : List Sequence) (latest : List Entry) : Prop where
  /-- The sequences are those that have run, the one that was opened, and
  the rest. -/
  planned_eq : chapters.map (·.planned) ++ now ++ later = a.sequences
  /-- Each of them is stored as far as it has come. -/
  stored_eq : stored.sequences = chapters.map (·.record) ++ now.map (·.opened) ++ later
  tally_eq : tally = .ofReports (chapters.flatMap (·.reports))
  fits : ∀ (k : Nat) (c : Chapter), chapters[k]? = some c → c.Fits k
  /-- The reports are told chapter by chapter. -/
  reports_eq : reports = preface a ++ narrate 0 chapters ++ latest

/-- The steps of the sequence that runs, and what they have told. -/
structure Underway (k : Nat) (s : Sequence) (steps : List Activity) (told : List (Nat × Notice)) :
    Prop where
  length_eq : steps.length = s.steps.length
  told_lt : ∀ t ∈ told, t.1 < s.steps.length
  hasTold : ∀ (j : Nat) (step : Step) (b : Activity), s.steps[j]? = some step → steps[j]? = some b →
    b.HasTold ⟨k, j, step⟩ (toldBy told j)

/-- All that an observer was told of a run that came to an outcome. -/
structure Observed (a stored : Act) (o : Outcome) (journal : List Entry)
    (chapters : List Chapter) (skipped : List Sequence) : Prop where
  planned_eq : a.sequences = chapters.map (·.planned) ++ skipped
  /-- Sequences that have not run are stored as they were planned. -/
  stored_eq : stored.sequences = chapters.map (·.record) ++ skipped
  status_eq : stored.status = o.status
  fits : ∀ (k : Nat) (c : Chapter), chapters[k]? = some c → c.Fits k
  /-- There are no reports besides these, and they come in this order. -/
  reports_eq : journal.filter (·.isReport) =
    preface a ++ narrate 0 chapters ++ epilogue o skipped
  /-- An error is reported just if a step has failed. -/
  hasError_iff : o.hasError ↔ ∃ c ∈ chapters, ∃ step ∈ c.record.steps, step.status = .failed

namespace Run

/-- What was reported of a run of `a`, and what is stored, wherever it
stands. A run that cannot go on comes to no outcome. -/
def Narrated (a stored : Act) (r : Run) : Prop :=
  match r.control with
  | .ready => stored = a ∧ r.tally = .zero ∧ r.reports = []
  | .turn k => ∃ chapters later, chapters.length = k ∧
    Account a stored r.reports r.tally chapters [] later []
  | .opening k records => (∃ chapters later, chapters.length = k ∧
      Account a stored r.reports r.tally chapters [] later []) ∧
    ∃ s, a.sequences[k]? = some s ∧ records.length ≤ s.steps.length
  | .running k _ steps => ∃ chapters s later told, chapters.length = k ∧ k < 2 ^ 64 ∧
    Account a stored r.reports r.tally chapters [s] later (Chapter.beginning k s told) ∧
    Underway k s steps told
  | .closed k tally => ∃ chapters later, chapters.length = k + 1 ∧
    Account a stored r.reports (r.tally.add tally) chapters [] later []
  | .winding _ k => ∃ chapters later, chapters.length = k ∧
    Account a stored r.reports r.tally chapters [] later []
  | .done (.ok o) => ∃ chapters skipped, Observed a stored o r.journal chapters skipped
  | .aborting _ | .done (.error _) => True

end Run

section Accounts

variable {a stored new : Act} {reports : List Entry} {tally : Tally} {chapters : List Chapter}
  {s : Sequence} {later : List Sequence}

/-- The act has begun, and nothing has run. -/
theorem account_begin {reports : List Entry} (hreports : reports = preface a) :
    Account a { a with status := .running } reports .zero [] [] a.sequences [] where
  planned_eq := rfl
  stored_eq := rfl
  tally_eq := rfl
  fits := fun k c hc => by simp at hc
  reports_eq := by simp [hreports, narrate]

/-- The sequence that runs is the one after the chapters. -/
theorem Account.getElem? {latest : List Entry}
    (h : Account a stored reports tally chapters [s] later latest) :
    a.sequences[chapters.length]? = some s ∧
      stored.sequences[chapters.length]? = some s.opened := by
  rw [← h.planned_eq, h.stored_eq, List.append_assoc, List.append_assoc, head?_after_map,
    head?_after_map]
  exact ⟨rfl, rfl⟩

/-- The next sequence is opened. -/
theorem Account.open (h : Account a stored reports tally chapters [] later [])
    (hs : a.sequences[chapters.length]? = some s)
    (hupdate : stored.update (Batch.opening chapters.length s) = .ok new) :
    chapters.length < 2 ^ 64 ∧ ∃ rest, Account a new
      (reports ++ Chapter.beginning chapters.length s []) tally chapters [s] rest
      (Chapter.beginning chapters.length s []) := by
  have hplanned := h.planned_eq
  have hstored := h.stored_eq
  rw [List.append_nil] at hplanned
  simp only [List.map_nil, List.append_nil] at hstored
  obtain ⟨rest, rfl⟩ : ∃ rest, later = s :: rest := by
    rw [← hplanned, head?_after_map] at hs
    exact List.head?_eq_some_iff.mp hs
  have hthere : stored.sequences[chapters.length]? = some s := by
    rw [hstored, head?_after_map]
    rfl
  obtain ⟨hk, halters⟩ := Act.opened_of_update hthere hupdate
  have hmodify := Progress.modify_length_append (chapters.map (·.record)) s rest (·.opened)
  rw [List.length_map] at hmodify
  refine ⟨hk, rest, ?_, ?_, h.tally_eq, h.fits, ?_⟩
  · simpa using hplanned
  · rw [halters.sequences_eq, hstored, hmodify]
    simp
  · rw [h.reports_eq, List.append_nil]

/-- The sequence that was opened is closed. -/
theorem Account.close {ms : Nat} {outcomes : List StepReport} {told : List (Nat × Notice)}
    (h : Account a stored reports tally chapters [s] later
      (Chapter.beginning chapters.length s told))
    (hk : chapters.length < 2 ^ 64) (hfits : Chapter.Fits ⟨⟨s, outcomes, ms⟩, told⟩ chapters.length)
    (hupdate : stored.update (Batch.closing chapters.length s outcomes ms) = .ok new) :
    Account a new (reports ++ [.batch (Batch.closing chapters.length s outcomes ms) none,
        .notice (.sequenceFinish chapters.length s (Tally.ofReports outcomes).status)])
      (tally.add (.ofReports outcomes)) (chapters ++ [⟨⟨s, outcomes, ms⟩, told⟩]) [] later [] := by
  -- every step of the sequence has its outcome
  have hlength : outcomes.length = s.opened.steps.length :=
    hfits.length_eq.trans (List.length_map _).symm
  have halters := Act.closed_of_update hk h.getElem?.2 hlength hupdate
  have hmodify := Progress.modify_length_append (chapters.map (·.record)) s.opened later
    (·.closed outcomes ms)
  rw [List.length_map, Progress.opened_closed] at hmodify
  refine ⟨?_, ?_, ?_, ?_, ?_⟩
  · simpa using h.planned_eq
  · have hstored := h.stored_eq
    rw [List.append_assoc] at hstored
    rw [halters.sequences_eq, hstored]
    simpa [Finished.record] using hmodify
  · rw [h.tally_eq]
    simp [Tally.ofReports_append]
  · -- only the chapter at the end is new
    intro i c hc
    rcases Nat.lt_or_ge i chapters.length with hi | hi
    · rw [List.getElem?_append_left hi] at hc
      exact h.fits i c hc
    · rw [List.getElem?_append_right hi, List.getElem?_singleton] at hc
      split at hc
      · obtain rfl : i = chapters.length := by omega
        exact Option.some.inj hc ▸ hfits
      · cases hc
  · rw [h.reports_eq, narrate_concat, Nat.zero_add]
    simp only [List.append_assoc, List.append_nil]
    rfl

/-- The run is over. -/
theorem Account.finish {o : Outcome} {journal : List Entry} (notes : List Annotation)
    (h : Account a stored reports tally chapters [] later [])
    (hreports : journal.filter (·.isReport) = reports ++ epilogue o later)
    (hfailed : o.failed = tally.failed) :
    Observed a (stored.finished o.status o.wallClockMs notes) o journal chapters later where
  planned_eq := by simpa using h.planned_eq.symm
  stored_eq := (show stored.sequences = _ by simpa using h.stored_eq)
  status_eq := rfl
  fits := h.fits
  reports_eq := by rw [hreports, h.reports_eq, List.append_nil]
  hasError_iff := by
    rw [Outcome.hasError, decide_eq_true_iff, hfailed, h.tally_eq,
      ← (Tally.count_status _).2.1, gt_iff_lt, List.count_pos_iff, List.map_flatMap,
      List.mem_flatMap]
    refine exists_congr fun c => and_congr_right fun hc => ?_
    obtain ⟨k, hk⟩ := List.mem_iff_getElem?.mp hc
    have hstatus : c.record.steps.map (·.status) = c.reports.map (·.outcome.status) :=
      Progress.map_status_closed (h.fits k c hk).length_eq
    rw [← hstatus, List.mem_map]

end Accounts

/-! ## While a sequence runs -/

theorem toldBy_append (told more : List (Nat × Notice)) (j : Nat) :
    toldBy (told ++ more) j = toldBy told j ++ toldBy more j := by
  simp [toldBy]

theorem toldBy_map_self (more : List Notice) (j : Nat) : toldBy (more.map (j, ·)) j = more := by
  simp [toldBy, List.filter_map, Function.comp_def]

theorem toldBy_map_of_ne (more : List Notice) {i j : Nat} (h : i ≠ j) :
    toldBy (more.map (i, ·)) j = [] := by
  simp [toldBy, List.filter_map, Function.comp_def, h]

namespace Underway

variable {k j : Nat} {s : Sequence} {steps : List Activity} {told : List (Nat × Notice)}

theorem begin {records : List Generation} (h : records.length = s.steps.length) :
    Underway k s (records.map .waiting) [] where
  length_eq := (List.length_map _).trans h
  told_lt := fun t ht => absurd ht List.not_mem_nil
  hasTold := by
    intro j step b _ hb
    obtain ⟨record, -, rfl⟩ := List.mem_map.mp (List.mem_of_getElem? hb)
    rfl

/-- A step moves. -/
theorem move {x x' : Executor} {clock : Nat} {isCancelled : Bool} {step : Step} {b b' : Activity}
    {entries : List Entry} (h : Underway k s steps told) (hstep : s.steps[j]? = some step)
    (hb : steps[j]? = some b)
    (hmove : Activity.Advanced x clock isCancelled ⟨k, j, step⟩ b x' b' entries) :
    ∃ more : List Notice, entries.filter (·.isReport) = more.map .notice ∧
      Underway k s (steps.set j b') (told ++ more.map (j, ·)) := by
  obtain ⟨more, hmore, htold⟩ := hmove.hasTold (h.hasTold j step b hstep hb)
  obtain ⟨hj, -⟩ := List.getElem?_eq_some_iff.mp hstep
  refine ⟨more, hmore, (List.length_set ..).trans h.length_eq, ?_, ?_⟩
  · intro t ht
    rcases List.mem_append.mp ht with hold | hnew
    · exact h.told_lt t hold
    · obtain ⟨n, -, rfl⟩ := List.mem_map.mp hnew
      exact hj
  · intro i step' c hstep' hc
    rw [toldBy_append]
    rcases eq_or_ne j i with rfl | hne
    · obtain rfl := Option.some.inj (hstep.symm.trans hstep')
      obtain ⟨hlt, -⟩ := List.getElem?_eq_some_iff.mp hb
      rw [List.getElem?_set_self hlt] at hc
      rw [toldBy_map_self]
      exact Option.some.inj hc ▸ htold
    · rw [List.getElem?_set_ne hne] at hc
      rw [toldBy_map_of_ne more hne, List.append_nil]
      exact h.hasTold i step' c hstep' hc

/-- All steps have ended. -/
theorem fits {outcomes : List StepReport} (h : Underway k s (outcomes.map .ended) told) (ms : Nat) :
    Chapter.Fits ⟨⟨s, outcomes, ms⟩, told⟩ k where
  length_eq := (List.length_map _).symm.trans h.length_eq
  told_lt := h.told_lt
  story := by
    intro j step hstep
    have hlength : outcomes.length = s.steps.length := (List.length_map _).symm.trans h.length_eq
    have hj : j < s.steps.length := (List.getElem?_eq_some_iff.mp hstep).1
    obtain ⟨r, hr⟩ : ∃ r, outcomes[j]? = some r := ⟨_, List.getElem?_eq_getElem (by omega)⟩
    refine ⟨step.closed r, r.outcome, ?_, rfl, ?_⟩
    · exact List.getElem?_zipWith_eq_some.mpr ⟨step, r, hstep, hr, rfl⟩
    · refine h.hasTold j step (.ended r) hstep ?_
      rw [List.getElem?_map, hr]
      rfl

end Underway

/-! ## Moves -/

namespace Run

variable {w w' : World} {r r' : Run} {a stored : Act}

/-- A batch that is refused leaves nothing to say about the run. -/
theorem narrated_of_send {patches : List Patch} {next : Run → Run} (hact : r.act = a)
    (hget : w.store.get? a.id = some stored) (h : send w r patches next = (w', r'))
    (hnext : ∀ new, stored.update patches = .ok new →
      (next (r.record [.batch patches none])).Narrated a new) :
    ∃ stored', w'.store.get? a.id = some stored' ∧ r'.Narrated a stored' := by
  rcases send_eq h with ⟨store, happly, rfl, rfl⟩ | ⟨e, -, rfl, rfl⟩
  · rw [hact] at happly
    obtain ⟨old, new, -, hold, hupdate, hnew, -⟩ := Store.apply_eq happly
    obtain rfl := Option.some.inj (hget.symm.trans hold)
    exact ⟨new, hnew, hnext new hupdate⟩
  · exact ⟨stored, hget, trivial⟩

/-- A move of the run itself reports what its account says comes next. -/
theorem Led.narrated (h : Led w r w' r') (hact : r.act = a)
    (hget : w.store.get? a.id = some stored) (hr : r.Narrated a stored) :
    ∃ stored', w'.store.get? a.id = some stored' ∧ r'.Narrated a stored' := by
  cases h with
  | refuse hc hs => exact ⟨stored, hget, trivial⟩
  | begin hc hs hsend =>
    simp only [Narrated, hc] at hr
    obtain ⟨rfl, htally, hreports⟩ := hr
    refine narrated_of_send hact hget hsend fun new hupdate => ?_
    obtain rfl := Except.ok.inj (hupdate.symm.trans (Act.takes_begin stored).update_eq)
    refine ⟨[], stored.sequences, rfl, ?_⟩
    rw [goto_tally, note_tally, record_tally, htally]
    refine account_begin ?_
    rw [reports_goto, reports_note, reports_record, hreports, record_act, hact]
    rfl
  | skip hc hk hi =>
    simp only [Narrated, hc] at hr
    exact ⟨stored, hget, hr⟩
  | @enter k hc hk hi =>
    simp only [Narrated, hc] at hr
    subst hact
    exact ⟨stored, hget, hr, r.act.sequences[k], List.getElem?_eq_getElem hk, Nat.zero_le _⟩
  | complete hc hk =>
    simp only [Narrated, hc] at hr
    exact ⟨stored, hget, hr⟩
  | missing hc hs hstep hg => exact ⟨stored, hget, trivial⟩
  | unexpected hc hs hstep hg hstatus => exact ⟨stored, hget, trivial⟩
  | found hc hs hstep hg hstatus =>
    simp only [Narrated, hc] at hr
    obtain ⟨hlt, -⟩ := List.getElem?_eq_some_iff.mp hstep
    refine ⟨stored, hget, hr.1, _, hact ▸ hs, ?_⟩
    rw [List.length_append, List.length_singleton]
    exact hlt
  | @«open» k records s w' r' hc hs hall hsend =>
    simp only [Narrated, hc] at hr
    obtain ⟨⟨chapters, later, rfl, haccount⟩, s', hs', hlength⟩ := hr
    rw [hact] at hs
    obtain rfl := Option.some.inj (hs.symm.trans hs')
    refine narrated_of_send hact hget hsend fun new hupdate => ?_
    obtain ⟨hk, rest, hopened⟩ := haccount.open hs hupdate
    -- no step of the sequence has told anything yet
    refine ⟨chapters, s, rest, [], rfl, hk, ?_, .begin (Nat.le_antisymm hlength hall)⟩
    rw [goto_tally, note_tally, record_tally, reports_goto, reports_note, reports_record,
      List.append_assoc]
    exact hopened
  | @close k since steps s outcomes w' r' hc hs houtcomes hsend =>
    simp only [Narrated, hc] at hr
    obtain ⟨chapters, s', later, told, rfl, hk, haccount, hunder⟩ := hr
    rw [hact] at hs
    obtain rfl := Option.some.inj (hs.symm.trans haccount.getElem?.1)
    rw [Activity.eq_map_ended houtcomes] at hunder
    refine narrated_of_send hact hget hsend fun new hupdate => ?_
    have hfits := hunder.fits (elapsed since w.clock)
    -- the sequence that was under way becomes a chapter, with what its steps have told
    refine ⟨chapters ++ [⟨⟨s, outcomes, elapsed since w.clock⟩, told⟩], later,
      List.length_append, ?_⟩
    rw [goto_tally, note_tally, record_tally, reports_goto, reports_note, reports_record,
      List.append_assoc]
    exact haccount.close hk hfits hupdate
  | @judge k tally hc =>
    simp only [Narrated, hc] at hr
    refine ⟨stored, hget, ?_⟩
    simp only [Narrated, goto_control, goto_tally]
    rcases r.judge_eq k tally with ⟨hj, -⟩ | ⟨hj, -⟩ | ⟨hj, -⟩ <;> rw [hj] <;> exact hr
  | @finish status k outcome w' r' hc ho hsend =>
    simp only [Narrated, hc] at hr
    obtain ⟨chapters, later, rfl, haccount⟩ := hr
    -- the sequences after the chapters are those that are told to be skipped
    have hskipped : r.act.sequences.drop chapters.length = later := by
      have hplanned := haccount.planned_eq
      rw [List.append_nil] at hplanned
      rw [hact, ← hplanned, List.drop_left' (List.length_map _)]
    rw [hskipped] at hsend
    refine narrated_of_send (r := r.record _) hact hget hsend fun new hupdate => ?_
    obtain rfl := Except.ok.inj (hupdate.symm.trans (Act.takes_final stored _ _).update_eq)
    subst ho
    refine ⟨chapters, later, haccount.finish (o := r.outcome status _ _) _ ?_ rfl⟩
    have hskips : (later.map fun s => Entry.notice (.sequenceSkip s)).filter (·.isReport) =
        later.map fun s => .notice (.sequenceSkip s) :=
      List.filter_eq_self.mpr (by simp [Entry.isReport])
    show Run.reports _ = _
    rw [reports_goto, reports_note, reports_note, reports_record, reports_record, hskips]
    simp only [epilogue, List.append_assoc]
    rfl
  | abort hc hsend =>
    obtain ⟨stored', hget', -⟩ := narrated_of_send hact hget hsend fun new _ => (by
      simp only [Narrated, id, record_control, hc])
    exact ⟨stored', hget', trivial⟩

/-- A move of a step adds to what this step has told. -/
theorem narrated_of_stepMove {j : Nat} (h : r.stepMove w j = some (w', r')) (hact : r.act = a)
    (hr : r.Narrated a stored) : w'.store = w.store ∧ r'.Narrated a stored := by
  obtain ⟨k, since, steps, s, step, b, x, b', entries, hc, hs, hstep, hb, hadvance, rfl, rfl⟩ :=
    stepMove_eq h
  simp only [Narrated, hc] at hr
  obtain ⟨chapters, s', later, told, rfl, hk, haccount, hunder⟩ := hr
  obtain rfl := Option.some.inj ((hact ▸ hs).symm.trans haccount.getElem?.1)
  obtain ⟨more, hmore, hunder'⟩ := hunder.move hstep hb (Activity.advanced_of_advance hadvance)
  refine ⟨rfl, chapters, s, later, _, rfl, hk, { haccount with reports_eq := ?_ }, hunder'⟩
  rw [reports_goto, reports_record, hmore, haccount.reports_eq]
  simp [Chapter.beginning]

end Run

/-! ## Whole runs -/

namespace Scene

variable {others : Interference} {c c' : Scene} {a : Act}

/-- The run is one of `a`, and it is known what was reported of it. -/
def Narrates (a : Act) (c : Scene) : Prop :=
  c.run.act = a ∧ ∃ stored, c.world.store.get? a.id = some stored ∧ c.run.Narrated a stored

/-- Whatever happens, it is known what was reported. -/
theorem Next.narrates (h : Next others c c')
    (hothers : ∀ w w', others w w' → World.KeepsAct a.id w w') (hc : c.Narrates a) :
    c'.Narrates a := by
  obtain ⟨hact, stored, hget, hr⟩ := hc
  cases h with
  | lead h =>
    have hled := Run.led_of_lead h
    exact ⟨hled.continues.act_eq.trans hact, hled.narrated hact hget hr⟩
  | step j h =>
    obtain ⟨hstore, hr'⟩ := Run.narrated_of_stepMove h hact hr
    obtain ⟨_, _, _, _, _, _, _, _, _, -, -, -, -, -, -, rfl⟩ := Run.stepMove_eq h
    exact ⟨hact, stored, hstore ▸ hget, hr'⟩
  | cancel => exact ⟨hact, stored, hget, hr⟩
  | others h => exact ⟨hact, stored, (hothers _ _ h).trans hget, hr⟩

/-- **The observer's protocol.** A run of any stored act that comes to an
outcome, while others leave the act alone, has reported the beginning of the
act, every sequence that ran with the stories of its steps, every sequence
that was skipped, and the end, in this order and each after the batch that
it tells of was accepted; what was told agrees with what is stored. -/
theorem observer_protocol {w : World} {isCancelled : Bool} {o : Outcome}
    (hget : w.store.get? a.id = some a)
    (hreach : Reaches (World.KeepsAct a.id) (begin w a isCancelled) c)
    (hdone : c.run.control = .done (.ok o)) :
    ∃ stored chapters skipped, c.world.store.get? a.id = some stored ∧
      Observed a stored o c.run.journal chapters skipped := by
  have hbegin : (begin w a isCancelled).Narrates a := ⟨rfl, a, hget, rfl, rfl, rfl⟩
  obtain ⟨-, stored, hstored, hr⟩ := hreach.induct (P := fun c => c.Narrates a) hbegin
    fun d d' hnext hd => hnext.narrates (fun _ _ h => h) hd
  simp only [Run.Narrated, hdone] at hr
  obtain ⟨chapters, skipped, hobserved⟩ := hr
  exact ⟨stored, chapters, skipped, hstored, hobserved⟩

theorem sample_observer_protocol :
    sampleOpening.world.store.get? Sample.blueprint.act.id = some Sample.blueprint.act ∧
    ∃ c o, Reaches (World.KeepsAct Sample.blueprint.act.id) sampleOpening c ∧
      c.run.control = .done (.ok o) ∧ (o.hasError ∧ o.skippedSequences = 1) ∧
      ∃ stored chapters skipped,
        c.world.store.get? Sample.blueprint.act.id = some stored ∧
        Observed Sample.blueprint.act stored o c.run.journal chapters skipped := by
  have hget : sampleOpening.world.store.get? Sample.blueprint.act.id =
      some Sample.blueprint.act := by decide +kernel
  have hplayed : ((sampleOpening.perform sampleFailure).bind (·.run.outcome?)) =
      some ⟨Sample.blueprint.act.id, .failed, 2, 2, 0, 1, 0, 1⟩ := by
    decide +kernel
  obtain ⟨c, hc, houtcome⟩ := Option.bind_eq_some_iff.mp hplayed
  have hreach : Reaches (World.KeepsAct Sample.blueprint.act.id) sampleOpening c :=
    reaches_of_perform (fun d hd w => congrArg (fun s : Store => s.get? Sample.blueprint.act.id)
      (sampleFailure_store d hd w)) hc
  have hdone := Run.done_of_outcome? houtcome
  exact ⟨hget, c, _, hreach, hdone, ⟨rfl, rfl⟩, observer_protocol hget hreach hdone⟩

end Scene

end Workflow
