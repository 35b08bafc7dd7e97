/-
Workflow.Proofs.Generation.Life — the fields of a record tell what became of
the generation.

A record is made by `new` or by `retry`. From then on calls change it, or
leave it as it was where they are refused.

* `Life` — the ways in which accepted calls can follow one another, each with
  the record that it leads to: a record is created, queued and running in this
  order, and from some of these states it can end.
* `record_coherent` — whatever is called, which fields are set goes with the
  status and with the calls that were accepted, and a record that has ended can
  be retried.
-/
import Workflow.Proofs.Generation.Registry

namespace Workflow

namespace Generation

/-! ## Calls -/

/-- A call on a record. -/
inductive Call where
  | queue (time : Timestamp)
  | start (time : Timestamp)
  | complete (outputs : List Output) (time : Timestamp)
  | fail (message : String) (time : Timestamp)
  | cancel (time : Timestamp)
deriving DecidableEq, Repr

/-- What a call makes of a record, or why it is refused. -/
def answer (g : Generation) : Call → Except TransitionError Generation
  | .queue time => g.queue time
  | .start time => g.start time
  | .complete outputs time => g.complete outputs time
  | .fail message time => g.fail message time
  | .cancel time => g.cancel time

/-- The record after a call. A refused call leaves it as it was. -/
def after (g : Generation) (c : Call) : Generation :=
  match g.answer c with
  | .ok g' => g'
  | .error _ => g

/-- The record after a sequence of calls. -/
def afterAll (g : Generation) (calls : List Call) : Generation := calls.foldl after g

/-- The calls of a sequence that are accepted. -/
def accepted (g : Generation) : List Call → List Call
  | [] => []
  | c :: rest =>
    match g.answer c with
    | .ok g' => c :: accepted g' rest
    | .error _ => accepted g rest

/-- The statuses in which a call is accepted. -/
def Call.sources : Call → List GenerationStatus
  | .queue _ => [.created]
  | .start _ => [.queued]
  | .complete _ _ => [.running]
  | .fail _ _ => [.queued, .running]
  | .cancel _ => [.created, .queued, .running]

/-- What an accepted call writes into a record. -/
def Call.write (g : Generation) : Call → Generation
  | .queue time => { g with status := .queued, queuedAt := some time }
  | .start time => { g with status := .running, startedAt := some time }
  | .complete outputs time => { g with status := .completed, outputs, finishedAt := some time }
  | .fail message time =>
    { g with status := .failed, error := some message, finishedAt := some time }
  | .cancel time => { g with status := .cancelled, finishedAt := some time }

variable {g r : Generation} {taken : List Call}

/-- A call is accepted just from its sources, and writes its own fields. -/
theorem answer_eq_ok_iff {c : Call} {g' : Generation} :
    g.answer c = .ok g' ↔ g.status ∈ c.sources ∧ g' = c.write g := by
  cases c with
  | queue => exact move_bind_eq_ok_iff (by decide)
  | start => exact move_bind_eq_ok_iff (by decide)
  | complete => exact move_bind_eq_ok_iff (by decide)
  | fail => exact move_bind_eq_ok_iff (by decide)
  | cancel => exact move_bind_eq_ok_iff (by decide)

/-! ## Ways of a record -/

/-- The calls that a record has accepted while it is open, and the record. -/
inductive Open (g : Generation) : List Call → Generation → Prop
  | created : Open g [] g
  | queued (t : Timestamp) : Open g [.queue t] { g with status := .queued, queuedAt := some t }
  | running (t u : Timestamp) : Open g [.queue t, .start u]
    { g with status := .running, queuedAt := some t, startedAt := some u }

/-- The calls that a record has accepted, and the record. -/
inductive Life (g : Generation) : List Call → Generation → Prop
  | isOpen {taken : List Call} {r : Generation} (h : Open g taken r) : Life g taken r
  | completed {taken : List Call} {r : Generation} (h : Open g taken r)
    (hr : r.status = .running) (outputs : List Output) (time : Timestamp) :
    Life g (taken ++ [.complete outputs time])
      { r with status := .completed, outputs, finishedAt := some time }
  | failed {taken : List Call} {r : Generation} (h : Open g taken r)
    (hr : r.status ≠ .created) (message : String) (time : Timestamp) :
    Life g (taken ++ [.fail message time])
      { r with status := .failed, error := some message, finishedAt := some time }
  | cancelled {taken : List Call} {r : Generation} (h : Open g taken r) (time : Timestamp) :
    Life g (taken ++ [.cancel time])
      { r with status := .cancelled, finishedAt := some time }

/-- A record that accepts a call is open. -/
theorem Life.open_of_mem {c : Call} (h : Life g taken r) (hmem : r.status ∈ c.sources) :
    Open g taken r := by
  cases h with
  | isOpen h => exact h
  | _ => cases c <;> simp [Call.sources] at hmem

/-- A call on an open record leads on, or to its end. -/
theorem Open.write {c : Call} (h : Open g taken r) (hg : g.status = .created)
    (hmem : r.status ∈ c.sources) : Life g (taken ++ [c]) (c.write r) := by
  cases c with
  | queue t =>
    cases h with
    | created => exact .isOpen (.queued t)
    | _ => simp [Call.sources] at hmem
  | start u =>
    cases h with
    | queued t => exact .isOpen (.running t u)
    | created => simp [Call.sources, hg] at hmem
    | running => simp [Call.sources] at hmem
  | complete outputs time => exact .completed h (by simpa [Call.sources] using hmem) outputs time
  | fail message time =>
    refine .failed h (fun hcreated => ?_) message time
    simp [Call.sources, hcreated] at hmem
  | cancel time => exact .cancelled h time

/-- What one call leads to. -/
theorem Life.step {c : Call} {r' : Generation} (h : Life g taken r) (hg : g.status = .created)
    (hc : r.answer c = .ok r') : Life g (taken ++ [c]) r' := by
  obtain ⟨hmem, rfl⟩ := answer_eq_ok_iff.mp hc
  exact (h.open_of_mem hmem).write hg hmem

/-- What a sequence of calls leads to. -/
theorem Life.afterAll (h : Life g taken r) (hg : g.status = .created) (calls : List Call) :
    Life g (taken ++ accepted r calls) (r.afterAll calls) := by
  -- a refused call is not taken and leaves the record, so the life goes on as it was
  induction calls generalizing taken r with
  | nil => simpa [accepted, Generation.afterAll] using h
  | cons c rest ih =>
    cases hc : r.answer c with
    | ok r' =>
      have hrest := ih (h.step hg hc)
      simpa [accepted, Generation.afterAll, after, hc] using hrest
    | error e => simpa [accepted, Generation.afterAll, after, hc] using ih h

/-! ## Fields of a record -/

/-- A record that was just made. -/
inductive Fresh : Generation → Prop
  | new (id : GenerationId) (context : Context) (now : Timestamp) : Fresh (new id context now)
  | retry {old : Generation} {id : GenerationId} {now : Timestamp} {g : Generation}
    (h : old.retry id now = .ok g) : Fresh g

/-- A record of which nothing is known but what it is for. -/
structure Blank (g : Generation) : Prop where
  status_eq : g.status = .created
  outputs_eq : g.outputs = []
  error_eq : g.error = none
  queuedAt_eq : g.queuedAt = none
  startedAt_eq : g.startedAt = none
  finishedAt_eq : g.finishedAt = none

/-- Only a final record is retried, and what comes of it is new but for its
context. -/
theorem retry_eq_ok_iff {id : GenerationId} {now : Timestamp} {g' : Generation} :
    g.retry id now = .ok g' ↔
      g.isTerminal ∧ g' = { new id g.context now with retryOf := some g.id } := by
  unfold retry
  split
  · rename_i hterminal
    simp only [Except.ok.injEq, hterminal, true_and]
    exact eq_comm
  · rename_i hopen
    simp [hopen]

/-- A fresh record has nothing written yet. -/
theorem Fresh.blank (h : Fresh g) : Blank g := by
  cases h with
  | new id context now => exact ⟨rfl, rfl, rfl, rfl, rfl, rfl⟩
  | retry h =>
    obtain ⟨-, rfl⟩ := retry_eq_ok_iff.mp h
    exact ⟨rfl, rfl, rfl, rfl, rfl, rfl⟩

/-- A record `r` whose fields go with its status and with the calls that it
has accepted since it was made as `g`. -/
structure Coherent (g : Generation) (taken : List Call) (r : Generation) : Prop where
  id_eq : r.id = g.id
  context_eq : r.context = g.context
  createdAt_eq : r.createdAt = g.createdAt
  retryOf_eq : r.retryOf = g.retryOf
  /-- A record has the time of its end just if it has ended. -/
  finishedAt_isSome : r.finishedAt.isSome ↔ r.isTerminal
  queued_of_started : r.startedAt.isSome → r.queuedAt.isSome
  not_queued_of_created : r.status = .created → r.queuedAt = none
  queued_of_status : r.status ≠ .created → r.status ≠ .cancelled → r.queuedAt.isSome
  /-- In every status, cancelled among them, the time of queueing is that of
  an accepted call. -/
  queuedAt_eq_some : ∀ t, r.queuedAt = some t ↔ .queue t ∈ taken
  started_of_status : r.status = .running ∨ r.status = .completed → r.startedAt.isSome
  error_isSome : r.error.isSome ↔ r.status = .failed
  /-- Only completed work has outputs. -/
  completed_of_outputs : r.outputs ≠ [] → r.status = .completed
  /-- Queueing, starting and one ending is all that is ever accepted. -/
  length_le : taken.length ≤ 3

/-- An open record is coherent. -/
theorem Open.coherent (h : Open g taken r) (hg : Blank g) : Coherent g taken r := by
  obtain ⟨hstatus, houtputs, herror, hqueued, hstarted, hfinished⟩ := hg
  cases h with
  | created =>
    constructor <;> simp [*, isTerminal, GenerationStatus.isTerminal]
  | queued t =>
    constructor
    case queuedAt_eq_some => simp [eq_comm]
    all_goals simp [*, isTerminal, GenerationStatus.isTerminal]
  | running t u =>
    constructor
    case queuedAt_eq_some => simp [eq_comm]
    all_goals simp [*, isTerminal, GenerationStatus.isTerminal]

theorem Open.not_terminal (h : Open g taken r) (hg : Blank g) : r.isTerminal = false := by
  cases h with
  | created => simp [isTerminal, hg.status_eq, GenerationStatus.isTerminal]
  | _ => rfl

theorem Open.outputs_eq (h : Open g taken r) (hg : Blank g) : r.outputs = [] := by
  cases h <;> exact hg.outputs_eq

theorem Open.error_eq (h : Open g taken r) (hg : Blank g) : r.error = none := by
  cases h <;> exact hg.error_eq

theorem Open.length_le (h : Open g taken r) : taken.length ≤ 2 := by
  cases h <;> simp

/-- An open record comes to an end. -/
theorem Open.ended (h : Open g taken r) (hg : Blank g) {c : Call} (hc : ∀ t, c ≠ .queue t)
    {status : GenerationStatus} (hterminal : status.isTerminal)
    (hcompleted : status = .completed → r.status = .running)
    (hfailed : status = .failed → r.status ≠ .created)
    {outputs : List Output} (houtputs : outputs ≠ [] → status = .completed)
    {error : Option String} (herror : error.isSome ↔ status = .failed) (time : Timestamp) :
    Coherent g (taken ++ [c])
      { r with status, outputs, error, finishedAt := some time } := by
  have hr := h.coherent hg
  have hopen := h.not_terminal hg
  constructor
  case id_eq => exact hr.id_eq
  case context_eq => exact hr.context_eq
  case createdAt_eq => exact hr.createdAt_eq
  case retryOf_eq => exact hr.retryOf_eq
  case finishedAt_isSome => simpa [isTerminal] using hterminal
  case queued_of_started => exact hr.queued_of_started
  case not_queued_of_created =>
    rintro rfl
    simp [GenerationStatus.isTerminal] at hterminal
  -- completed and failed records were dispatched, so they were queued; a cancelled one
  -- need not be
  case queued_of_status =>
    intro _ hcancelled
    cases status with
    | completed => exact hr.queued_of_status (by simp [hcompleted rfl]) (by simp [hcompleted rfl])
    | failed =>
      refine hr.queued_of_status (hfailed rfl) (fun hr => ?_)
      simp [isTerminal, hr, GenerationStatus.isTerminal] at hopen
    | cancelled => exact absurd rfl hcancelled
    | _ => simp [GenerationStatus.isTerminal] at hterminal
  case queuedAt_eq_some =>
    intro t
    simpa [(hc t).symm] using hr.queuedAt_eq_some t
  case started_of_status =>
    rintro (rfl | rfl)
    · simp [GenerationStatus.isTerminal] at hterminal
    · exact hr.started_of_status (Or.inl (hcompleted rfl))
  case error_isSome => exact herror
  case completed_of_outputs => exact houtputs
  case length_le =>
    have hlen := h.length_le
    simp only [List.length_append, List.length_singleton]
    omega

/-- A record is coherent wherever it stands in its life. -/
theorem Life.coherent (h : Life g taken r) (hg : Blank g) : Coherent g taken r := by
  cases h with
  | isOpen h => exact h.coherent hg
  | completed h hr outputs time =>
    have herror := h.error_eq hg
    exact h.ended hg (by simp) rfl (fun _ => hr) (by simp) (by simp) (by simp [herror]) time
  | failed h hr message time =>
    have houtputs := h.outputs_eq hg
    exact h.ended hg (by simp) rfl (by simp) (fun _ => hr) (by simp [houtputs]) (by simp) time
  | cancelled h time =>
    have herror := h.error_eq hg
    have houtputs := h.outputs_eq hg
    exact h.ended hg (by simp) rfl (by simp) (by simp) (by simp [houtputs]) (by simp [herror]) time

/-! ## Retried records -/

/-- A created record for the work of an old one, of whose end it knows
nothing. -/
structure Retries (old : Generation) (id : GenerationId) (now : Timestamp) (g : Generation) :
    Prop extends Blank g where
  id_eq : g.id = id
  context_eq : g.context = old.context
  /-- It leads back to the record that it is a retry of. -/
  retryOf_eq : g.retryOf = some old.id
  createdAt_eq : g.createdAt = now

theorem exists_retry (h : r.isTerminal) (id : GenerationId) (now : Timestamp) :
    ∃ g, r.retry id now = .ok g ∧ Retries r id now g := by
  have hok : r.retry id now = .ok { new id r.context now with retryOf := some r.id } :=
    retry_eq_ok_iff.mpr ⟨h, rfl⟩
  exact ⟨_, hok, (Fresh.retry hok).blank, rfl, rfl, rfl, rfl⟩

/-- Whatever is called on a record that was just made, its fields go with
its status, and it can be retried once it has ended. `Life` follows the
accepted calls; a rejected one leaves the record alone, and so at most three
are accepted. -/
theorem record_coherent (hg : Fresh g) (calls : List Call) :
    Coherent g (accepted g calls) (g.afterAll calls) ∧
      ((g.afterAll calls).isTerminal → ∀ id now,
        ∃ g', (g.afterAll calls).retry id now = .ok g' ∧ Retries (g.afterAll calls) id now g') := by
  have hblank := hg.blank
  have hlife : Life g (accepted g calls) (g.afterAll calls) :=
    Life.afterAll (.isOpen .created) hblank.status_eq calls
  exact ⟨hlife.coherent hblank, exists_retry⟩

/-- A search that was called off before it was queued. -/
def calledOff : Generation where
  id := ⟨"search-1"⟩
  status := .cancelled
  context := ⟨⟨⟨"search"⟩, "Search", .operation .query, [], []⟩, [], [], ⟨⟨"act"⟩, ⟨"report"⟩⟩⟩
  outputs := []
  error := none
  retryOf := none
  createdAt := .epoch
  queuedAt := none
  startedAt := none
  finishedAt := some (.ofMillis 10)

/-- The same search once more. -/
def searchedAgain : Generation :=
  { new ⟨"search-2"⟩ calledOff.context (.ofMillis 20) with retryOf := some calledOff.id }

/-- It is started too early, queued twice, fails before it is started, and is
cancelled and completed too late. -/
def sampleCalls : List Call :=
  [.start (.ofMillis 21), .queue (.ofMillis 22), .queue (.ofMillis 23),
    .fail "no answer" (.ofMillis 24), .cancel (.ofMillis 25), .complete [] (.ofMillis 26)]

theorem sample_record_coherent : Fresh searchedAgain ∧
    accepted searchedAgain sampleCalls =
      [.queue (.ofMillis 22), .fail "no answer" (.ofMillis 24)] ∧
    (searchedAgain.afterAll sampleCalls).isTerminal ∧
    Coherent searchedAgain (accepted searchedAgain sampleCalls)
      (searchedAgain.afterAll sampleCalls) ∧
    ∃ g', (searchedAgain.afterAll sampleCalls).retry ⟨"search-3"⟩ (.ofMillis 30) = .ok g' ∧
      Retries (searchedAgain.afterAll sampleCalls) ⟨"search-3"⟩ (.ofMillis 30) g' := by
  have hretried : calledOff.retry ⟨"search-2"⟩ (.ofMillis 20) = .ok searchedAgain := by rfl
  have hfresh : Fresh searchedAgain := .retry hretried
  obtain ⟨hcoherent, hretry⟩ := record_coherent hfresh sampleCalls
  have hterminal : (searchedAgain.afterAll sampleCalls).isTerminal := by rfl
  exact ⟨hfresh, by rfl, hterminal, hcoherent, hretry hterminal _ _⟩

end Generation

end Workflow
