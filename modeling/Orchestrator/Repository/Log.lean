import Orchestrator.Repository.Invariant

/-!
# The events that a call logs

A call either leaves all logs alone or puts events at the ends of the logs of
their runs and of the list of all events, each under the next number of the one
sequence counter. `step_logging` states this for every call.
-/

namespace Orchestrator

/-- A committed event names the run of its claim. -/
theorem Commits.event_runId {claim : StepClaim} {manifest : RunManifest}
    {completion : StepCompletion} (h : Commits claim manifest completion) :
    completion.event.runId = claim.runId := by
  cases h <;> rfl

/-- The event of a recovery names the recovered run. -/
theorem Recovers.event_runId {runId : RunId} {step : StepSpec} {record recovered : StepRecord}
    {now : UInt64} {event : ExecutionEvent}
    (h : Recovers runId step record now recovered event) : event.runId = runId := by
  cases h <;> rfl

/-! The payloads of a run, by the updates that leave them. -/

namespace RunRecord

variable (run : RunRecord) (record : StepRecord)

@[simp] theorem settle_events : run.settle.events = run.events := by rw [settle_eq]

@[simp] theorem noteRecovery_events : (run.noteRecovery record).events = run.events := by
  rw [noteRecovery_eq]

@[simp] theorem noteFailure_events : (run.noteFailure record).events = run.events := by
  rw [noteFailure_eq]

@[simp] theorem noteFailure_eventLog : (run.noteFailure record).eventLog = run.eventLog := by
  rw [noteFailure_eq]

end RunRecord

namespace Repository

/-- The log of a run, empty where none is stored. -/
def log (s : Repository) (k : RunId) : List EventEnvelope :=
  (s.runs[k]?).elim [] RunRecord.eventLog

/-- The events of a run, empty where none is stored. -/
def payloads (s : Repository) (k : RunId) : List ExecutionEvent :=
  (s.runs[k]?).elim [] RunRecord.events

/-- No log changes. -/
structure Silent (s s' : Repository) : Prop where
  log : ∀ k, s'.log k = s.log k
  payloads : ∀ k, s'.payloads k = s.payloads k
  events : s'.events = s.events
  sequence : s'.nextEventSequence = s.nextEventSequence

/-- One event is logged for its run, under the next sequence number. -/
structure Logs (s : Repository) (envelope : EventEnvelope) (s' : Repository) : Prop where
  issued : ∃ now, envelope = eventEnvelope envelope.event.runId
    (s.nextEventSequence.saturatingAdd 1) envelope.event now
  log : ∀ k, s'.log k = s.log k ++ if envelope.event.runId = k then [envelope] else []
  payloads : ∀ k,
    s'.payloads k = s.payloads k ++ if envelope.event.runId = k then [envelope.event] else []
  events : s'.events = s.events ++ [envelope]
  sequence : s'.nextEventSequence = s.nextEventSequence.saturatingAdd 1

/-- A list of events is logged, one after the other. -/
inductive Logging : Repository → List EventEnvelope → Repository → Prop where
  | silent {s s' : Repository} (quiet : s.Silent s') : Logging s [] s'
  | event {s s' s'' : Repository} {envelope : EventEnvelope} {rest : List EventEnvelope}
      (logs : s.Logs envelope s') (others : Logging s' rest s'') :
      Logging s (envelope :: rest) s''

section Logging

variable {s s' s'' : Repository}

theorem Silent.refl (s : Repository) : s.Silent s := ⟨fun _ => rfl, fun _ => rfl, rfl, rfl⟩

theorem Silent.logs {envelope : EventEnvelope} (quiet : s.Silent s') (h : s'.Logs envelope s'') :
    s.Logs envelope s'' := by
  obtain ⟨issued, log, payloads, events, sequence⟩ := h
  refine ⟨?_, fun k => ?_, fun k => ?_, ?_, ?_⟩
  · rwa [← quiet.sequence]
  · rw [log, quiet.log]
  · rw [payloads, quiet.payloads]
  · rw [events, quiet.events]
  · rw [sequence, quiet.sequence]

theorem Logs.logging {envelope : EventEnvelope} (h : s.Logs envelope s') :
    s.Logging [envelope] s' :=
  .event h (.silent (.refl s'))

theorem Silent.trans (quiet : s.Silent s') (later : s'.Silent s'') : s.Silent s'' :=
  ⟨fun k => (later.log k).trans (quiet.log k), fun k => (later.payloads k).trans (quiet.payloads k),
    later.events.trans quiet.events, later.sequence.trans quiet.sequence⟩

theorem Silent.logging {envelopes : List EventEnvelope} (quiet : s.Silent s')
    (h : s'.Logging envelopes s'') : s.Logging envelopes s'' := by
  cases h with
  | silent later => exact .silent (quiet.trans later)
  | event logs others => exact .event (quiet.logs logs) others

theorem Logging.trans {envelopes more : List EventEnvelope} (h : s.Logging envelopes s')
    (later : s'.Logging more s'') : s.Logging (envelopes ++ more) s'' := by
  induction h with
  | silent quiet => exact quiet.logging later
  | event logs _ ih => exact .event logs (ih later)

theorem Logging.events {envelopes : List EventEnvelope} (h : s.Logging envelopes s') :
    s'.events = s.events ++ envelopes := by
  induction h with
  | silent quiet => rw [quiet.events, List.append_nil]
  | event logs _ ih => rw [ih, logs.events, List.append_assoc, List.singleton_append]

theorem Logging.log {envelopes : List EventEnvelope} (h : s.Logging envelopes s') (k : RunId) :
    s'.log k = s.log k ++ envelopes.filter fun envelope => envelope.event.runId = k := by
  induction h with
  | silent quiet => rw [quiet.log, List.filter_nil, List.append_nil]
  | event logs _ ih =>
      rw [ih, logs.log, List.append_assoc, List.filter_cons]
      simp only [decide_eq_true_eq]
      split <;> rfl

theorem Logs.sequence_eq {envelope : EventEnvelope} (h : s.Logs envelope s') :
    envelope.sequence = s.nextEventSequence.saturatingAdd 1 := by
  obtain ⟨now, issued⟩ := h.issued
  rw [issued]
  rfl

theorem Logging.sequence_le {envelopes : List EventEnvelope} (h : s.Logging envelopes s') :
    s.nextEventSequence.toNat ≤ s'.nextEventSequence.toNat := by
  induction h with
  | silent quiet => exact Nat.le_of_eq (by rw [quiet.sequence])
  | event logs _ ih =>
      rw [logs.sequence] at ih
      exact Nat.le_trans (UInt64.le_saturatingAdd _ _) ih

/-- The counter reaches every number that it gave out. -/
theorem Logging.issued_le {envelopes : List EventEnvelope} (h : s.Logging envelopes s') :
    ∀ envelope ∈ envelopes, envelope.sequence.toNat ≤ s'.nextEventSequence.toNat := by
  induction h with
  | silent quiet => exact fun _ member => absurd member List.not_mem_nil
  | event logs others ih =>
      intro envelope member
      obtain rfl | later := List.mem_cons.mp member
      · rw [logs.sequence_eq, ← logs.sequence]
        exact others.sequence_le
      · exact ih envelope later

/-- A number that the counter passed, but not the largest, is below every later one. -/
theorem Logging.lt_issued {envelopes : List EventEnvelope} (h : s.Logging envelopes s') {n : Nat}
    (passed : n ≤ s.nextEventSequence.toNat) (below : n < UInt64.maxNat) :
    ∀ envelope ∈ envelopes, n < envelope.sequence.toNat := by
  induction h with
  | silent quiet => exact fun _ member => absurd member List.not_mem_nil
  | event logs others ih =>
      intro envelope member
      obtain rfl | later := List.mem_cons.mp member
      · rw [logs.sequence_eq]
        exact UInt64.lt_saturatingAdd_one passed below
      · refine ih ?_ envelope later
        rw [logs.sequence]
        exact Nat.le_trans passed (UInt64.le_saturatingAdd _ _)

/-- Successive events get increasing numbers until the largest is reached. -/
theorem Logging.ordered {envelopes : List EventEnvelope} (h : s.Logging envelopes s') :
    envelopes.Pairwise fun earlier later => earlier.sequence.toNat < UInt64.maxNat →
      earlier.sequence < later.sequence := by
  induction h with
  | silent quiet => exact .nil
  | event logs others ih =>
      refine List.pairwise_cons.mpr ⟨fun later member below => ?_, ih⟩
      refine UInt64.lt_iff_toNat_lt.mpr (others.lt_issued (Nat.le_of_eq ?_) below later member)
      rw [logs.sequence_eq, logs.sequence]

/-- A record written back under its id with the logs that it had. -/
theorem silent_of_runs (k : RunId) (run : RunRecord)
    (runs : ∀ id, s'.runs[id]? = if k = id then some run else s.runs[id]?)
    (log : run.eventLog = s.log k) (payloads : run.events = s.payloads k)
    (events : s'.events = s.events) (sequence : s'.nextEventSequence = s.nextEventSequence) :
    s.Silent s' := by
  refine ⟨fun id => ?_, fun id => ?_, events, sequence⟩
  · rw [Repository.log, runs]
    split
    next same => rw [← same, ← log]; rfl
    · rfl
  · rw [Repository.payloads, runs]
    split
    next same => rw [← same, ← payloads]; rfl
    · rfl

theorem silent_setRun {k : RunId} {old : RunRecord} (run : RunRecord)
    (found : s.runs[k]? = some old)
    (log : run.eventLog = old.eventLog) (payloads : run.events = old.events) :
    s.Silent (s.setRun k run) := by
  refine silent_of_runs k run getElem?_setRun ?_ ?_ rfl rfl
  · rw [Repository.log, found]
    exact log
  · rw [Repository.payloads, found]
    exact payloads

/-- Appending an event to the log of a stored run. -/
theorem appendEvent_logs {k : RunId} {run : RunRecord} {event : ExecutionEvent} (now : UInt64)
    (found : s.runs[k]? = some run) (own : event.runId = k) :
    ∃ s', appendEvent s k event now =
        (.ok (eventEnvelope k (s.nextEventSequence.saturatingAdd 1) event now), s') ∧
      s.Logs (eventEnvelope k (s.nextEventSequence.saturatingAdd 1) event now) s' := by
  subst own
  simp only [appendEvent, found]
  refine ⟨_, rfl, ⟨now, rfl⟩, fun id => ?_, fun id => ?_, rfl, rfl⟩
  · by_cases same : event.runId = id
    · subst same
      simp [log, found, setRun, RunRecord.pushEvent, eventEnvelope]
    · simp [log, setRun, same, eventEnvelope]
  · by_cases same : event.runId = id
    · subst same
      simp [payloads, found, setRun, RunRecord.pushEvent, eventEnvelope]
    · simp [payloads, setRun, same, eventEnvelope]

/-- The same for the operations that answer with the run as it then stands. -/
theorem appendAndReturn_logs {k : RunId} {run : RunRecord} (event : ExecutionEvent) (now : UInt64)
    (absent : RepositoryError) (found : s.runs[k]? = some run) (own : event.runId = k) :
    ∃ envelope, s.Logs envelope (s.appendAndReturn k event now absent).2 := by
  obtain ⟨s', appended, logs⟩ := appendEvent_logs now found own
  refine ⟨eventEnvelope k (s.nextEventSequence.saturatingAdd 1) event now, ?_⟩
  rw [appendAndReturn, appended]
  exact logs

/-- Storing a run that has logged nothing and logging its first event. -/
theorem stored_logging (s₀ : Repository) {k : RunId} {run : RunRecord} {event : ExecutionEvent}
    (now : UInt64) (absent : RepositoryError) (fresh : s.runs[k]? = none) (runs : s₀.runs = s.runs)
    (events : s₀.events = s.events) (sequence : s₀.nextEventSequence = s.nextEventSequence)
    (log : run.eventLog = []) (payloads : run.events = []) (own : event.runId = k) :
    ∃ envelopes, s.Logging envelopes
      ((s₀.setRun k run).appendAndReturn k event now absent).2 := by
  obtain ⟨envelope, logs⟩ := appendAndReturn_logs event now absent
    (getElem?_setRun_self s₀ k run) own
  have quiet : s.Silent (s₀.setRun k run) := by
    refine silent_of_runs k run (fun id => ?_) ?_ ?_ events sequence
    · rw [getElem?_setRun, runs]
    · rw [log, Repository.log, fresh]
      rfl
    · rw [payloads, Repository.payloads, fresh]
      rfl
  exact ⟨_, (quiet.logs logs).logging⟩

end Logging

section Calls

variable (s : Repository)

theorem createRun_logging (request : RunRequest) (clock : Clock) :
    ∃ envelopes, s.Logging envelopes (s.createRun request clock).2 := by
  have unchanged : ∃ envelopes, s.Logging envelopes s := ⟨[], .silent (.refl s)⟩
  unfold createRun
  split
  · exact unchanged
  · exact unchanged
  · split
    · split
      · exact unchanged
      · split <;> exact unchanged
    · split
      · exact unchanged
      next absent =>
        have fresh : s.runs[request.runId]? = none := by
          simpa [Std.ExtTreeMap.contains_iff_mem] using absent
        exact stored_logging _ (clock.call 1) (.conflict request.runId) fresh
          (by split <;> rfl) (by split <;> rfl) (by split <;> rfl) rfl rfl rfl

theorem claimNextStep_logging (k : RunId) (worker : WorkerProfile) (leaseMs : UInt64)
    (clock : Clock) : s.Logging [] (s.claimNextStep k worker leaseMs clock).2 := by
  have unchanged : s.Logging [] s := .silent (.refl s)
  unfold claimNextStep
  split
  · exact unchanged
  next run found =>
    split
    · exact unchanged
    · split
      · exact unchanged
      · split
        · exact unchanged
        · refine .silent (silent_of_runs _ _ getElem?_setRun ?_ ?_ rfl rfl)
          · rw [log, found]
            rfl
          · rw [payloads, found]
            rfl

theorem renewStep_logging (claim : StepClaim) (leaseMs : UInt64) (clock : Clock) :
    s.Logging [] (s.renewStep claim leaseMs clock).2 := by
  have unchanged : s.Logging [] s := .silent (.refl s)
  unfold renewStep
  split
  · exact unchanged
  next run found =>
    split
    · exact unchanged
    · split
      · exact unchanged
      · split
        · exact unchanged
        · exact .silent (silent_setRun _ found rfl rfl)

theorem completeStep_logging (keyed : s.Keyed) (claim : StepClaim) (completion : StepCompletion)
    (clock : Clock) :
    ∃ envelopes, s.Logging envelopes (s.completeStep claim completion clock).2 := by
  have unchanged : ∃ envelopes, s.Logging envelopes s := ⟨[], .silent (.refl s)⟩
  unfold completeStep
  split
  · exact unchanged
  next run found =>
    split
    · exact unchanged
    next record foundStep =>
      split
      · exact unchanged
      · split
        · exact unchanged
        next accepted =>
          have commits := completionMatchesClaim_iff.mp (by simpa using accepted)
          have own : run.runId = claim.runId := keyed _ _ found
          have same : (run.commit claim.step.id (record.complete completion (clock.call 1)
              (clock.call 2))).runId = run.runId := (RunRecord.SameRequest.commit _ _).runId
          rw [RunRecord.commit] at same
          obtain ⟨s', appended, logs⟩ := appendEvent_logs (clock.call 3)
            (getElem?_setRun_self s claim.runId (run.commit claim.step.id (record.complete completion
              (clock.call 1) (clock.call 2)))) commits.event_runId
          simp only [RunRecord.commit] at appended
          simp only [same, own, appended]
          have quiet := silent_setRun (run.commit claim.step.id (record.complete completion
            (clock.call 1) (clock.call 2))) found (by simp) (by simp [RunRecord.commit]; rfl)
          exact ⟨_, (quiet.logs logs).logging⟩

theorem recordEvent_logging (k : RunId) (event : ExecutionEvent) (clock : Clock) :
    ∃ envelopes, s.Logging envelopes (s.recordEvent k event clock).2 := by
  have unchanged : ∃ envelopes, s.Logging envelopes s := ⟨[], .silent (.refl s)⟩
  unfold recordEvent
  split
  · exact unchanged
  next run found =>
    split
    · exact unchanged
    next accepted =>
      have own : event.runId = k := by
        simp only [Bool.or_eq_true, not_or] at accepted
        simpa [eventBelongsToRun] using accepted.1
      obtain ⟨s', appended, logs⟩ := appendEvent_logs (clock.call 0) found own
      have logging := logs.logging
      simp only [appended]
      split <;> exact ⟨_, logging⟩

theorem finishRun_logging (k : RunId) (metrics : List Metric) (clock : Clock) :
    ∃ envelopes, s.Logging envelopes (s.finishRun k metrics clock).2 := by
  unfold finishRun
  split
  · exact ⟨[], .silent (.refl s)⟩
  next run found =>
    simp only []
    split
    · exact ⟨[], .silent (silent_setRun _ found rfl rfl)⟩
    · have quiet : s.Silent (s.setRun k (run.setMetrics metrics).settle) :=
        silent_setRun _ found (by simp) (by rw [RunRecord.settle_events]; rfl)
      split
      · obtain ⟨envelope, logs⟩ := appendAndReturn_logs
          (.runFinished k (run.setMetrics metrics).settle.status) (clock.call 0) (.runNotFound k)
          (getElem?_setRun_self s k (run.setMetrics metrics).settle) rfl
        exact ⟨_, (quiet.logs logs).logging⟩
      · exact ⟨[], .silent quiet⟩

theorem cancelRun_logging (k : RunId) (clock : Clock) :
    ∃ envelopes, s.Logging envelopes (s.cancelRun k clock).2 := by
  unfold cancelRun
  split
  · exact ⟨[], .silent (.refl s)⟩
  next run found =>
    split
    · exact ⟨[], .silent (.refl s)⟩
    · obtain ⟨envelope, logs⟩ := appendAndReturn_logs (.runFinished k .cancelled) (clock.call 0)
        (.runNotFound k) (getElem?_setRun_self s k (run.cancelSteps (clock.step k))) rfl
      have quiet : s.Silent (s.setRun k (run.cancelSteps (clock.step k))) :=
        silent_setRun _ found rfl rfl
      exact ⟨_, (quiet.logs logs).logging⟩

/-- Recovering one step finds nothing expired or logs one event. -/
theorem recoverStep_logging (k : RunId) (step : StepSpec) (now eventNow : UInt64) :
    s.recoverStep k step now eventNow = none ∨
      ∃ result s', s.recoverStep k step now eventNow = some (.ok result, s') ∧
        s.Logging [result] s' := by
  unfold recoverStep
  split
  · exact .inl rfl
  next run found =>
    split
    · exact .inl rfl
    next record event expired =>
      obtain ⟨old, foundStep, expired⟩ := Option.bind_eq_some_iff.mp expired
      have quiet : s.Silent (s.setRun k ((run.setStep step.id record).noteRecovery record)) :=
        silent_setRun _ found (by simp) (by rw [RunRecord.noteRecovery_events]; rfl)
      obtain ⟨s', appended, logs⟩ := appendEvent_logs eventNow
        (getElem?_setRun_self s k ((run.setStep step.id record).noteRecovery record))
        (recoverExpiredStep_eq_some expired).2.event_runId
      refine .inr ⟨_, s', ?_, (quiet.logs logs).logging⟩
      simp only [appended]

theorem recoverSteps_logging (k : RunId) (now : UInt64) (clock : Clock) (steps : List StepSpec)
    (expired : List (RunId × StepId)) :
    ∃ envelopes, s.Logging envelopes (s.recoverSteps k now clock steps expired).2 := by
  induction steps generalizing s expired with
  | nil => exact ⟨[], .silent (.refl s)⟩
  | cons step rest ih =>
      obtain quiet | ⟨result, s', recovered, logging⟩ :=
        s.recoverStep_logging k step now (clock.step k step.id)
      · obtain ⟨envelopes, later⟩ := ih s expired
        refine ⟨envelopes, ?_⟩
        rw [recoverSteps, quiet]
        exact later
      · obtain ⟨envelopes, later⟩ := ih s' (expired ++ [(k, step.id)])
        refine ⟨[result] ++ envelopes, ?_⟩
        rw [recoverSteps, recovered]
        exact logging.trans later

theorem recoverRuns_logging (now : UInt64) (clock : Clock) (ids : List RunId)
    (expired : List (RunId × StepId)) :
    ∃ envelopes, s.Logging envelopes (s.recoverRuns now clock ids expired).2 := by
  induction ids generalizing s expired with
  | nil => exact ⟨[], .silent (.refl s)⟩
  | cons k rest ih =>
      unfold recoverRuns
      split
      · exact ⟨[], .silent (.refl s)⟩
      next run found =>
        obtain ⟨envelopes, logging⟩ := s.recoverSteps_logging k now clock run.workflow.steps expired
        split
        next error s' failed =>
          rw [failed] at logging
          exact ⟨envelopes, logging⟩
        next found s' recovered =>
          rw [recovered] at logging
          obtain ⟨more, later⟩ := ih s' found
          exact ⟨envelopes ++ more, logging.trans later⟩

end Calls

/-- The logging of a call on a repository whose runs are stored under their ids. -/
theorem step_logging {s : Repository} (keyed : s.Keyed) (op : Op) :
    ∃ envelopes, s.Logging envelopes (repository.next s op) := by
  cases op with
  | createRun request clock => exact s.createRun_logging request clock
  | claimNextStep runId worker leaseMs clock =>
      exact ⟨[], s.claimNextStep_logging runId worker leaseMs clock⟩
  | renewStep claim leaseMs clock => exact ⟨[], s.renewStep_logging claim leaseMs clock⟩
  | completeStep claim completion clock =>
      exact s.completeStep_logging keyed claim completion clock
  | recordEvent runId event clock => exact s.recordEvent_logging runId event clock
  | finishRun runId metrics clock => exact s.finishRun_logging runId metrics clock
  | cancelRun runId clock => exact s.cancelRun_logging runId clock
  | recoverExpired clock => exact s.recoverRuns_logging _ clock _ []

end Repository

end Orchestrator
