import Orchestrator.Model.Transition

/-!
# The outcomes of a leased attempt

A lease ends with a committed completion or by running out. `Commits` lists the
completions that a claim may commit, and `Recovers` the records that recovery
may leave, each with its guard and its event.
-/

namespace Orchestrator

open Json (Value)

/-- A completion that the holder of the claim may commit. -/
inductive Commits (claim : StepClaim) (manifest : RunManifest) : StepCompletion → Prop where
  | retrying (error : String) (artifacts : List ArtifactRef) (retryAfterMs : Option UInt64)
      (below : claim.attempt < claim.step.policy.retry.budget) :
      Commits claim manifest
        { StepCompletion.retrying claim.runId claim.step.id claim.attempt error with
          artifacts, retryAfterMs }
  | fallback (task : TaskId) (error : String) (artifacts : List ArtifactRef)
      (unused : claim.fallbackUsed = false)
      (selected : claim.step.policy.fallbackTask = some task)
      (known : manifest.tasks.contains task = true) :
      Commits claim manifest
        { StepCompletion.fallback claim.runId claim.step.id task error with artifacts }
  | succeeded (output : Value) (artifacts : List ArtifactRef) :
      Commits claim manifest
        { StepCompletion.succeeded claim.runId claim.step.id output claim.attempt with artifacts }
  | failed (error : String) (artifacts : List ArtifactRef)
      (spent : claim.fallbackUsed = true ∨ claim.step.policy.fallbackTask = none) :
      Commits claim manifest
        { StepCompletion.failed claim.runId claim.step.id claim.attempt error with artifacts }

theorem completionMatchesClaim_iff {completion : StepCompletion} {claim : StepClaim}
    {manifest : RunManifest} :
    completionMatchesClaim completion claim manifest = true ↔
      Commits claim manifest completion := by
  constructor
  · intro h
    obtain ⟨status, output, error, nextTask, fallbackUsed, artifacts, event, retryAfterMs⟩ :=
      completion
    cases event with
    | stepRetrying runId stepId attempt message =>
        simp [completionMatchesClaim] at h
        obtain ⟨⟨⟨⟨⟨⟨⟨⟨rfl, rfl⟩, rfl⟩, rfl⟩, below⟩, rfl⟩, rfl⟩, rfl⟩, rfl⟩ := h
        exact .retrying message artifacts retryAfterMs below
    | stepFallbackSelected runId stepId task =>
        simp [completionMatchesClaim, Option.isSome_iff_exists] at h
        obtain ⟨⟨⟨⟨⟨⟨⟨⟨⟨⟨rfl, rfl⟩, rfl⟩, rfl⟩, ⟨message, rfl⟩⟩, rfl⟩, rfl⟩, unused⟩, selected⟩,
          known⟩, rfl⟩ := h
        exact .fallback task message artifacts unused selected known
    | stepSucceeded runId stepId attempts =>
        simp [completionMatchesClaim, Option.isSome_iff_exists] at h
        obtain ⟨⟨⟨⟨⟨⟨⟨⟨rfl, rfl⟩, rfl⟩, rfl⟩, ⟨value, rfl⟩⟩, rfl⟩, rfl⟩, rfl⟩, rfl⟩ := h
        exact .succeeded value artifacts
    | stepFailed runId stepId attempts message =>
        simp [completionMatchesClaim] at h
        obtain ⟨⟨⟨⟨⟨⟨⟨⟨⟨rfl, rfl⟩, rfl⟩, rfl⟩, rfl⟩, rfl⟩, rfl⟩, rfl⟩, spent⟩, rfl⟩ := h
        exact .failed message artifacts spent
    | runStarted => simp [completionMatchesClaim] at h
    | stepStarted => simp [completionMatchesClaim] at h
    | runFinished => simp [completionMatchesClaim] at h
  · intro h
    cases h with
    | retrying error artifacts retryAfterMs below =>
        simp [completionMatchesClaim, StepCompletion.retrying, below]
    | fallback task error artifacts unused selected known =>
        simpa [completionMatchesClaim, StepCompletion.fallback, unused, selected] using known
    | succeeded output artifacts => simp [completionMatchesClaim, StepCompletion.succeeded]
    | failed error artifacts spent =>
        simpa [completionMatchesClaim, StepCompletion.failed] using spent

/-- A committed event is about the claimed step. -/
theorem Commits.stepId? {claim : StepClaim} {manifest : RunManifest} {completion : StepCompletion}
    (h : Commits claim manifest completion) : completion.event.stepId? = some claim.step.id := by
  cases h <;> rfl

/-- The record of a step whose lease ran out, as recovery leaves it. -/
def StepRecord.released (record : StepRecord) (now : UInt64) (status : StepStatus) (task : TaskId)
    (fallbackUsed : Bool) : StepRecord :=
  { record with
    task, fallbackUsed, status
    lease := none, error := some leaseExpiredError, nextAttemptAtMs := none
    history := record.history.modifyLast fun attempt =>
      attempt.close now status (some leaseExpiredError) }

/-- A record that recovery may leave for a step, and the event it logs. -/
inductive Recovers (runId : RunId) (step : StepSpec) (record : StepRecord) (now : UInt64) :
    StepRecord → ExecutionEvent → Prop where
  | retrying (below : record.attempts < step.policy.retry.budget) :
      Recovers runId step record now
        (record.released now .retrying record.task record.fallbackUsed)
        (.stepRetrying runId record.id record.attempts leaseExpiredError)
  | fallback {task : TaskId} (spent : ¬ record.attempts < step.policy.retry.budget)
      (unused : record.fallbackUsed = false) (selected : step.policy.fallbackTask = some task) :
      Recovers runId step record now (record.released now .retrying task true)
        (.stepFallbackSelected runId record.id task)
  | failed (spent : ¬ record.attempts < step.policy.retry.budget)
      (final : record.fallbackUsed = true ∨ step.policy.fallbackTask = none) :
      Recovers runId step record now
        (record.released now .failed record.task record.fallbackUsed)
        (.stepFailed runId record.id record.attempts leaseExpiredError)

/-- The event of a recovery is about the recovered step. -/
theorem Recovers.stepId? {runId : RunId} {step : StepSpec} {record recovered : StepRecord}
    {now : UInt64} {event : ExecutionEvent}
    (h : Recovers runId step record now recovered event) : event.stepId? = some record.id := by
  cases h <;> rfl

theorem recoverExpiredStep_eq_some {runId : RunId} {step : StepSpec}
    {record recovered : StepRecord} {event : ExecutionEvent} {now : UInt64}
    (h : recoverExpiredStep runId step record now = some (recovered, event)) :
    (∃ lease, record.lease = some lease ∧ ¬ now < lease.expiresAtMs) ∧
      Recovers runId step record now recovered event := by
  unfold recoverExpiredStep at h
  split at h
  · cases h
  next lease leased =>
    split at h
    · cases h
    next expired =>
      refine ⟨⟨lease, leased, expired⟩, ?_⟩
      simp only [] at h
      split at h
      next below =>
        cases h
        exact .retrying below
      next spent =>
        split at h
        next unused =>
          split at h
          next task selected =>
            cases h
            exact .fallback spent (by simpa using unused) selected
          next unset =>
            cases h
            exact .failed spent (.inr unset)
        next used =>
          cases h
          exact .failed spent (.inl (by simpa using used))

theorem recoverExpiredStep_eq_none {runId : RunId} {step : StepSpec} {record : StepRecord}
    {now : UInt64} (unleased : record.lease = none) :
    recoverExpiredStep runId step record now = none := by
  rw [recoverExpiredStep, unleased]

theorem ExecutionEvent.isRunFinished_of_stepId? {event : ExecutionEvent} {id : StepId}
    (h : event.stepId? = some id) : event.isRunFinished = false := by
  cases event with
  | runFinished => cases h
  | _ => rfl

/-- An event of a step is recorded only while its run is active. -/
theorem status_of_stepEvent {run : RunRecord} {event : ExecutionEvent} {id : StepId}
    (valid : eventIsValidForRecord run event = true) (about : event.stepId? = some id) :
    run.status = .running := by
  cases event with
  | runStarted => cases about
  | runFinished => cases about
  | _ =>
      simp only [eventIsValidForRecord] at valid
      split at valid
      · cases valid
      · split at valid
        · cases valid
        · simp only [Bool.and_eq_true, beq_iff_eq] at valid
          tauto

/-- The end of a run is recorded only after it ended and when it was not logged. -/
theorem ended_of_runFinished {run : RunRecord} {event : ExecutionEvent}
    (valid : eventIsValidForRecord run event = true) (finished : event.isRunFinished = true) :
    run.status.isTerminal = true ∧
      ∀ envelope ∈ run.eventLog, envelope.event.isRunFinished = false := by
  cases event with
  | runFinished runId status =>
      simp only [eventIsValidForRecord] at valid
      split at valid
      · cases valid
      · simp only [Bool.and_eq_true, beq_iff_eq, Bool.not_eq_true', alreadyLogged,
          List.any_eq_false, Bool.not_eq_true] at valid
        obtain ⟨⟨terminal, rfl⟩, unlogged⟩ := valid
        exact ⟨terminal, unlogged⟩
  | _ => cases finished

end Orchestrator
