import Orchestrator.Foundation.Lists
import Orchestrator.Repository.Ledger

/-!
# Runs up to their tokens and sequences

The two repositories number lease tokens and events differently. `renamed` gives the
tokens and the sequences of a run other numbers and leaves out what is made of them, what
the repositories count differently, and the time of a next attempt where the step does not
wait for one. What the operations read of a run they read of the renamed run as well, and
what they make of it is up to names what they make of the renamed run.
-/

namespace Orchestrator

open Json (Value)

/-- The step waits for its next attempt. -/
def StepStatus.waits (status : StepStatus) : Bool := status == .pending || status == .retrying

/-- The lease under another token. -/
def StepLease.renamed (ρ : UInt64 → UInt64) (lease : StepLease) : StepLease :=
  { lease with token := ρ lease.token }

/-- The attempt under another token, without the id that is made of the token. -/
def StepAttempt.renamed (ρ : UInt64 → UInt64) (attempt : StepAttempt) : StepAttempt :=
  { attempt with id := ⟨""⟩, leaseToken := ρ attempt.leaseToken }

/-- The record under other tokens; the time of the next attempt is that of a step that
waits for it. -/
def StepRecord.renamed (ρ : UInt64 → UInt64) (record : StepRecord) : StepRecord :=
  { record with
    lease := record.lease.map (.renamed ρ)
    history := record.history.map (.renamed ρ)
    nextAttemptAtMs := if record.status.waits then record.nextAttemptAtMs else none }

/-- The envelope under another sequence, without the id that is made of the sequence. -/
def EventEnvelope.renamed (σ : UInt64 → UInt64) (envelope : EventEnvelope) : EventEnvelope :=
  { envelope with eventId := ⟨""⟩, sequence := σ envelope.sequence }

/-- The run under other tokens and sequences, without its revision and its metrics. -/
def RunRecord.renamed (ρ σ : UInt64 → UInt64) (run : RunRecord) : RunRecord :=
  { run with
    steps := run.steps.map fun _ record => record.renamed ρ
    eventLog := run.eventLog.map (.renamed σ)
    metrics := [], gateDecisions := ∅, revision := 0 }

/-- The renaming that keeps every number. -/
abbrev keep : UInt64 → UInt64 := fun n => n

namespace StepRecord

variable (ρ ρ' : UInt64 → UInt64) (record : StepRecord)

@[simp] theorem renamed_id : (record.renamed ρ).id = record.id := rfl
@[simp] theorem renamed_status : (record.renamed ρ).status = record.status := rfl
@[simp] theorem renamed_task : (record.renamed ρ).task = record.task := rfl
@[simp] theorem renamed_attempts : (record.renamed ρ).attempts = record.attempts := rfl
@[simp] theorem renamed_output : (record.renamed ρ).output = record.output := rfl
@[simp] theorem renamed_error : (record.renamed ρ).error = record.error := rfl
@[simp] theorem renamed_fallbackUsed : (record.renamed ρ).fallbackUsed = record.fallbackUsed := rfl
@[simp] theorem renamed_lease : (record.renamed ρ).lease = record.lease.map (.renamed ρ) := rfl
@[simp] theorem renamed_history :
    (record.renamed ρ).history = record.history.map (.renamed ρ) := rfl

@[simp] theorem renamed_renamed : (record.renamed ρ).renamed ρ' = record.renamed (ρ' ∘ ρ) := by
  simp only [renamed, Option.map_map, List.map_map]
  congr 1
  split <;> rfl

/-- Closing the last attempt does not interfere with other tokens. -/
theorem renamed_modifyLast {close : StepAttempt → StepAttempt}
    (blind : ∀ ρ attempt, (close attempt).renamed ρ = close (attempt.renamed ρ))
    (history : List StepAttempt) :
    (history.modifyLast close).map (StepAttempt.renamed ρ) =
      ((history.map (StepAttempt.renamed ρ)).modifyLast close).map (StepAttempt.renamed keep) := by
  rw [List.map_modifyLast (blind ρ), List.map_modifyLast (blind keep), List.map_map]
  rfl

theorem renamed_close (history : List StepAttempt) (now : UInt64) (status : StepStatus)
    (error : Option String) :
    (history.modifyLast fun attempt => attempt.close now status error).map
        (StepAttempt.renamed ρ) =
      ((history.map (StepAttempt.renamed ρ)).modifyLast fun attempt =>
        attempt.close now status error).map (StepAttempt.renamed keep) :=
  renamed_modifyLast ρ (fun _ _ => rfl) history

/-! Every update of a record is up to names the same update of the renamed record. -/

theorem renamed_complete (completion : StepCompletion) (now : UInt64) :
    (record.complete completion now now).renamed ρ =
      ((record.renamed ρ).complete completion now now).renamed keep := by
  have history := renamed_close ρ record.history now completion.status completion.error
  simp only [complete, renamed, history, Option.map_none]
  congr 1

theorem renamed_cancel (now : UInt64) :
    (record.cancel now).renamed ρ = ((record.renamed ρ).cancel now).renamed keep := by
  have history := @renamed_modifyLast ρ (fun attempt => if attempt.status == .running then
    { attempt with finishedAtMs := some now, status := .cancelled } else attempt) ?_ record.history
  · unfold cancel
    split
    next settled =>
      rw [renamed_status, if_pos settled]
      exact (renamed_renamed ρ keep record).symm
    next active =>
      rw [renamed_status, if_neg active]
      simp only [renamed, history, Option.map_none]
      rfl
  · intro ρ attempt
    by_cases running : (attempt.status == .running) = true
    · have other : ((attempt.renamed ρ).status == .running) = true := running
      rw [if_pos running, if_pos other]
      rfl
    · have other : ¬ ((attempt.renamed ρ).status == .running) = true := running
      rw [if_neg running, if_neg other]

theorem renamed_claim (runId : RunId) (taskId : TaskId) (worker : WorkerId)
    (token now leaseMs : UInt64) :
    (record.claim runId taskId worker token now leaseMs).renamed ρ =
      ((record.renamed ρ).claim runId taskId worker (ρ token) now leaseMs).renamed keep := by
  simp [claim, renamed, StepLease.renamed, StepAttempt.renamed, StepStatus.waits]

theorem renamed_released (now : UInt64) (status : StepStatus) (task : TaskId)
    (fallbackUsed : Bool) :
    (record.released now status task fallbackUsed).renamed ρ =
      ((record.renamed ρ).released now status task fallbackUsed).renamed keep := by
  have history := renamed_close ρ record.history now status (some leaseExpiredError)
  simp only [released, renamed, history, Option.map_none]
  congr 1

end StepRecord

namespace RunRecord

variable (ρ σ ρ' σ' : UInt64 → UInt64) (run : RunRecord)

@[simp] theorem renamed_runId : (run.renamed ρ σ).runId = run.runId := rfl
@[simp] theorem renamed_workflow : (run.renamed ρ σ).workflow = run.workflow := rfl
@[simp] theorem renamed_manifest : (run.renamed ρ σ).manifest = run.manifest := rfl
@[simp] theorem renamed_input : (run.renamed ρ σ).input = run.input := rfl
@[simp] theorem renamed_status : (run.renamed ρ σ).status = run.status := rfl
@[simp] theorem renamed_error : (run.renamed ρ σ).error = run.error := rfl

@[simp] theorem renamed_steps (id : StepId) :
    (run.renamed ρ σ).steps[id]? = (run.steps[id]?).map (.renamed ρ) :=
  Std.ExtTreeMap.getElem?_map

@[simp] theorem renamed_renamed :
    (run.renamed ρ σ).renamed ρ' σ' = run.renamed (ρ' ∘ ρ) (σ' ∘ σ) := by
  simp only [renamed, Std.ExtTreeMap.map_map, StepRecord.renamed_renamed, List.map_map]
  rfl

/-! What the operations read of a run they read of the renamed run. -/

@[simp] theorem renamed_hasFailed : (run.renamed ρ σ).hasFailed = run.hasFailed := by
  simp only [hasFailed, renamed, BTreeMap.anyValue, Std.ExtTreeMap.toList_map, List.any_map]
  rfl

@[simp] theorem renamed_allSucceeded : (run.renamed ρ σ).allSucceeded = run.allSucceeded := by
  simp only [allSucceeded, renamed, BTreeMap.allValues, Std.ExtTreeMap.toList_map,
    Std.ExtTreeMap.size_map, List.all_map]
  rfl

@[simp] theorem renamed_dependenciesSucceeded (step : StepSpec) :
    dependenciesSucceeded (run.renamed ρ σ) step = dependenciesSucceeded run step := by
  simp only [dependenciesSucceeded, renamed_steps, Option.any_map]
  rfl

@[simp] theorem renamed_dependencyOutputs (step : StepSpec) :
    dependencyOutputs (run.renamed ρ σ) step = dependencyOutputs run step := by
  have output : ∀ id : StepId, ((run.renamed ρ σ).steps[id]? >>= StepRecord.output) =
      (run.steps[id]? >>= StepRecord.output) := by
    intro id
    rw [renamed_steps]
    cases run.steps[id]? <;> rfl
  simp only [dependencyOutputs, output]

@[simp] theorem renamed_selectedTask (step : StepSpec) :
    selectedTask (run.renamed ρ σ) step = selectedTask run step := by
  simp only [selectedTask, renamed_steps]
  cases run.steps[step.id]? <;> rfl

@[simp] theorem renamed_stepAvailable (record : Option StepRecord) (step : StepSpec)
    (now : UInt64) :
    stepAvailable (record.map (.renamed ρ)) step now = stepAvailable record step now := by
  cases record with
  | none => rfl
  | some record =>
      have waits : (record.status == .pending || record.status == .retrying) =
        record.status.waits := rfl
      simp only [stepAvailable, Option.map_some, Option.all_some, StepRecord.renamed,
        Option.isNone_map, waits]
      cases record.status.waits <;> simp

@[simp] theorem renamed_claimCandidate (worker : WorkerProfile) (now : UInt64) (step : StepSpec) :
    claimCandidate (run.renamed ρ σ) worker now step = claimCandidate run worker now step := by
  simp only [claimCandidate, renamed_selectedTask, renamed_manifest, renamed_steps,
    renamed_dependenciesSucceeded, renamed_stepAvailable, renamed_dependencyOutputs]

@[simp] theorem renamed_alreadyLogged (same : ExecutionEvent → Bool) :
    alreadyLogged (run.renamed ρ σ) same = alreadyLogged run same := by
  simp only [alreadyLogged, renamed, List.any_map]
  rfl

@[simp] theorem renamed_eventIsValidForRecord (event : ExecutionEvent) :
    eventIsValidForRecord (run.renamed ρ σ) event = eventIsValidForRecord run event := by
  have found : ∀ id : StepId, (run.renamed ρ σ).steps[id]? = none ∧ run.steps[id]? = none ∨
      ∃ record, (run.renamed ρ σ).steps[id]? = some (record.renamed ρ) ∧
        run.steps[id]? = some record := by
    intro id
    rw [renamed_steps]
    cases run.steps[id]? with
    | none => exact .inl ⟨rfl, rfl⟩
    | some record => exact .inr ⟨record, rfl, rfl⟩
  cases event with
  | runStarted => simp [eventIsValidForRecord]
  | runFinished => simp [eventIsValidForRecord]
  | stepStarted _ id =>
      obtain ⟨h, h'⟩ | ⟨record, h, h'⟩ := found id <;> simp [eventIsValidForRecord, h, h']
  | stepRetrying _ id =>
      obtain ⟨h, h'⟩ | ⟨record, h, h'⟩ := found id <;> simp [eventIsValidForRecord, h, h']
  | stepFallbackSelected _ id =>
      obtain ⟨h, h'⟩ | ⟨record, h, h'⟩ := found id <;> simp [eventIsValidForRecord, h, h']
  | stepSucceeded _ id =>
      obtain ⟨h, h'⟩ | ⟨record, h, h'⟩ := found id <;> simp [eventIsValidForRecord, h, h']
  | stepFailed _ id =>
      obtain ⟨h, h'⟩ | ⟨record, h, h'⟩ := found id <;> simp [eventIsValidForRecord, h, h']

theorem renamed_entry (id : StepId) (taskId : TaskId) :
    (run.renamed ρ σ).entry id taskId = (run.entry id taskId).renamed ρ := by
  rw [entry, entry, renamed_steps]
  cases run.steps[id]? <;> rfl

/-! Every update of a run is up to names the same update of the renamed run. -/

theorem renamed_setStep (id : StepId) (record : StepRecord) :
    (run.setStep id record).renamed ρ σ =
      (run.renamed ρ σ).setStep id (record.renamed ρ) := by
  simp only [setStep, renamed, BTreeMap.map_insert]

theorem renamed_logged (event : ExecutionEvent) (sequence now : UInt64) :
    (run.logged event sequence now).renamed ρ σ =
      ((run.renamed ρ σ).logged event (σ sequence) now).renamed keep keep := by
  simp only [logged, pushEvent, renamed, Std.ExtTreeMap.map_map, StepRecord.renamed_renamed,
    List.map_append, List.map_map, List.map_singleton]
  rfl

theorem renamed_noteFailure (record : StepRecord) :
    (run.noteFailure record).renamed ρ σ =
      (run.renamed ρ σ).noteFailure (record.renamed ρ) := by
  rw [noteFailure_eq, noteFailure_eq]
  rfl

theorem renamed_noteRecovery (record : StepRecord) :
    (run.noteRecovery record).renamed ρ σ =
      (run.renamed ρ σ).noteRecovery (record.renamed ρ) := by
  rw [noteRecovery_eq, noteRecovery_eq]
  rfl

theorem renamed_cancelSteps (now : StepId → UInt64) :
    (run.cancelSteps now).renamed ρ σ =
      ((run.renamed ρ σ).cancelSteps now).renamed keep keep := by
  simp only [cancelSteps, renamed, Std.ExtTreeMap.map_map, StepRecord.renamed_cancel ρ,
    List.map_map]
  rfl

theorem renamed_settle (metrics : List Metric) :
    (run.setMetrics metrics).settle.renamed ρ σ =
      ((run.renamed ρ σ).setMetrics metrics).settle.renamed keep keep := by
  have failed : ((run.renamed ρ σ).setMetrics metrics).hasFailed =
      (run.setMetrics metrics).hasFailed := renamed_hasFailed ρ σ run
  have passed : ((run.renamed ρ σ).setMetrics metrics).gatesPassed =
      (run.setMetrics metrics).gatesPassed := rfl
  rw [settle_eq, settle_eq, verdict, verdict, failed, passed]
  simp only [setMetrics, renamed, Std.ExtTreeMap.map_map, StepRecord.renamed_renamed, List.map_map]
  rfl

end RunRecord

end Orchestrator
