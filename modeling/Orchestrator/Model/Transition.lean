import Mathlib.Data.List.ModifyLast
import Orchestrator.Model.Record

/-!
# Checks and record transitions shared by the repositories

Both repositories call these functions on a run record they hold locked. Clock
readings are arguments: the caller passes the value that `now_ms` returned.
-/

namespace Orchestrator

open Json (Value)

/-- The input handed to a task: the run's input and the outputs it depends on. -/
def buildStepInput (runInput : Value) (dependencies : BTreeMap String Value) : Value :=
  .ofMap (((∅ : BTreeMap String Value).insert "run_input" runInput).insert "dependencies"
    (.ofMap dependencies))

/-- The identifier built for an event; its fixed suffix keeps it from being blank. -/
def generatedEventId (runId : RunId) (sequence : UInt64) : EventId :=
  ⟨s!"{runId}-event-{sequence}"⟩

/-- The identifier built for an attempt. -/
def generatedAttemptId (runId : RunId) (leaseToken : UInt64) : AttemptId :=
  ⟨s!"{runId}-attempt-{leaseToken}"⟩

def eventEnvelope (runId : RunId) (sequence : UInt64) (event : ExecutionEvent) (now : UInt64) :
    EventEnvelope :=
  { schemaVersion, eventId := generatedEventId runId sequence, sequence, occurredAtMs := now
    event }

/-- Accepts a record whose run, manifest and event schema versions are supported. -/
def validateRunRecordSchema (run : RunRecord) : Except String Unit :=
  if run.schemaVersion ≠ schemaVersion then
    .error s!"unsupported run schema version {run.schemaVersion}; expected {schemaVersion}"
  else if run.manifest.schemaVersion ≠ schemaVersion then
    .error (s!"unsupported manifest schema version {run.manifest.schemaVersion}; " ++
      s!"expected {schemaVersion}")
  else
    match run.eventLog.find? (fun event => event.schemaVersion != schemaVersion) with
    | some event =>
      .error s!"unsupported event schema version {event.schemaVersion}; expected {schemaVersion}"
    | none => .ok ()

/-- Whether a completion is one the worker holding this claim may commit. -/
def completionMatchesClaim (completion : StepCompletion) (claim : StepClaim)
    (manifest : RunManifest) : Bool :=
  match completion.event with
  | .stepRetrying runId stepId attempt error =>
    runId == claim.runId && stepId == claim.step.id && attempt == claim.attempt &&
      completion.status == .retrying &&
      decide (attempt < claim.step.policy.retry.budget) &&
      completion.output.isNone && completion.error == some error &&
      completion.nextTask.isNone && !completion.fallbackUsed
  | .stepFallbackSelected runId stepId task =>
    runId == claim.runId && stepId == claim.step.id &&
      completion.status == .retrying &&
      completion.output.isNone && completion.error.isSome &&
      completion.nextTask == some task && completion.fallbackUsed && !claim.fallbackUsed &&
      claim.step.policy.fallbackTask == some task && manifest.tasks.contains task &&
      completion.retryAfterMs.isNone
  | .stepSucceeded runId stepId attempts =>
    runId == claim.runId && stepId == claim.step.id && attempts == claim.attempt &&
      completion.status == .succeeded &&
      completion.output.isSome && completion.error.isNone &&
      completion.nextTask.isNone && !completion.fallbackUsed && completion.retryAfterMs.isNone
  | .stepFailed runId stepId attempts error =>
    runId == claim.runId && stepId == claim.step.id && attempts == claim.attempt &&
      completion.status == .failed &&
      completion.output.isNone && completion.error == some error &&
      completion.nextTask.isNone && !completion.fallbackUsed &&
      (claim.fallbackUsed || claim.step.policy.fallbackTask.isNone) &&
      completion.retryAfterMs.isNone
  | _ => false

def leaseExpiredError : String := "worker lease expired"

/-- Closes an attempt with the outcome its record now holds. -/
def StepAttempt.close (attempt : StepAttempt) (now : UInt64) (status : StepStatus)
    (error : Option String) : StepAttempt :=
  { attempt with finishedAtMs := some now, status, error }

/-- The record and event of a step whose lease has run out at `now`. -/
def recoverExpiredStep (runId : RunId) (step : StepSpec) (record : StepRecord) (now : UInt64) :
    Option (StepRecord × ExecutionEvent) :=
  match record.lease with
  | none => none
  | some lease =>
    if now < lease.expiresAtMs then none
    else
      let record := { record with
        lease := none, error := some leaseExpiredError, nextAttemptAtMs := none }
      let failed := ({ record with status := .failed },
        ExecutionEvent.stepFailed runId record.id record.attempts leaseExpiredError)
      let (record, event) :=
        if record.attempts < step.policy.retry.budget then
          ({ record with status := .retrying },
            ExecutionEvent.stepRetrying runId record.id record.attempts leaseExpiredError)
        else if !record.fallbackUsed then
          match step.policy.fallbackTask with
          | some fallbackTask =>
            ({ record with task := fallbackTask, fallbackUsed := true, status := .retrying },
              ExecutionEvent.stepFallbackSelected runId record.id fallbackTask)
          | none => failed
        else failed
      some ({ record with
        history := record.history.modifyLast fun attempt =>
          attempt.close now record.status record.error }, event)

def eventBelongsToRun (event : ExecutionEvent) (runId : RunId) : Bool := event.runId == runId

/-- Whether the log already holds an event of the given kind. -/
def alreadyLogged (run : RunRecord) (same : ExecutionEvent → Bool) : Bool :=
  run.eventLog.any fun envelope => same envelope.event

/-- Whether an event may be recorded for the run in its present state. -/
def eventIsValidForRecord (run : RunRecord) (event : ExecutionEvent) : Bool :=
  if event.runId != run.runId then false
  else
    match event with
    | .runStarted _ workflowId =>
      run.status == .running && run.workflow.id == workflowId &&
        !alreadyLogged run (fun
          | .runStarted .. => true
          | _ => false)
    | .stepStarted _ stepId task attempt =>
      match run.steps[stepId]? with
      | none => false
      | some record =>
        run.status == .running && record.status == .running && record.task == task &&
          record.attempts == attempt &&
          !alreadyLogged run (fun
            | .stepStarted _ eventStep _ eventAttempt =>
              eventStep == stepId && eventAttempt == attempt
            | _ => false)
    | .stepRetrying _ stepId attempt error =>
      match run.steps[stepId]? with
      | none => false
      | some record =>
        run.status == .running && record.status == .retrying && record.attempts == attempt &&
          record.error == some error &&
          !alreadyLogged run (fun
            | .stepRetrying _ eventStep eventAttempt _ =>
              eventStep == stepId && eventAttempt == attempt
            | _ => false)
    | .stepFallbackSelected _ stepId task =>
      match run.steps[stepId]? with
      | none => false
      | some record =>
        run.status == .running && record.status == .retrying && record.fallbackUsed &&
          record.task == task &&
          !alreadyLogged run (fun
            | .stepFallbackSelected _ eventStep eventTask =>
              eventStep == stepId && eventTask == task
            | _ => false)
    | .stepSucceeded _ stepId attempts =>
      match run.steps[stepId]? with
      | none => false
      | some record =>
        run.status == .running && record.status == .succeeded && record.attempts == attempts &&
          !alreadyLogged run (fun
            | .stepSucceeded _ eventStep eventAttempts =>
              eventStep == stepId && eventAttempts == attempts
            | _ => false)
    | .stepFailed _ stepId attempts error =>
      match run.steps[stepId]? with
      | none => false
      | some record =>
        run.status == .running && record.status == .failed && record.attempts == attempts &&
          record.error == some error &&
          !alreadyLogged run (fun
            | .stepFailed _ eventStep eventAttempts _ =>
              eventStep == stepId && eventAttempts == attempts
            | _ => false)
    | .runFinished _ status =>
      status.isTerminal && run.status == status &&
        !alreadyLogged run ExecutionEvent.isRunFinished

/-- Checks a request before it becomes a run; absent where validation of its
workflow panics. -/
def validateRunRequest (request : RunRequest) : Option (Except RepositoryError Unit) :=
  match request.workflow.validate with
  | none => none
  | some (.error error) => some (.error (.invalidRequest error.message))
  | some (.ok ()) => some <|
    if request.manifest.schemaVersion ≠ schemaVersion then
      .error (.invalidRequest
        s!"unsupported manifest schema version {request.manifest.schemaVersion}")
    else if request.workflow.id ≠ request.manifest.workflowId ∨
        request.workflow.version ≠ request.manifest.workflowVersion then
      .error (.invalidRequest "workflow and manifest identities do not match")
    else
      match request.manifest.tasks.toList.find? (fun entry => entry.1 != entry.2.id) with
      | some (taskId, task) =>
        .error (.invalidRequest
          s!"manifest task key {taskId} does not match task id {task.id}")
      | none =>
        match request.workflow.steps.find? (fun step =>
            !request.manifest.tasks.contains step.task ||
              step.policy.fallbackTask.any fun task => !request.manifest.tasks.contains task) with
        | some step =>
          .error (.invalidRequest s!"manifest does not contain all tasks for step {step.id}")
        | none => .ok ()

/-- Every dependency of the step has a succeeded record. -/
def dependenciesSucceeded (run : RunRecord) (step : StepSpec) : Bool :=
  step.dependsOn.all fun dependency =>
    run.steps[dependency]?.any fun record => record.status == .succeeded

/-- The step has no record, or one that may be leased at `now`. -/
def stepAvailable (record : Option StepRecord) (step : StepSpec) (now : UInt64) : Bool :=
  record.all fun record =>
    record.lease.isNone &&
      (record.status == .pending || record.status == .retrying) &&
      record.nextAttemptAtMs.all (fun next => decide (next ≤ now)) &&
      (decide (record.attempts < step.policy.retry.budget) ||
        (record.fallbackUsed && record.status == .retrying &&
          record.attempts == step.policy.retry.budget))

/-- The committed outputs of the step's dependencies. -/
def dependencyOutputs (run : RunRecord) (step : StepSpec) : BTreeMap String Value :=
  step.dependsOn.foldl (fun outputs dependency =>
    match run.steps[dependency]? >>= StepRecord.output with
    | some output => outputs.insert dependency.value output
    | none => outputs) ∅

/-- The task a step would run next: its record's task, or the step's own. -/
def selectedTask (run : RunRecord) (step : StepSpec) : TaskId :=
  match run.steps[step.id]? with
  | some record => record.task
  | none => step.task

/-- The closure given to `find_map` by both claims: what a worker would claim of
one step, where `now` is the clock reading made while examining it. -/
def claimCandidate (run : RunRecord) (worker : WorkerProfile) (now : UInt64) (step : StepSpec) :
    Option (StepSpec × TaskId × BTreeMap String Value) :=
  let taskId := selectedTask run step
  match run.manifest.tasks[taskId]? with
  | none => none
  | some task =>
    if !worker.supportsTask task step.policy then none
    else if dependenciesSucceeded run step && stepAvailable run.steps[step.id]? step now then
      some (step, taskId, dependencyOutputs run step)
    else none

end Orchestrator
