import Orchestrator.Foundation.Serde
import Orchestrator.Model.Record

/-!
# The JSON form of a run record

The forms that the derived implementations give to the types of a run record:
objects with a field for each member, in the order of the field names, strings
for the variants without content, and objects with one entry for the others.
-/

namespace Orchestrator

open Json (Value Serde Reads field fieldD)

section Specifications

instance {kind : IdKind} : Serde (Id kind) where
  toValue id := .string id.value
  fromValue
    | .string value => some ⟨value⟩
    | _ => none

instance {kind : IdKind} : Json.Key (Id kind) := ⟨Id.value, Id.mk, fun _ => rfl⟩

@[simp] theorem reads_id {kind : IdKind} (id : Id kind) : Reads id := rfl

instance {kind : IdKind} : Json.NonNull (Id kind) := ⟨fun _ written => nomatch written⟩

def RetryDelay.toValue (delay : RetryDelay) : Value :=
  .object [("initial_ms", Json.toValue delay.initialMs), ("max_ms", Json.toValue delay.maxMs),
    ("multiplier", Json.toValue delay.multiplier)]

def RetryDelay.fromValue (value : Value) : Option RetryDelay := do
  let entries ← value.entries
  let initialMs ← field entries "initial_ms"
  let multiplier ← field entries "multiplier"
  let maxMs ← field entries "max_ms"
  return { initialMs, multiplier, maxMs }

instance : Serde RetryDelay := ⟨RetryDelay.toValue, RetryDelay.fromValue, none⟩

@[simp] theorem reads_retryDelay (delay : RetryDelay) : Reads delay := by
  change RetryDelay.fromValue (RetryDelay.toValue delay) = some delay
  simp [RetryDelay.fromValue, RetryDelay.toValue]

def RetryPolicy.toValue (retry : RetryPolicy) : Value :=
  .object [("delay", Json.toValue retry.delay), ("max_attempts", Json.toValue retry.maxAttempts)]

def RetryPolicy.fromValue (value : Value) : Option RetryPolicy := do
  let entries ← value.entries
  let maxAttempts ← field entries "max_attempts"
  let delay ← field entries "delay"
  return { maxAttempts, delay }

instance : Serde RetryPolicy := ⟨RetryPolicy.toValue, RetryPolicy.fromValue, none⟩

@[simp] theorem reads_retryPolicy (retry : RetryPolicy) : Reads retry := by
  change RetryPolicy.fromValue (RetryPolicy.toValue retry) = some retry
  simp [RetryPolicy.fromValue, RetryPolicy.toValue]

def Residency.toValue : Residency → Value
  | .any => .string "Any"
  | .region name => .object [("Region", Json.toValue name)]

def Residency.fromValue : Value → Option Residency
  | .string "Any" => some .any
  | value => do
    let ("Region", content) ← value.variant | none
    return .region (← Json.fromValue content)

instance : Serde Residency := ⟨Residency.toValue, Residency.fromValue, none⟩

@[simp] theorem reads_residency (residency : Residency) : Reads residency := by
  cases residency <;> rfl

def ResourceRequirements.toValue (resources : ResourceRequirements) : Value :=
  .object [("capabilities", Json.toValue resources.capabilities),
    ("cpu_millis", Json.toValue resources.cpuMillis),
    ("gpu_count", Json.toValue resources.gpuCount),
    ("memory_mb", Json.toValue resources.memoryMb)]

def ResourceRequirements.fromValue (value : Value) : Option ResourceRequirements := do
  let entries ← value.entries
  let cpuMillis ← field entries "cpu_millis"
  let memoryMb ← field entries "memory_mb"
  let gpuCount ← field entries "gpu_count"
  let capabilities ← field entries "capabilities"
  return { cpuMillis, memoryMb, gpuCount, capabilities }

instance : Serde ResourceRequirements :=
  ⟨ResourceRequirements.toValue, ResourceRequirements.fromValue, none⟩

@[simp] theorem reads_resourceRequirements (resources : ResourceRequirements) :
    Reads resources := by
  change ResourceRequirements.fromValue (ResourceRequirements.toValue resources) = some resources
  simp [ResourceRequirements.fromValue, ResourceRequirements.toValue]

def ExecutionPolicy.toValue (policy : ExecutionPolicy) : Value :=
  .object [("fallback_task", Json.toValue policy.fallbackTask),
    ("residency", Json.toValue policy.residency), ("resources", Json.toValue policy.resources),
    ("retry", Json.toValue policy.retry), ("timeout_ms", Json.toValue policy.timeoutMs)]

def ExecutionPolicy.fromValue (value : Value) : Option ExecutionPolicy := do
  let entries ← value.entries
  let retry ← field entries "retry"
  let timeoutMs ← field entries "timeout_ms"
  let fallbackTask ← field entries "fallback_task"
  let residency ← field entries "residency"
  let resources ← field entries "resources"
  return { retry, timeoutMs, fallbackTask, residency, resources }

instance : Serde ExecutionPolicy := ⟨ExecutionPolicy.toValue, ExecutionPolicy.fromValue, none⟩

@[simp] theorem reads_executionPolicy (policy : ExecutionPolicy) : Reads policy := by
  change ExecutionPolicy.fromValue (ExecutionPolicy.toValue policy) = some policy
  simp [ExecutionPolicy.fromValue, ExecutionPolicy.toValue]

def TaskSpec.toValue (task : TaskSpec) : Value :=
  .object [("capability", Json.toValue task.capability), ("id", Json.toValue task.id),
    ("metadata", Json.toValue task.metadata), ("version", Json.toValue task.version)]

def TaskSpec.fromValue (value : Value) : Option TaskSpec := do
  let entries ← value.entries
  let id ← field entries "id"
  let version ← field entries "version"
  let capability ← field entries "capability"
  let metadata ← field entries "metadata"
  return { id, version, capability, metadata }

instance : Serde TaskSpec := ⟨TaskSpec.toValue, TaskSpec.fromValue, none⟩

@[simp] theorem reads_taskSpec (task : TaskSpec) : Reads task := by
  change TaskSpec.fromValue (TaskSpec.toValue task) = some task
  simp [TaskSpec.fromValue, TaskSpec.toValue]

def StepSpec.toValue (step : StepSpec) : Value :=
  .object [("depends_on", Json.toValue step.dependsOn), ("id", Json.toValue step.id),
    ("policy", Json.toValue step.policy), ("task", Json.toValue step.task)]

def StepSpec.fromValue (value : Value) : Option StepSpec := do
  let entries ← value.entries
  let id ← field entries "id"
  let task ← field entries "task"
  let dependsOn ← field entries "depends_on"
  let policy ← field entries "policy"
  return { id, task, dependsOn, policy }

instance : Serde StepSpec := ⟨StepSpec.toValue, StepSpec.fromValue, none⟩

@[simp] theorem reads_stepSpec (step : StepSpec) : Reads step := by
  change StepSpec.fromValue (StepSpec.toValue step) = some step
  simp [StepSpec.fromValue, StepSpec.toValue]

def MetricDirection.toValue : MetricDirection → Value
  | .atLeast => .string "AtLeast"
  | .atMost => .string "AtMost"

def MetricDirection.fromValue : Value → Option MetricDirection
  | .string "AtLeast" => some .atLeast
  | .string "AtMost" => some .atMost
  | _ => none

instance : Serde MetricDirection := ⟨MetricDirection.toValue, MetricDirection.fromValue, none⟩

@[simp] theorem reads_metricDirection (direction : MetricDirection) : Reads direction := by
  cases direction <;> rfl

def Metric.toValue (metric : Metric) : Value :=
  .object [("name", Json.toValue metric.name), ("value", Json.toValue metric.value)]

def Metric.fromValue (value : Value) : Option Metric := do
  let entries ← value.entries
  let name ← field entries "name"
  let value ← field entries "value"
  return { name, value }

instance : Serde Metric := ⟨Metric.toValue, Metric.fromValue, none⟩

def EvaluationGate.toValue (gate : EvaluationGate) : Value :=
  .object [("direction", Json.toValue gate.direction), ("metric", Json.toValue gate.metric),
    ("threshold", Json.toValue gate.threshold)]

def EvaluationGate.fromValue (value : Value) : Option EvaluationGate := do
  let entries ← value.entries
  let metric ← field entries "metric"
  let threshold ← field entries "threshold"
  let direction ← field entries "direction"
  return { metric, threshold, direction }

instance : Serde EvaluationGate := ⟨EvaluationGate.toValue, EvaluationGate.fromValue, none⟩

def GateDecision.toValue (decision : GateDecision) : Value :=
  .object [("direction", Json.toValue decision.direction),
    ("metric", Json.toValue decision.metric), ("observed", Json.toValue decision.observed),
    ("passed", Json.toValue decision.passed), ("threshold", Json.toValue decision.threshold)]

def GateDecision.fromValue (value : Value) : Option GateDecision := do
  let entries ← value.entries
  let passed ← field entries "passed"
  let metric ← field entries "metric"
  let observed ← field entries "observed"
  let threshold ← field entries "threshold"
  let direction ← field entries "direction"
  return { passed, metric, observed, threshold, direction }

instance : Serde GateDecision := ⟨GateDecision.toValue, GateDecision.fromValue, none⟩

def WorkflowSpec.toValue (workflow : WorkflowSpec) : Value :=
  .object [("evaluation_gates", Json.toValue workflow.evaluationGates),
    ("id", Json.toValue workflow.id), ("steps", Json.toValue workflow.steps),
    ("version", Json.toValue workflow.version)]

def WorkflowSpec.fromValue (value : Value) : Option WorkflowSpec := do
  let entries ← value.entries
  let id ← field entries "id"
  let version ← field entries "version"
  let steps ← field entries "steps"
  let evaluationGates ← field entries "evaluation_gates"
  return { id, version, steps, evaluationGates }

instance : Serde WorkflowSpec := ⟨WorkflowSpec.toValue, WorkflowSpec.fromValue, none⟩

def RunProvenance.toValue (provenance : RunProvenance) : Value :=
  .object [("calibration", Json.toValue provenance.calibration),
    ("code_revision", Json.toValue provenance.codeRevision),
    ("dataset", Json.toValue provenance.dataset),
    ("environment", Json.toValue provenance.environment),
    ("input_hash", Json.toValue provenance.inputHash), ("model", Json.toValue provenance.model),
    ("prompt", Json.toValue provenance.prompt)]

def RunProvenance.fromValue (value : Value) : Option RunProvenance := do
  let entries ← value.entries
  let model ← field entries "model"
  let prompt ← field entries "prompt"
  let dataset ← field entries "dataset"
  let inputHash ← field entries "input_hash"
  let calibration ← field entries "calibration"
  let codeRevision ← field entries "code_revision"
  let environment ← field entries "environment"
  return { model, prompt, dataset, inputHash, calibration, codeRevision, environment }

instance : Serde RunProvenance := ⟨RunProvenance.toValue, RunProvenance.fromValue, none⟩

@[simp] theorem reads_runProvenance (provenance : RunProvenance) : Reads provenance := by
  change RunProvenance.fromValue (RunProvenance.toValue provenance) = some provenance
  simp [RunProvenance.fromValue, RunProvenance.toValue]

def RunManifest.toValue (manifest : RunManifest) : Value :=
  .object [("evaluation_gates", Json.toValue manifest.evaluationGates),
    ("metadata", Json.toValue manifest.metadata),
    ("provenance", Json.toValue manifest.provenance),
    ("schema_version", Json.toValue manifest.schemaVersion),
    ("tasks", Json.toValue manifest.tasks), ("workflow_id", Json.toValue manifest.workflowId),
    ("workflow_version", Json.toValue manifest.workflowVersion)]

def RunManifest.fromValue (value : Value) : Option RunManifest := do
  let entries ← value.entries
  let schemaVersion ← fieldD entries "schema_version" Orchestrator.schemaVersion
  let workflowId ← field entries "workflow_id"
  let workflowVersion ← field entries "workflow_version"
  let tasks ← field entries "tasks"
  let evaluationGates ← field entries "evaluation_gates"
  let provenance ← field entries "provenance"
  let metadata ← field entries "metadata"
  some
    { schemaVersion, workflowId, workflowVersion, tasks, evaluationGates, provenance, metadata }

instance : Serde RunManifest := ⟨RunManifest.toValue, RunManifest.fromValue, none⟩

end Specifications

section Records

def RunStatus.toValue : RunStatus → Value
  | .pending => .string "Pending"
  | .running => .string "Running"
  | .paused => .string "Paused"
  | .cancelRequested => .string "CancelRequested"
  | .cancelled => .string "Cancelled"
  | .succeeded => .string "Succeeded"
  | .failed => .string "Failed"

def RunStatus.fromValue : Value → Option RunStatus
  | .string "Pending" => some .pending
  | .string "Running" => some .running
  | .string "Paused" => some .paused
  | .string "CancelRequested" => some .cancelRequested
  | .string "Cancelled" => some .cancelled
  | .string "Succeeded" => some .succeeded
  | .string "Failed" => some .failed
  | _ => none

instance : Serde RunStatus := ⟨RunStatus.toValue, RunStatus.fromValue, none⟩

@[simp] theorem reads_runStatus (status : RunStatus) : Reads status := by
  cases status <;> rfl

def StepStatus.toValue : StepStatus → Value
  | .pending => .string "Pending"
  | .claimed => .string "Claimed"
  | .running => .string "Running"
  | .retrying => .string "Retrying"
  | .succeeded => .string "Succeeded"
  | .failed => .string "Failed"
  | .cancelled => .string "Cancelled"

def StepStatus.fromValue : Value → Option StepStatus
  | .string "Pending" => some .pending
  | .string "Claimed" => some .claimed
  | .string "Running" => some .running
  | .string "Retrying" => some .retrying
  | .string "Succeeded" => some .succeeded
  | .string "Failed" => some .failed
  | .string "Cancelled" => some .cancelled
  | _ => none

instance : Serde StepStatus := ⟨StepStatus.toValue, StepStatus.fromValue, none⟩

@[simp] theorem reads_stepStatus (status : StepStatus) : Reads status := by
  cases status <;> rfl

def StepAttempt.toValue (attempt : StepAttempt) : Value :=
  .object [("error", Json.toValue attempt.error),
    ("finished_at_ms", Json.toValue attempt.finishedAtMs), ("id", Json.toValue attempt.id),
    ("lease_token", Json.toValue attempt.leaseToken), ("number", Json.toValue attempt.number),
    ("started_at_ms", Json.toValue attempt.startedAtMs), ("status", Json.toValue attempt.status),
    ("worker", Json.toValue attempt.worker)]

def StepAttempt.fromValue (value : Value) : Option StepAttempt := do
  let entries ← value.entries
  let id ← field entries "id"
  let number ← field entries "number"
  let worker ← field entries "worker"
  let leaseToken ← field entries "lease_token"
  let startedAtMs ← field entries "started_at_ms"
  let finishedAtMs ← field entries "finished_at_ms"
  let status ← field entries "status"
  let error ← field entries "error"
  return { id, number, worker, leaseToken, startedAtMs, finishedAtMs, status, error }

instance : Serde StepAttempt := ⟨StepAttempt.toValue, StepAttempt.fromValue, none⟩

@[simp] theorem reads_stepAttempt (attempt : StepAttempt) : Reads attempt := by
  change StepAttempt.fromValue (StepAttempt.toValue attempt) = some attempt
  simp [StepAttempt.fromValue, StepAttempt.toValue]

def StepLease.toValue (lease : StepLease) : Value :=
  .object [("expires_at_ms", Json.toValue lease.expiresAtMs), ("token", Json.toValue lease.token),
    ("worker", Json.toValue lease.worker)]

def StepLease.fromValue (value : Value) : Option StepLease := do
  let entries ← value.entries
  let worker ← field entries "worker"
  let token ← field entries "token"
  let expiresAtMs ← field entries "expires_at_ms"
  return { worker, token, expiresAtMs }

instance : Serde StepLease := ⟨StepLease.toValue, StepLease.fromValue, none⟩

@[simp] theorem reads_stepLease (lease : StepLease) : Reads lease := by
  change StepLease.fromValue (StepLease.toValue lease) = some lease
  simp [StepLease.fromValue, StepLease.toValue]

instance : Json.NonNull StepLease := ⟨fun _ written => nomatch written⟩

def ArtifactMetadata.toValue (metadata : ArtifactMetadata) : Value :=
  .object [("media_type", Json.toValue metadata.mediaType),
    ("metadata", Json.toValue metadata.metadata)]

def ArtifactMetadata.fromValue (value : Value) : Option ArtifactMetadata := do
  let entries ← value.entries
  let mediaType ← field entries "media_type"
  let metadata ← field entries "metadata"
  return { mediaType, metadata }

instance : Serde ArtifactMetadata := ⟨ArtifactMetadata.toValue, ArtifactMetadata.fromValue, none⟩

@[simp] theorem reads_artifactMetadata (metadata : ArtifactMetadata) : Reads metadata := by
  change ArtifactMetadata.fromValue (ArtifactMetadata.toValue metadata) = some metadata
  simp [ArtifactMetadata.fromValue, ArtifactMetadata.toValue]

def ArtifactRef.toValue (artifact : ArtifactRef) : Value :=
  .object [("id", Json.toValue artifact.id), ("metadata", Json.toValue artifact.metadata),
    ("sha256", Json.toValue artifact.sha256), ("size_bytes", Json.toValue artifact.sizeBytes)]

def ArtifactRef.fromValue (value : Value) : Option ArtifactRef := do
  let entries ← value.entries
  let id ← field entries "id"
  let sha256 ← field entries "sha256"
  let sizeBytes ← field entries "size_bytes"
  let metadata ← field entries "metadata"
  return { id, sha256, sizeBytes, metadata }

instance : Serde ArtifactRef := ⟨ArtifactRef.toValue, ArtifactRef.fromValue, none⟩

@[simp] theorem reads_artifactRef (artifact : ArtifactRef) : Reads artifact := by
  change ArtifactRef.fromValue (ArtifactRef.toValue artifact) = some artifact
  simp [ArtifactRef.fromValue, ArtifactRef.toValue]

def StepRecord.toValue (record : StepRecord) : Value :=
  .object [("artifacts", Json.toValue record.artifacts),
    ("attempts", Json.toValue record.attempts), ("error", Json.toValue record.error),
    ("fallback_used", Json.toValue record.fallbackUsed), ("history", Json.toValue record.history),
    ("id", Json.toValue record.id), ("lease", Json.toValue record.lease),
    ("next_attempt_at_ms", Json.toValue record.nextAttemptAtMs),
    ("output", Json.toValue record.output), ("status", Json.toValue record.status),
    ("task", Json.toValue record.task)]

def StepRecord.fromValue (value : Value) : Option StepRecord := do
  let entries ← value.entries
  let id ← field entries "id"
  let task ← field entries "task"
  let status ← field entries "status"
  let attempts ← field entries "attempts"
  let output ← field entries "output"
  let error ← field entries "error"
  let fallbackUsed ← field entries "fallback_used"
  let lease ← field entries "lease"
  let history ← field entries "history"
  let artifacts ← field entries "artifacts"
  let nextAttemptAtMs ← fieldD entries "next_attempt_at_ms" none
  some
    { id, task, status, attempts, output, error, fallbackUsed, lease, history, artifacts
      nextAttemptAtMs }

instance : Serde StepRecord := ⟨StepRecord.toValue, StepRecord.fromValue, none⟩

/-- The name of a variant and the fields of its content. -/
def ExecutionEvent.content : ExecutionEvent → String × List (String × Value)
  | .runStarted runId workflowId =>
    ("RunStarted", [("run_id", Json.toValue runId), ("workflow_id", Json.toValue workflowId)])
  | .stepStarted runId stepId task attempt =>
    ("StepStarted", [("attempt", Json.toValue attempt), ("run_id", Json.toValue runId),
      ("step_id", Json.toValue stepId), ("task", Json.toValue task)])
  | .stepRetrying runId stepId attempt error =>
    ("StepRetrying", [("attempt", Json.toValue attempt), ("error", Json.toValue error),
      ("run_id", Json.toValue runId), ("step_id", Json.toValue stepId)])
  | .stepFallbackSelected runId stepId task =>
    ("StepFallbackSelected", [("run_id", Json.toValue runId), ("step_id", Json.toValue stepId),
      ("task", Json.toValue task)])
  | .stepSucceeded runId stepId attempts =>
    ("StepSucceeded", [("attempts", Json.toValue attempts), ("run_id", Json.toValue runId),
      ("step_id", Json.toValue stepId)])
  | .stepFailed runId stepId attempts error =>
    ("StepFailed", [("attempts", Json.toValue attempts), ("error", Json.toValue error),
      ("run_id", Json.toValue runId), ("step_id", Json.toValue stepId)])
  | .runFinished runId status =>
    ("RunFinished", [("run_id", Json.toValue runId), ("status", Json.toValue status)])

def ExecutionEvent.toValue (event : ExecutionEvent) : Value :=
  .object [(event.content.1, .object event.content.2)]

def ExecutionEvent.fromValue (value : Value) : Option ExecutionEvent := do
  let (name, content) ← value.variant
  let entries ← content.entries
  let runId ← field entries "run_id"
  match name with
  | "RunStarted" =>
    return .runStarted runId (← field entries "workflow_id")
  | "StepStarted" =>
    return .stepStarted runId (← field entries "step_id") (← field entries "task")
      (← field entries "attempt")
  | "StepRetrying" =>
    return .stepRetrying runId (← field entries "step_id") (← field entries "attempt")
      (← field entries "error")
  | "StepFallbackSelected" =>
    return .stepFallbackSelected runId (← field entries "step_id") (← field entries "task")
  | "StepSucceeded" =>
    return .stepSucceeded runId (← field entries "step_id") (← field entries "attempts")
  | "StepFailed" =>
    return .stepFailed runId (← field entries "step_id") (← field entries "attempts")
      (← field entries "error")
  | "RunFinished" =>
    return .runFinished runId (← field entries "status")
  | _ => none

instance : Serde ExecutionEvent := ⟨ExecutionEvent.toValue, ExecutionEvent.fromValue, none⟩

@[simp] theorem reads_executionEvent (event : ExecutionEvent) : Reads event := by
  change ExecutionEvent.fromValue (ExecutionEvent.toValue event) = some event
  rw [ExecutionEvent.toValue]
  cases event <;> simp only [ExecutionEvent.content] <;> simp [ExecutionEvent.fromValue]

def EventEnvelope.toValue (envelope : EventEnvelope) : Value :=
  .object [("event", Json.toValue envelope.event), ("event_id", Json.toValue envelope.eventId),
    ("occurred_at_ms", Json.toValue envelope.occurredAtMs),
    ("schema_version", Json.toValue envelope.schemaVersion),
    ("sequence", Json.toValue envelope.sequence)]

def EventEnvelope.fromValue (value : Value) : Option EventEnvelope := do
  let entries ← value.entries
  let schemaVersion ← fieldD entries "schema_version" Orchestrator.schemaVersion
  let eventId ← field entries "event_id"
  let sequence ← field entries "sequence"
  let occurredAtMs ← field entries "occurred_at_ms"
  let event ← field entries "event"
  return { schemaVersion, eventId, sequence, occurredAtMs, event }

instance : Serde EventEnvelope := ⟨EventEnvelope.toValue, EventEnvelope.fromValue, none⟩

@[simp] theorem reads_eventEnvelope (envelope : EventEnvelope) : Reads envelope := by
  change EventEnvelope.fromValue (EventEnvelope.toValue envelope) = some envelope
  simp [EventEnvelope.fromValue, EventEnvelope.toValue]

def RunRecord.toValue (run : RunRecord) : Value :=
  .object [("created_at_ms", Json.toValue run.createdAtMs), ("error", Json.toValue run.error),
    ("event_log", Json.toValue run.eventLog), ("events", Json.toValue run.events),
    ("gate_decisions", Json.toValue run.gateDecisions),
    ("idempotency_key", Json.toValue run.idempotencyKey), ("input", Json.toValue run.input),
    ("manifest", Json.toValue run.manifest), ("metrics", Json.toValue run.metrics),
    ("revision", Json.toValue run.revision), ("run_id", Json.toValue run.runId),
    ("schema_version", Json.toValue run.schemaVersion), ("status", Json.toValue run.status),
    ("steps", Json.toValue run.steps), ("workflow", Json.toValue run.workflow)]

def RunRecord.fromValue (value : Value) : Option RunRecord := do
  let entries ← value.entries
  let schemaVersion ← fieldD entries "schema_version" Orchestrator.schemaVersion
  let runId ← field entries "run_id"
  let workflow ← field entries "workflow"
  let manifest ← field entries "manifest"
  let input ← field entries "input"
  let status ← field entries "status"
  let steps ← field entries "steps"
  let events ← field entries "events"
  let eventLog ← field entries "event_log"
  let metrics ← field entries "metrics"
  let gateDecisions ← field entries "gate_decisions"
  let error ← field entries "error"
  let idempotencyKey ← field entries "idempotency_key"
  let revision ← field entries "revision"
  let createdAtMs ← field entries "created_at_ms"
  some
    { schemaVersion, runId, workflow, manifest, input, status, steps, events, eventLog, metrics
      gateDecisions, error, idempotencyKey, revision, createdAtMs }

instance : Serde RunRecord := ⟨RunRecord.toValue, RunRecord.fromValue, none⟩

end Records

end Orchestrator
