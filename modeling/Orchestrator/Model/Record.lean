import Orchestrator.Foundation.Json
import Orchestrator.Model.Workflow

/-!
# Run records, step records, events, claims and completions
-/

namespace Orchestrator

open Json (Value)

inductive RunStatus where
  | pending | running | paused | cancelRequested | cancelled | succeeded | failed
  deriving DecidableEq, Repr

inductive StepStatus where
  | pending | claimed | running | retrying | succeeded | failed | cancelled
  deriving DecidableEq, Repr

/-- `matches!(status, Succeeded | Failed | Cancelled)`. -/
def RunStatus.isTerminal : RunStatus → Bool
  | .succeeded | .failed | .cancelled => true
  | _ => false

/-- A single leased attempt of a step. -/
structure StepAttempt where
  id : AttemptId
  number : UInt32
  worker : WorkerId
  leaseToken : UInt64
  startedAtMs : UInt64
  finishedAtMs : Option UInt64
  status : StepStatus
  error : Option String
  deriving DecidableEq, Repr

/-- A fencing lease that prevents stale workers from committing results. -/
structure StepLease where
  worker : WorkerId
  token : UInt64
  expiresAtMs : UInt64
  deriving DecidableEq, Repr

/-- Metadata attached to an immutable artifact. -/
structure ArtifactMetadata where
  mediaType : String
  metadata : BTreeMap String String
  deriving DecidableEq, Repr

/-- A content-addressed reference suitable for workflow inputs and outputs. -/
structure ArtifactRef where
  id : ArtifactId
  sha256 : String
  sizeBytes : UInt64
  metadata : ArtifactMetadata
  deriving DecidableEq, Repr

structure StepRecord where
  id : StepId
  task : TaskId
  status : StepStatus
  attempts : UInt32
  output : Option Value
  error : Option String
  fallbackUsed : Bool
  lease : Option StepLease
  history : List StepAttempt
  artifacts : List ArtifactRef
  nextAttemptAtMs : Option UInt64
  deriving Repr

inductive ExecutionEvent where
  | runStarted (runId : RunId) (workflowId : WorkflowId)
  | stepStarted (runId : RunId) (stepId : StepId) (task : TaskId) (attempt : UInt32)
  | stepRetrying (runId : RunId) (stepId : StepId) (attempt : UInt32) (error : String)
  | stepFallbackSelected (runId : RunId) (stepId : StepId) (task : TaskId)
  | stepSucceeded (runId : RunId) (stepId : StepId) (attempts : UInt32)
  | stepFailed (runId : RunId) (stepId : StepId) (attempts : UInt32) (error : String)
  | runFinished (runId : RunId) (status : RunStatus)
  deriving DecidableEq, Repr

/-- The run an event names; every variant has one. -/
def ExecutionEvent.runId : ExecutionEvent → RunId
  | .runStarted runId _ | .stepStarted runId _ _ _ | .stepRetrying runId _ _ _
  | .stepFallbackSelected runId _ _ | .stepSucceeded runId _ _ | .stepFailed runId _ _ _
  | .runFinished runId _ => runId

/-- `matches!(event, RunFinished { .. })`. -/
def ExecutionEvent.isRunFinished : ExecutionEvent → Bool
  | .runFinished .. => true
  | _ => false

/-- The step an event is about, for the five step events. -/
def ExecutionEvent.stepId? : ExecutionEvent → Option StepId
  | .stepStarted _ stepId _ _ | .stepRetrying _ stepId _ _ | .stepFallbackSelected _ stepId _
  | .stepSucceeded _ stepId _ | .stepFailed _ stepId _ _ => some stepId
  | .runStarted .. | .runFinished .. => none

/-- An ordered, deduplicable event envelope. -/
structure EventEnvelope where
  schemaVersion : UInt32
  eventId : EventId
  sequence : UInt64
  occurredAtMs : UInt64
  event : ExecutionEvent
  deriving DecidableEq, Repr

/-- Input required to create a durable run. -/
structure RunRequest where
  runId : RunId
  workflow : WorkflowSpec
  manifest : RunManifest
  input : Value
  idempotencyKey : Option IdempotencyKey
  deriving Repr

/-- A worker-owned step claim, with its input snapshotted at claim time. -/
structure StepClaim where
  runId : RunId
  workflowId : WorkflowId
  step : StepSpec
  task : TaskSpec
  input : Value
  worker : WorkerId
  leaseToken : UInt64
  attempt : UInt32
  fallbackUsed : Bool
  deriving Repr

/-- The atomic state transition produced by a worker. -/
structure StepCompletion where
  status : StepStatus
  output : Option Value
  error : Option String
  nextTask : Option TaskId
  fallbackUsed : Bool
  artifacts : List ArtifactRef
  event : ExecutionEvent
  retryAfterMs : Option UInt64
  deriving Repr

namespace StepCompletion

/-- Attaches immutable artifact references to the committed step output. -/
def withArtifacts (completion : StepCompletion) (artifacts : List ArtifactRef) : StepCompletion :=
  { completion with artifacts }

def succeeded (runId : RunId) (stepId : StepId) (output : Value) (attempts : UInt32) :
    StepCompletion :=
  { status := .succeeded, output := some output, error := none, nextTask := none
    fallbackUsed := false, artifacts := [], event := .stepSucceeded runId stepId attempts
    retryAfterMs := none }

def retrying (runId : RunId) (stepId : StepId) (attempt : UInt32) (error : String) :
    StepCompletion :=
  { status := .retrying, output := none, error := some error, nextTask := none
    fallbackUsed := false, artifacts := [], event := .stepRetrying runId stepId attempt error
    retryAfterMs := none }

def fallback (runId : RunId) (stepId : StepId) (task : TaskId) (error : String) :
    StepCompletion :=
  { status := .retrying, output := none, error := some error, nextTask := some task
    fallbackUsed := true, artifacts := [], event := .stepFallbackSelected runId stepId task
    retryAfterMs := none }

def failed (runId : RunId) (stepId : StepId) (attempts : UInt32) (error : String) :
    StepCompletion :=
  { status := .failed, output := none, error := some error, nextTask := none
    fallbackUsed := false, artifacts := [], event := .stepFailed runId stepId attempts error
    retryAfterMs := none }

/-- Stores retry backoff so a worker can release its lease before waiting. -/
def withRetryAfterMs (completion : StepCompletion) (delayMs : UInt64) : StepCompletion :=
  { completion with retryAfterMs := some delayMs }

end StepCompletion

structure RunRecord where
  schemaVersion : UInt32
  runId : RunId
  workflow : WorkflowSpec
  manifest : RunManifest
  input : Value
  status : RunStatus
  steps : BTreeMap StepId StepRecord
  events : List ExecutionEvent
  eventLog : List EventEnvelope
  metrics : List Metric
  gateDecisions : BTreeMap String GateDecision
  error : Option String
  idempotencyKey : Option IdempotencyKey
  revision : UInt64
  createdAtMs : UInt64
  deriving Repr

def schemaVersion : UInt32 := 1

/-- A record at creation; `now` is the clock reading taken for `created_at_ms`. -/
def RunRecord.new (runId : RunId) (workflow : WorkflowSpec) (manifest : RunManifest)
    (input : Value) (now : UInt64) : RunRecord :=
  { schemaVersion := Orchestrator.schemaVersion, runId, workflow, manifest, input
    status := .pending, steps := ∅
    events := [], eventLog := [], metrics := [], gateDecisions := ∅, error := none
    idempotencyKey := none, revision := 0, createdAtMs := now }

/-- Errors returned by a task implementation. -/
inductive TaskError where
  | invalidInput (text : String)
  | transient (text : String)
  | permanent (text : String)
  | timeout (timeoutMs : UInt64)
  | serialization (text : String)
  deriving DecidableEq, Repr

namespace TaskError

def message : TaskError → String
  | .invalidInput text => s!"task input is invalid: {text}"
  | .transient text => s!"task failed transiently: {text}"
  | .permanent text => s!"task failed permanently: {text}"
  | .timeout timeoutMs => s!"task timed out after {timeoutMs} ms"
  | .serialization text => s!"task serialization failed: {text}"

def retryable : TaskError → Bool
  | .transient _ | .timeout _ => true
  | _ => false

end TaskError

/-- A durable repository rejected a state transition or could not find the
requested execution record. -/
inductive RepositoryError where
  | runNotFound (run : RunId)
  | leaseLost (run : RunId) (step : StepId)
  | idempotencyConflict (run : RunId)
  | invalidTransition (run : RunId) (source target : String)
  | conflict (run : RunId)
  | invalidCompletion (run : RunId) (step : StepId)
  | invalidEvent (run : RunId)
  | invalidRequest (message : String)
  | storage (message : String)
  deriving DecidableEq, Repr

end Orchestrator
