import Orchestrator.Model.Repository
import Orchestrator.Model.Task

/-!
# The durable executor

The repository owns all durable state; this executor claims work, invokes tasks
and commits results. Each of its operations is a sequence of repository calls,
given here with the clock readings of each call. While a task runs, a heartbeat
renews its lease until a renewal fails; how many heartbeats come before the task
ends is part of the timing of an execution.
-/

namespace Orchestrator

open Json (Value)

/-- The options that claims and executions read. -/
structure DurableExecutorOptions where
  worker : WorkerProfile
  provenance : RunProvenance
  leaseMs : UInt64

/-- Result of one worker polling tick. -/
inductive WorkOutcome where
  | idle
  | recovered (steps : Nat)
  | progressed (runId : RunId) (status : RunStatus)
  deriving DecidableEq, Repr

structure DurableExecutor where
  registry : TaskRegistry
  options : DurableExecutorOptions

/-- When one execution of a claim happens: the record of its start and the
heartbeats before its task ends. -/
structure Pace where
  start : Clock
  beats : List Clock

/-- Renews the claim at each beat until a renewal fails. -/
def Repository.heartbeat (claim : StepClaim) (leaseMs : UInt64) :
    List Clock → Repository → Repository
  | [], s => s
  | beat :: rest, s =>
    match s.renewStep claim leaseMs beat with
    | (.error _, s) => s
    | (.ok (), s) => heartbeat claim leaseMs rest s

/-- The completion that a worker reports for the result of its task. -/
def StepClaim.completion (claim : StepClaim) : Except TaskError Value → StepCompletion
  | .ok output => .succeeded claim.runId claim.step.id output claim.attempt
  | .error error =>
    if error.retryable && decide (claim.attempt < claim.step.policy.retry.budget) then
      (StepCompletion.retrying claim.runId claim.step.id claim.attempt
        error.message).withRetryAfterMs (claim.step.policy.retry.delay.forAttempt claim.attempt)
    else if !claim.fallbackUsed then
      match claim.step.policy.fallbackTask with
      | some fallback => .fallback claim.runId claim.step.id fallback error.message
      | none => .failed claim.runId claim.step.id claim.attempt error.message
    else .failed claim.runId claim.step.id claim.attempt error.message

namespace DurableExecutor

variable (executor : DurableExecutor)

/-- `(lease_ms / 3).max(1)`. -/
def heartbeatInterval : UInt64 := max (executor.options.leaseMs / 3) 1

/-- Runs the task of a claim and builds its completion. -/
def executeClaim (s : Repository) (claim : StepClaim) (pace : Pace) :
    Except OrchestratorError StepCompletion × Repository :=
  match s.recordEvent claim.runId
      (.stepStarted claim.runId claim.step.id claim.task.id claim.attempt) pace.start with
  | (.error error, s) => (.error (.repository error), s)
  | (.ok _, s) =>
    match executor.registry claim.task.id with
    | none => (.error (.workflow (.unregisteredTask claim.task.id)), s)
    | some task =>
      let s := s.heartbeat claim (executor.heartbeatInterval.saturatingMul 3) pace.beats
      let context : TaskContext :=
        { runId := claim.runId, workflowId := claim.workflowId, stepId := claim.step.id
          attempt := claim.attempt, task := claim.task, worker := some claim.worker }
      (.ok (claim.completion
        (task.executeWithin claim.step.policy.timeoutMs claim.input context)), s)

/-- Checks that the tasks of every step are registered. -/
def validateWorkflow (workflow : WorkflowSpec) : Except WorkflowError Unit :=
  workflow.steps.forM fun step => do
    let some task := executor.registry step.task | throw (.unregisteredTask step.task)
    if task.spec.id ≠ step.task then throw (.taskIdMismatch workflow.id step.id step.task)
    match step.policy.fallbackTask with
    | none => pure ()
    | some fallback =>
      let some _ := executor.registry fallback | throw (.unregisteredTask fallback)

/-- Creates a durable run without driving it; `runId` is the generated identifier. -/
def submitWithIdempotency (s : Repository) (runId : RunId) (workflow : WorkflowSpec)
    (input : Value) (idempotencyKey : Option IdempotencyKey) (clock : Clock) :
    Option (Except OrchestratorError RunRecord) × Repository :=
  match workflow.validate with
  | none => (none, s)
  | some (.error error) => (some (.error (.workflow error)), s)
  | some (.ok ()) =>
    match executor.validateWorkflow workflow with
    | .error error => (some (.error (.workflow error)), s)
    | .ok () =>
      match buildManifest executor.registry executor.options.provenance workflow with
      | .error error => (some (.error (.workflow error)), s)
      | .ok manifest =>
        match s.createRun { runId, workflow, manifest, input, idempotencyKey } clock with
        | (none, s) => (none, s)
        | (some (.error error), s) => (some (.error (.repository error)), s)
        | (some (.ok run), s) => (some (.ok run), s)

/-- The clock readings of the calls that one polling tick makes. -/
structure Tick where
  claim : Clock
  recover : Clock
  pace : Pace
  complete : Clock
  finish : Clock

/-- Claims and executes one runnable step from any active run, when no other call
comes between those of the tick. -/
def workOnce (s : Repository) (metrics : List Metric) (tick : Tick) :
    Except OrchestratorError WorkOutcome × Repository :=
  match s.claimNextRunnableStep executor.options.worker executor.options.leaseMs tick.claim with
  | (.error error, s) => (.error (.repository error), s)
  | (.ok none, s) =>
    match s.recoverExpired tick.recover with
    | (.error error, s) => (.error (.repository error), s)
    | (.ok [], s) => (.ok .idle, s)
    | (.ok recovered, s) => (.ok (.recovered recovered.length), s)
  | (.ok (some claim), s) =>
    match executor.executeClaim s claim tick.pace with
    | (.error error, s) => (.error error, s)
    | (.ok completion, s) =>
      match s.completeStep claim completion tick.complete with
      | (.error error, s) => (.error (.repository error), s)
      | (.ok run, s) =>
        match s.finishRun run.runId metrics tick.finish with
        | (.error error, s) => (.error (.repository error), s)
        | (.ok run, s) => (.ok (.progressed claim.runId run.status), s)

/-- The calls that take one step of a run through one attempt, and the state they
leave when all of them succeed. -/
def attemptOnce (s : Repository) (runId : RunId) (tick : Tick) : Option Repository :=
  match s.claimNextStep runId executor.options.worker executor.options.leaseMs tick.claim with
  | (.ok (some claim), s) =>
    match executor.executeClaim s claim tick.pace with
    | (.ok completion, s) =>
      match s.completeStep claim completion tick.complete with
      | (.ok _, s) => some s
      | (.error _, _) => none
    | (.error _, _) => none
  | _ => none

/-- The step of the run has a record that claims no further attempt. -/
def stepEnded (s : Repository) (runId : RunId) (stepId : StepId) : Bool :=
  (s.runs[runId]? >>= fun run => run.steps[stepId]?).any fun record =>
    record.status == .succeeded || record.status == .failed

/-- The state after as many attempts, or after fewer where the step has ended. -/
def attemptStep (s : Repository) (runId : RunId) (stepId : StepId) (ticks : Nat → Tick) :
    Nat → Option Repository
  | 0 => some s
  | n + 1 =>
    match attemptStep s runId stepId ticks n with
    | none => none
    | some s => if stepEnded s runId stepId then some s else executor.attemptOnce s runId (ticks n)

end DurableExecutor

end Orchestrator
