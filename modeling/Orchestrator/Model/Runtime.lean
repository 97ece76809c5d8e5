import Orchestrator.Model.Repository
import Orchestrator.Model.Task

/-!
# The process-local executor

`executeStep` runs one step to its end in a loop over its local variables, and
`executeWithMetrics` runs the steps of a workflow as they become ready. The
attempt counter is a `u32` raised by one before each execution. What that does at
its largest value depends on the build: it panics where overflow is checked and
wraps where it is not. An absent result is such a panic, a panic of `validate`,
or fuel that did not suffice.
-/

namespace Orchestrator

open Json (Value)

/-- Whether the build checks arithmetic for overflow. -/
inductive Overflow where
  | panics
  | wraps
  deriving DecidableEq, Repr

/-- `attempts += 1`. -/
def Overflow.addOne (overflow : Overflow) (attempts : UInt32) : Option UInt32 :=
  if attempts.toNat = UInt32.maxNat then
    match overflow with
    | .panics => none
    | .wraps => some 0
  else some (attempts + 1)

structure ExecutorOptions where
  maxParallelSteps : Nat
  worker : WorkerProfile
  provenance : RunProvenance
  /-- Both constructors of the executor leave at least one. -/
  parallel : 0 < maxParallelSteps

/-- The executor with its adapters. The event sink and the store see the run as
it stands, which differs at every call, and may fail at any of them. -/
structure InMemoryExecutor where
  registry : TaskRegistry
  options : ExecutorOptions
  overflow : Overflow
  emitEvent : RunRecord → ExecutionEvent → Except AdapterError Unit
  saveRun : RunRecord → Except AdapterError Unit

/-- What a step left behind. -/
structure StepRunResult where
  record : StepRecord
  events : List ExecutionEvent

/-- The local variables of the loop in `execute_step`. -/
structure StepLoop where
  selectedTask : TaskId
  usedFallback : Bool
  fallbackAttempted : Bool
  attempts : UInt32
  lastError : Option String
  events : List ExecutionEvent

namespace StepLoop

def start (step : StepSpec) : StepLoop :=
  { selectedTask := step.task, usedFallback := false, fallbackAttempted := false, attempts := 0
    lastError := none, events := [] }

/-- The result after the loop was left without a success. -/
def failure (loop : StepLoop) (runId : RunId) (step : StepSpec) : StepRunResult :=
  let error := loop.lastError.getD "task failed without an error"
  { record :=
      { id := step.id, task := loop.selectedTask, status := .failed, attempts := loop.attempts
        output := none, error := some error, fallbackUsed := loop.usedFallback, lease := none
        history := [], artifacts := [], nextAttemptAtMs := none }
    events := loop.events ++ [.stepFailed runId step.id loop.attempts error] }

/-- The result of a success. -/
def success (loop : StepLoop) (runId : RunId) (step : StepSpec) (output : Value) :
    StepRunResult :=
  { record :=
      { id := step.id, task := loop.selectedTask, status := .succeeded, attempts := loop.attempts
        output := some output, error := none, fallbackUsed := loop.usedFallback, lease := none
        history := [], artifacts := [], nextAttemptAtMs := none }
    events := loop.events ++ [.stepSucceeded runId step.id loop.attempts] }

/-- The variables once the next attempt has started. -/
def attempt (loop : StepLoop) (runId : RunId) (step : StepSpec) (attempts : UInt32) : StepLoop :=
  { loop with
    attempts, fallbackAttempted := loop.fallbackAttempted || loop.usedFallback
    events := loop.events ++ [.stepStarted runId step.id loop.selectedTask attempts] }

/-- The variables after the attempt failed with an error that is retried. -/
def retry (loop : StepLoop) (runId : RunId) (step : StepSpec) (error : TaskError) : StepLoop :=
  { loop with
    lastError := some error.message
    events := loop.events ++ [.stepRetrying runId step.id loop.attempts error.message] }

/-- The variables once the fallback was selected. -/
def fallback (loop : StepLoop) (runId : RunId) (step : StepSpec) (task : TaskId) : StepLoop :=
  { loop with
    usedFallback := true, selectedTask := task
    events := loop.events ++ [.stepFallbackSelected runId step.id task] }

end StepLoop

namespace InMemoryExecutor

variable (executor : InMemoryExecutor)

/-- The variables or the result after the error of an attempt. -/
def handleError (runId : RunId) (step : StepSpec) (loop : StepLoop) (error : TaskError) :
    StepLoop ⊕ StepRunResult :=
  let maxAttempts := step.policy.retry.budget
  if error.retryable && decide (loop.attempts < maxAttempts) then
    .inl (loop.retry runId step error)
  else
    let loop := { loop with lastError := some error.message }
    let terminalFailure := loop.usedFallback || decide (maxAttempts ≤ loop.attempts)
    match if loop.usedFallback then none else step.policy.fallbackTask with
    | some fallback => .inl (loop.fallback runId step fallback)
    | none => if terminalFailure then .inr (loop.failure runId step) else .inl loop

/-- One turn of the loop; absent where the attempt counter overflows. -/
def turn (run : RunRecord) (step : StepSpec) (dependencies : BTreeMap String Value)
    (loop : StepLoop) : Option (StepLoop ⊕ StepRunResult) :=
  match executor.registry loop.selectedTask with
  | none =>
    let loop := { loop with lastError := some s!"task {loop.selectedTask} is not registered" }
    some (.inr (loop.failure run.runId step))
  | some task =>
    if decide (step.policy.retry.budget ≤ loop.attempts) &&
        (!loop.usedFallback || loop.fallbackAttempted) then
      some (.inr (loop.failure run.runId step))
    else
      match executor.overflow.addOne loop.attempts with
      | none => none
      | some attempts =>
        let loop := loop.attempt run.runId step attempts
        let context : TaskContext :=
          { runId := run.runId, workflowId := run.workflow.id, stepId := step.id
            attempt := loop.attempts, task := task.spec
            worker := some executor.options.worker.id }
        match task.executeWithin step.policy.timeoutMs (buildStepInput run.input dependencies)
            context with
        | .ok output => some (.inr (loop.success run.runId step output))
        | .error error => some (handleError run.runId step loop error)

/-- The loop, for as many turns as there is fuel. -/
def stepLoop (run : RunRecord) (step : StepSpec) (dependencies : BTreeMap String Value) :
    Nat → StepLoop → Option StepRunResult
  | 0, _ => none
  | fuel + 1, loop =>
    match executor.turn run step dependencies loop with
    | none => none
    | some (.inl loop) => stepLoop run step dependencies fuel loop
    | some (.inr result) => some result

/-- Runs one step to its end. -/
def executeStep (fuel : Nat) (run : RunRecord) (step : StepSpec)
    (dependencies : BTreeMap String Value) : Option StepRunResult :=
  executor.stepLoop run step dependencies fuel (.start step)

/-- The steps without a record whose dependencies all succeeded. -/
def readySteps (workflow : WorkflowSpec) (run : RunRecord) : List StepSpec :=
  workflow.steps.filter fun step =>
    !run.steps.contains step.id && dependenciesSucceeded run step

/-- Logs an event to the run and hands it to the sink. -/
def emit (run : RunRecord) (event : ExecutionEvent) : Except OrchestratorError RunRecord :=
  let run := { run with
    events := run.events ++ [event], revision := run.revision.saturatingAdd 1 }
  match executor.emitEvent run event with
  | .ok () => .ok run
  | .error error => .error (.eventSink error)

def save (run : RunRecord) : Except OrchestratorError Unit :=
  match executor.saveRun run with
  | .ok () => .ok ()
  | .error error => .error (.store error)

/-- Emits a step's events and stores its record in the run. -/
def collect (run : RunRecord) (result : StepRunResult) : Except OrchestratorError RunRecord := do
  let run ← result.events.foldlM executor.emit run
  return run.setStep result.record.id result.record

/-- The first error of a step record, in the order of the step ids. -/
def firstError (run : RunRecord) : Option String :=
  run.steps.toList.findSome? fun entry => entry.2.error

/-- Runs the chunks one after the other until a step of one has failed. -/
def runChunks (fuel : Nat) :
    RunRecord → List (List StepSpec) → Option (Except OrchestratorError RunRecord)
  | run, [] => some (.ok run)
  | run, chunk :: rest =>
    match chunk.mapM fun step =>
        executor.executeStep fuel run step (dependencyOutputs run step) with
    | none => none
    | some results =>
      match (do
        let run ← results.foldlM executor.collect run
        executor.save run
        return run : Except OrchestratorError RunRecord) with
      | .error error => some (.error error)
      | .ok run =>
        if run.hasFailed then some (.ok { run with status := .failed, error := firstError run })
        else runChunks fuel run rest

/-- The loop over the ready steps, for as many rounds as there is fuel. -/
def drive (stepFuel : Nat) (workflow : WorkflowSpec) :
    Nat → RunRecord → Option (Except OrchestratorError RunRecord)
  | 0, _ => none
  | fuel + 1, run =>
    if workflow.steps.length ≤ run.steps.size then some (.ok run)
    else
      match readySteps workflow run with
      | [] => some (.ok { run with
          status := .failed, error := some "workflow could not make progress" })
      | ready =>
        match executor.runChunks stepFuel run (ready.toChunks executor.options.maxParallelSteps) with
        | none => none
        | some (.error error) => some (.error error)
        | some (.ok run) =>
          if run.status = .failed then some (.ok run) else drive stepFuel workflow fuel run

/-- Applies the gates to the metrics and decides how the run ended. -/
def conclude (run : RunRecord) (metrics : List Metric) : RunRecord :=
  let run := run.setMetrics metrics
  let run :=
    if run.status ≠ .failed ∧ run.gatesPassed = false then
      { run with status := .failed, error := some "one or more evaluation gates failed" }
    else run
  if run.status ≠ .failed then { run with status := .succeeded } else run

/-- Checks that the worker can run every task of the workflow. -/
def validateTasks (workflow : WorkflowSpec) : Except WorkflowError Unit :=
  workflow.steps.forM fun step => do
    let worker := executor.options.worker
    if !worker.supports step.policy then throw (.unsatisfiedPolicy workflow.id step.id)
    let some task := executor.registry step.task | throw (.unregisteredTask step.task)
    if !worker.supportsTask task.spec step.policy then
      throw (.unsatisfiedPolicy workflow.id step.id)
    if task.spec.id ≠ step.task then throw (.taskIdMismatch workflow.id step.id step.task)
    match step.policy.fallbackTask with
    | none => pure ()
    | some fallback =>
      let some task := executor.registry fallback | throw (.unregisteredTask fallback)
      if !worker.supportsTask task.spec step.policy then
        throw (.unsatisfiedPolicy workflow.id step.id)

/-- The checks made before a run starts, and the run as it then stands. -/
def prepare (runId : RunId) (now : UInt64) (workflow : WorkflowSpec) (input : Value) :
    Option (Except OrchestratorError RunRecord) :=
  match workflow.validate with
  | none => none
  | some (.error error) => some (.error (.workflow error))
  | some (.ok ()) => some <|
    match executor.validateTasks workflow with
    | .error error => .error (.workflow error)
    | .ok () =>
      match buildManifest executor.registry executor.options.provenance workflow with
      | .error error => .error (.workflow error)
      | .ok manifest => do
        let run := { RunRecord.new runId workflow manifest input now with status := .running }
        let run ← executor.emit run (.runStarted runId workflow.id)
        executor.save run
        return run

/-- Logs the end of a concluded run and stores it. -/
def finish (run : RunRecord) : Except OrchestratorError RunRecord := do
  let run ← executor.emit run (.runFinished run.runId run.status)
  executor.save run
  return run

/-- Runs a workflow to its end; `runId` is the generated identifier and `now` the
clock reading taken for the new record. -/
def executeWithMetrics (stepFuel fuel : Nat) (runId : RunId) (now : UInt64)
    (workflow : WorkflowSpec) (input : Value) (metrics : List Metric) :
    Option (Except OrchestratorError RunRecord) :=
  match executor.prepare runId now workflow input with
  | none => none
  | some (.error error) => some (.error error)
  | some (.ok run) =>
    match executor.drive stepFuel workflow fuel run with
    | none => none
    | some (.error error) => some (.error error)
    | some (.ok run) => some (executor.finish (conclude run metrics))

end InMemoryExecutor

end Orchestrator
