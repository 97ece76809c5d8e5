import Orchestrator.Model.Record

/-!
# Tasks, their registry and the errors of the executors

A task is what the registry hands out for an id: its description, the answer it
gives for an input and a context, and the time it takes to give it. A task may
answer by anything in its context, so that any behaviour of its calls within one
run is the behaviour of some task.
-/

namespace Orchestrator

open Json (Value)

/-- Context supplied to every task invocation. -/
structure TaskContext where
  runId : RunId
  workflowId : WorkflowId
  stepId : StepId
  attempt : UInt32
  task : TaskSpec
  worker : Option WorkerId
  deriving DecidableEq, Repr

structure Task where
  spec : TaskSpec
  execute : Value → TaskContext → Except TaskError Value
  elapsedMs : Value → TaskContext → Nat

/-- The answer of a task under the policy's time limit. -/
def Task.executeWithin (task : Task) (timeoutMs : Option UInt64) (input : Value)
    (context : TaskContext) : Except TaskError Value :=
  match timeoutMs with
  | some limit =>
    if limit.toNat < task.elapsedMs input context then .error (.timeout limit)
    else task.execute input context
  | none => task.execute input context

/-- `TaskRegistry::get`. -/
abbrev TaskRegistry : Type := TaskId → Option Task

/-- An application-provided persistence or event adapter failed. -/
structure AdapterError where
  adapter : String
  message : String
  deriving DecidableEq, Repr

/-- Errors raised by the orchestration runtime or its adapters. -/
inductive OrchestratorError where
  | workflow (error : WorkflowError)
  | store (error : AdapterError)
  | eventSink (error : AdapterError)
  | repository (error : RepositoryError)
  deriving DecidableEq, Repr

/-- Both executors build a manifest of the registered tasks that a workflow uses. -/
def buildManifest (registry : TaskRegistry) (provenance : RunProvenance)
    (workflow : WorkflowSpec) : Except WorkflowError RunManifest := do
  let tasks ← workflow.steps.foldlM (fun (tasks : BTreeMap TaskId TaskSpec) step => do
    let some task := registry step.task | throw (.unregisteredTask step.task)
    let tasks := tasks.insert task.spec.id task.spec
    match step.policy.fallbackTask with
    | none => return tasks
    | some fallback =>
      let some task := registry fallback | throw (.unregisteredTask fallback)
      return tasks.insert task.spec.id task.spec) ∅
  return ((RunManifest.new workflow.id workflow.version tasks).withEvaluationGates
    workflow.evaluationGates).withProvenance provenance

end Orchestrator
