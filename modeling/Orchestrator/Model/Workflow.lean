import Orchestrator.Foundation.Kahn
import Orchestrator.Model.Evaluation
import Orchestrator.Model.Policy

/-!
# Workflow definitions, manifests and their errors

`validate` walks the dependency graph with one in-degree and one list of
dependents per step id. The in-degrees are unsigned: lowering a degree of zero
is a panic, which is the absent result here.
-/

namespace Orchestrator

/-- One executable step in a workflow graph. -/
structure StepSpec where
  id : StepId
  task : TaskId
  dependsOn : List StepId
  policy : ExecutionPolicy
  deriving DecidableEq, Repr

/-- A serializable workflow definition. -/
structure WorkflowSpec where
  id : WorkflowId
  version : String
  steps : List StepSpec
  evaluationGates : List EvaluationGate
  deriving BEq, Repr

/-- Reproducibility and audit information supplied by the application. -/
structure RunProvenance where
  model : Option String
  prompt : Option String
  dataset : Option String
  inputHash : Option String
  calibration : Option String
  codeRevision : Option String
  environment : BTreeMap String String
  deriving DecidableEq, Repr

/-- Provenance captured when a workflow starts. -/
structure RunManifest where
  schemaVersion : UInt32
  workflowId : WorkflowId
  workflowVersion : String
  tasks : BTreeMap TaskId TaskSpec
  evaluationGates : List EvaluationGate
  provenance : RunProvenance
  metadata : BTreeMap String String
  deriving BEq, Repr

/-- Invalid workflow topology or task registration. -/
inductive WorkflowError where
  | duplicateStep (workflow : WorkflowId) (step : StepId)
  | unknownDependency (workflow : WorkflowId) (step dependency : StepId)
  | dependencyCycle (workflow : WorkflowId)
  | empty (workflow : WorkflowId)
  | unregisteredTask (task : TaskId)
  | taskIdMismatch (workflow : WorkflowId) (step : StepId) (task : TaskId)
  | unsatisfiedPolicy (workflow : WorkflowId) (step : StepId)
  deriving DecidableEq, Repr

/-- The displayed text of a workflow error. -/
def WorkflowError.message : WorkflowError → String
  | .duplicateStep workflow step => s!"workflow {workflow} contains duplicate step {step}"
  | .unknownDependency workflow step dependency =>
    s!"workflow {workflow} step {step} depends on unknown step {dependency}"
  | .dependencyCycle workflow => s!"workflow {workflow} contains a dependency cycle"
  | .empty workflow => s!"workflow {workflow} has no steps"
  | .unregisteredTask task => s!"task {task} is not registered"
  | .taskIdMismatch workflow step task =>
    s!"workflow {workflow} references task {task} from step {step}, but the registered " ++
      "task has a different id"
  | .unsatisfiedPolicy workflow step =>
    s!"workflow {workflow} step {step} cannot run on the selected worker"

namespace WorkflowSpec

/-- The step ids, in step order. -/
def stepIds (workflow : WorkflowSpec) : List StepId := workflow.steps.map StepSpec.id

/-- Adds a step unless its id is already in use. -/
def addStep (workflow : WorkflowSpec) (step : StepSpec) : Except WorkflowError WorkflowSpec :=
  if workflow.steps.any (fun existing => existing.id == step.id) then
    .error (.duplicateStep workflow.id step.id)
  else .ok { workflow with steps := workflow.steps ++ [step] }

/-- The first dependency, in step order, that names no step. -/
def unknownDependency (workflow : WorkflowSpec) : Option (StepId × StepId) :=
  let ids : BTreeSet StepId := Std.ExtTreeSet.ofList workflow.stepIds
  workflow.steps.findSome? fun step =>
    (step.dependsOn.find? fun dependency => !ids.contains dependency).map fun dependency =>
      (step.id, dependency)

/-- The initial in-degrees: one entry per id, holding the last step's count. -/
def indegree (workflow : WorkflowSpec) : BTreeMap StepId Nat :=
  workflow.steps.foldl (fun degrees step => degrees.insert step.id step.dependsOn.length) ∅

/-- `dependents.entry(dependency).or_default().push(id)`. -/
def pushDependent (dependents : BTreeMap StepId (List StepId)) (dependency id : StepId) :
    BTreeMap StepId (List StepId) :=
  dependents.insert dependency ((dependents[dependency]?).getD [] ++ [id])

/-- For each dependency, the steps that name it, once per mention. -/
def dependents (workflow : WorkflowSpec) : BTreeMap StepId (List StepId) :=
  workflow.steps.foldl (fun dependents step =>
    step.dependsOn.foldl (fun dependents dependency =>
      pushDependent dependents dependency step.id) dependents) ∅

/-- Ids whose in-degree is zero, in key order. -/
def initiallyReady (workflow : WorkflowSpec) : List StepId :=
  workflow.indegree.toList.filterMap fun entry => if entry.2 = 0 then some entry.1 else none

/-- Checks the dependency graph; the result is absent where an in-degree would
fall below zero. -/
def validate (workflow : WorkflowSpec) : Option (Except WorkflowError Unit) :=
  if workflow.steps.isEmpty then some (.error (.empty workflow.id))
  else
    match workflow.unknownDependency with
    | some (step, dependency) => some (.error (.unknownDependency workflow.id step dependency))
    | none =>
      match Kahn.traverse (fun id => (workflow.dependents[id]?).getD []) workflow.steps.length
          workflow.initiallyReady workflow.indegree 0 with
      | .error (.underflow _) => none
      | .error .exhausted => none
      | .error (.unknown id child) =>
        some (.error (.unknownDependency workflow.id child id))
      | .ok visited =>
        if visited ≠ workflow.steps.length then some (.error (.dependencyCycle workflow.id))
        else some (.ok ())

end WorkflowSpec

namespace RunManifest

def new (workflowId : WorkflowId) (workflowVersion : String) (tasks : BTreeMap TaskId TaskSpec) :
    RunManifest :=
  { schemaVersion := 1, workflowId, workflowVersion, tasks, evaluationGates := []
    provenance := ⟨none, none, none, none, none, none, ∅⟩, metadata := ∅ }

def withEvaluationGates (manifest : RunManifest) (gates : List EvaluationGate) : RunManifest :=
  { manifest with evaluationGates := gates }

def withProvenance (manifest : RunManifest) (provenance : RunProvenance) : RunManifest :=
  { manifest with provenance }

end RunManifest

end Orchestrator
