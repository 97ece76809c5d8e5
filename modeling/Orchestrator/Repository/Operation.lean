import Orchestrator.Foundation.Machine
import Orchestrator.Model.Repository

/-!
# Histories of repository operations

`repository` is the machine whose inputs are the calls of the in-memory
repository, with any arguments and any clock readings. Workers interleave at
whole calls, since each call holds the write lock throughout, so a history is
any list of calls. `issued` are the claims handed out along a history.
-/

namespace Orchestrator

/-- A call of the repository with its arguments and clock readings. -/
inductive Op where
  | createRun (request : RunRequest) (clock : Clock)
  | claimNextStep (runId : RunId) (worker : WorkerProfile) (leaseMs : UInt64) (clock : Clock)
  | renewStep (claim : StepClaim) (leaseMs : UInt64) (clock : Clock)
  | completeStep (claim : StepClaim) (completion : StepCompletion) (clock : Clock)
  | recordEvent (runId : RunId) (event : ExecutionEvent) (clock : Clock)
  | finishRun (runId : RunId) (metrics : List Metric) (clock : Clock)
  | cancelRun (runId : RunId) (clock : Clock)
  | recoverExpired (clock : Clock)

/-- What a call returned. -/
inductive Response where
  | created (result : Option (Except RepositoryError RunRecord))
  | claimed (result : Except RepositoryError (Option StepClaim))
  | renewed (result : Except RepositoryError Unit)
  | completed (result : Except RepositoryError RunRecord)
  | recorded (result : Except RepositoryError EventEnvelope)
  | finished (result : Except RepositoryError RunRecord)
  | cancelled (result : Except RepositoryError RunRecord)
  | recovered (result : Except RepositoryError (List (RunId × StepId)))

/-- The claim a call handed out. -/
def Response.claim? : Response → Option StepClaim
  | .claimed (.ok claim) => claim
  | _ => none

namespace Repository

/-- Runs one call. -/
def step (s : Repository) : Op → Response × Repository
  | .createRun request clock => Prod.map .created id (s.createRun request clock)
  | .claimNextStep runId worker leaseMs clock =>
    Prod.map .claimed id (s.claimNextStep runId worker leaseMs clock)
  | .renewStep claim leaseMs clock => Prod.map .renewed id (s.renewStep claim leaseMs clock)
  | .completeStep claim completion clock =>
    Prod.map .completed id (s.completeStep claim completion clock)
  | .recordEvent runId event clock => Prod.map .recorded id (s.recordEvent runId event clock)
  | .finishRun runId metrics clock => Prod.map .finished id (s.finishRun runId metrics clock)
  | .cancelRun runId clock => Prod.map .cancelled id (s.cancelRun runId clock)
  | .recoverExpired clock => Prod.map .recovered id (s.recoverExpired clock)

end Repository

/-- The in-memory repository, starting empty. -/
def repository : Machine Repository Op Response := ⟨.empty, Repository.step⟩

section Next

variable (s : Repository)

@[simp] theorem next_createRun (request : RunRequest) (clock : Clock) :
    repository.next s (.createRun request clock) = (s.createRun request clock).2 := rfl

@[simp] theorem next_claimNextStep (runId : RunId) (worker : WorkerProfile) (leaseMs : UInt64)
    (clock : Clock) : repository.next s (.claimNextStep runId worker leaseMs clock) =
      (s.claimNextStep runId worker leaseMs clock).2 := rfl

@[simp] theorem next_completeStep (claim : StepClaim) (completion : StepCompletion)
    (clock : Clock) : repository.next s (.completeStep claim completion clock) =
      (s.completeStep claim completion clock).2 := rfl

@[simp] theorem next_finishRun (runId : RunId) (metrics : List Metric) (clock : Clock) :
    repository.next s (.finishRun runId metrics clock) =
      (s.finishRun runId metrics clock).2 := rfl

end Next

/-- The claims handed out along a history, in order. -/
def issued (ops : List Op) : List StepClaim :=
  (repository.transcript ops).filterMap Response.claim?

@[simp] theorem issued_nil : issued [] = [] := rfl

theorem issued_concat (ops : List Op) (op : Op) :
    issued (ops ++ [op]) =
      issued ops ++ (repository.answer (repository.after ops) op).claim?.toList := by
  rw [issued, Machine.transcript_concat, List.filterMap_append]
  cases h : (repository.answer (repository.after ops) op).claim? with
  | none => simp [issued, h]
  | some claim => simp [issued, h]

/-- A history has handed out every claim of its beginnings. -/
theorem issued_extends {pre ops : List Op} (h : pre <+: ops) : issued pre <+: issued ops := by
  obtain ⟨later, rfl⟩ := h
  rw [issued, issued, Machine.transcript_append, List.filterMap_append]
  exact List.prefix_append _ _

/-! A small run, for histories that exhibit a behaviour. -/

namespace Sample

def runId : RunId := ⟨"run"⟩

def worker : WorkerProfile := ⟨⟨"worker"⟩, .any, default⟩

def task (id : String) : TaskSpec := ⟨⟨id⟩, "1", "work", ∅⟩

/-- A step of the task `work` with a fallback to the task `backup` where asked. -/
def step (id : String) (maxAttempts : UInt32) (fallback : Bool) : StepSpec :=
  { id := ⟨id⟩, task := ⟨"work"⟩, dependsOn := []
    policy :=
      { retry := ⟨maxAttempts, .none⟩, timeoutMs := none
        fallbackTask := if fallback then some ⟨"backup"⟩ else none
        residency := .any, resources := default } }

/-- A request to run the steps under the gates. -/
def request (steps : List StepSpec) (gates : List EvaluationGate) : RunRequest :=
  { runId, workflow := ⟨⟨"flow"⟩, "1", steps, gates⟩
    manifest := (RunManifest.new ⟨"flow"⟩ "1"
      (((∅ : BTreeMap TaskId TaskSpec).insert ⟨"work"⟩ (task "work")).insert ⟨"backup"⟩
        (task "backup"))).withEvaluationGates gates
    input := .null, idempotencyKey := none }

/-- The first claim of a step, when it is the history's claim of that number. -/
def claim (step : StepSpec) (number : UInt64) : StepClaim :=
  { runId, workflowId := ⟨"flow"⟩, step, task := task "work", input := buildStepInput .null ∅
    worker := worker.id, leaseToken := number, attempt := 1, fallbackUsed := false }

/-- A worker asks for a step of the run at the given time, for ten milliseconds. -/
def ask (now : UInt64) : Op := .claimNextStep runId worker 10 (.at now)

/-- A worker reports that its first attempt failed for good. -/
def fail (step : StepSpec) (number now : UInt64) : Op :=
  .completeStep (claim step number) (.failed runId step.id 1 "broken") (.at now)

/-- A worker reports an output for its first attempt. -/
def succeed (step : StepSpec) (number now : UInt64) (output : Json.Value) : Op :=
  .completeStep (claim step number) (.succeeded runId step.id output 1) (.at now)

end Sample

end Orchestrator
