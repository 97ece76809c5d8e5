import Orchestrator.Foundation.Client
import Orchestrator.Model.Durable
import Orchestrator.Repository.Operation

/-!
# Driving a run

`resume` looks the run up and drives it: `drive` claims a batch of steps, executes the batch
together, and commits the results one after the other, until no step is left to claim and the
run has ended. Its repository calls are those of a client, so that other workers may make any
calls between two of them.

A move carries what it reads from outside: the clock of a repository call, the instant that
`Instant::now` reads in nanoseconds, and the answer of a task.
-/

namespace Orchestrator

open Json (Value)

/-- The options that the loop of `drive` reads, besides those of its claims. -/
structure DriveLimits where
  maxParallelSteps : Nat
  maxIdleTimeMs : Option UInt64
  /-- Both constructors of the executor leave at least one. -/
  parallel : 0 < maxParallelSteps

/-- Where the execution of one claim stands. Its start is recorded; then the task runs, under
a heartbeat until a renewal fails; then `execute_claim` has returned. -/
inductive JobPhase where
  | starting
  | running (beating : Bool)
  | ended (result : Except OrchestratorError StepCompletion)

/-- The execution of one claim of a batch. -/
structure Job where
  claim : StepClaim
  phase : JobPhase

/-- The execution of a claim begins. -/
def Job.begin (claim : StepClaim) : Job := ⟨claim, .starting⟩

/-- What `execute_claim` returned, once it has. -/
def Job.result? (job : Job) : Option (StepClaim × Except OrchestratorError StepCompletion) :=
  match job.phase with
  | .ended result => some (job.claim, result)
  | _ => none

/-- Where `resume` stands: it looks the run up, and then goes round the loop of `drive`. -/
inductive DrivePhase where
  | loading
  | claiming (claims : List StepClaim) (left : Nat)
  | finishing
  | recovering
  | idling
  | executing (jobs : List Job)
  | committing (batch : List (StepClaim × Except OrchestratorError StepCompletion))
  | returned (result : Except OrchestratorError RunRecord)

/-- The local variables of `drive`. -/
structure DriveCall where
  idleStarted : Nat
  phase : DrivePhase

/-- A call of `resume` with its executor and arguments. -/
structure Drive where
  executor : DurableExecutor
  limits : DriveLimits
  runId : RunId
  metrics : List Metric

/-- A move of the loop, of the execution of one claim, or of its heartbeat. -/
inductive DriveMove where
  | proceed (clock : Clock) (now : Nat)
  | work (i : Nat) (answer : Except TaskError Value) (clock : Clock)
  | beat (i : Nat) (clock : Clock)

namespace Drive

variable (drive : Drive)

/-- The idle time has reached its bound: `idle_started.elapsed() >= max_idle`. -/
def idledOut (idleStarted now : Nat) : Bool :=
  drive.limits.maxIdleTimeMs.any fun maxIdle =>
    decide (maxIdle.toNat * 1000000 ≤ now - idleStarted)

/-- The next round of the loop begins. -/
def round (call : DriveCall) : DriveCall :=
  { call with phase := .claiming [] drive.limits.maxParallelSteps }

/-- The batch is complete. An empty one lets the run be finished; the claims of another one
are executed. -/
def batched (call : DriveCall) (claims : List StepClaim) (now : Nat) : DriveCall :=
  match claims with
  | [] => { call with phase := .finishing }
  | _ => ⟨now, .executing (claims.map .begin)⟩

/-- The repository call of a move of the loop. -/
def loopCall (clock : Clock) : DrivePhase → Option Op
  | .claiming _ (_ + 1) =>
    some (.claimNextStep drive.runId drive.executor.options.worker drive.executor.options.leaseMs
      clock)
  | .finishing => some (.finishRun drive.runId drive.metrics clock)
  | .recovering => some (.recoverExpired clock)
  | .committing ((claim, .ok completion) :: _) => some (.completeStep claim completion clock)
  | _ => none

/-- The repository call of a move of an execution: it records the start. -/
def jobCall (clock : Clock) (job : Job) : Option Op :=
  match job.phase with
  | .starting =>
    some (.recordEvent job.claim.runId
      (.stepStarted job.claim.runId job.claim.step.id job.claim.task.id job.claim.attempt) clock)
  | _ => none

/-- The renewal of a heartbeat. -/
def beatCall (clock : Clock) (job : Job) : Option Op :=
  match job.phase with
  | .running true =>
    some (.renewStep job.claim (drive.executor.heartbeatInterval.saturatingMul 3) clock)
  | _ => none

/-- The executions of the batch, while it is executed. -/
def jobs : DrivePhase → List Job
  | .executing jobs => jobs
  | _ => []

/-- The repository call of a move. -/
def call (stands : DriveCall) : DriveMove → Option Op
  | .proceed clock _ => drive.loopCall clock stands.phase
  | .work i _ clock => (jobs stands.phase)[i]? >>= jobCall clock
  | .beat i clock => (jobs stands.phase)[i]? >>= drive.beatCall clock

/-- The loop goes on with the answer to its call. -/
def received (stands : DriveCall) (now : Nat) (response : Response) : DriveCall :=
  match stands.phase, response with
  | .claiming claims (left + 1), .claimed (.ok (some claim)) =>
    { stands with phase := .claiming (claims ++ [claim]) left }
  | .claiming claims (_ + 1), .claimed (.ok none) => batched stands claims now
  | .claiming _ (_ + 1), .claimed (.error error) =>
    { stands with phase := .returned (.error (.repository error)) }
  | .finishing, .finished (.ok run) =>
    if run.status = .running ∨ run.status = .pending then { stands with phase := .recovering }
    else { stands with phase := .returned (.ok run) }
  | .finishing, .finished (.error error) =>
    { stands with phase := .returned (.error (.repository error)) }
  | .recovering, .recovered (.ok _) => { stands with phase := .idling }
  | .recovering, .recovered (.error error) =>
    { stands with phase := .returned (.error (.repository error)) }
  | .committing (_ :: batch), .completed (.ok _) => { stands with phase := .committing batch }
  | .committing (_ :: _), .completed (.error error) =>
    { stands with phase := .returned (.error (.repository error)) }
  | _, _ => stands

/-- The execution goes on with the answer to the record of its start. -/
def started (job : Job) : Response → Job
  | .recorded (.ok _) =>
    match drive.executor.registry job.claim.task.id with
    | none =>
      { job with phase := .ended (.error (.workflow (.unregisteredTask job.claim.task.id))) }
    | some _ => { job with phase := .running true }
  | .recorded (.error error) => { job with phase := .ended (.error (.repository error)) }
  | _ => job

/-- The heartbeat ends with a renewal that fails. -/
def renewed (job : Job) : Response → Job
  | .renewed (.error _) => { job with phase := .running false }
  | _ => job

/-- One of the executions has moved. -/
def setJob (stands : DriveCall) (i : Nat) (job : Job) : DriveCall :=
  { stands with phase := .executing ((jobs stands.phase).set i job) }

/-- The call goes on with the answer to a move's repository call. -/
def receive (stands : DriveCall) (move : DriveMove) (response : Response) : DriveCall :=
  match move with
  | .proceed _ now => received stands now response
  | .work i _ _ =>
    match (jobs stands.phase)[i]? with
    | some job => setJob stands i (drive.started job response)
    | none => stands
  | .beat i _ =>
    match (jobs stands.phase)[i]? with
    | some job => setJob stands i (renewed job response)
    | none => stands

/-- A move of the loop without a repository call. Only `resume` looks at the repository. -/
def proceeds (stands : DriveCall) (now : Nat) (s : Repository) : DriveCall :=
  match stands.phase with
  | .loading =>
    match s.loadRun drive.runId with
    | none => { stands with phase := .returned (.error (.repository (.runNotFound drive.runId))) }
    | some _ => drive.round ⟨now, .loading⟩
  | .claiming claims 0 => batched stands claims now
  | .idling =>
    if drive.idledOut stands.idleStarted now then
      { stands with phase := .returned (.error (.repository (.conflict drive.runId))) }
    else drive.round stands
  | .executing jobs =>
    -- `join_all` returns when all executions have
    match jobs.mapM Job.result? with
    | some batch => { stands with phase := .committing batch }
    | none => stands
  | .committing [] => drive.round stands
  | .committing ((_, .error error) :: _) => { stands with phase := .returned (.error error) }
  | _ => stands

/-- The task answers. -/
def answered (job : Job) (answer : Except TaskError Value) : Job :=
  match job.phase with
  | .running _ => { job with phase := .ended (.ok (job.claim.completion answer)) }
  | _ => job

/-- A move without a repository call. -/
def look (stands : DriveCall) (move : DriveMove) (s : Repository) : DriveCall :=
  match move with
  | .proceed _ now => drive.proceeds stands now s
  | .work i answer _ =>
    match (jobs stands.phase)[i]? with
    | some job => setJob stands i (answered job answer)
    | none => stands
  | .beat _ _ => stands

/-- The call of `resume` as a client of the repository. -/
def client : Client Repository Op Response DriveCall DriveMove :=
  ⟨⟨0, .loading⟩, drive.call, drive.receive, drive.look⟩

end Drive

end Orchestrator
