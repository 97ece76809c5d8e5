import Orchestrator.Model.Transition

/-!
# The in-memory repository

Each operation is a function from the repository state to its result and the
state it leaves, also when the result is an error. An operation holds the write
lock from its first access to its return, so operations are atomic.

`now_ms` may be read several times within one call and its readings need not be
ordered. `Clock` gives one reading for each place that reads the clock: `call k`
for the places outside loops, `step run step` for a place inside a loop.
-/

namespace Orchestrator

open Json (Value)

/-- The clock readings of one call. -/
structure Clock where
  call : Nat → UInt64
  step : RunId → StepId → UInt64

/-- The clock that reads the same instant throughout a call. -/
def Clock.at (now : UInt64) : Clock := ⟨fun _ => now, fun _ _ => now⟩

/-- `InMemoryRepositoryState`. -/
structure Repository where
  runs : BTreeMap RunId RunRecord
  idempotency : BTreeMap IdempotencyKey RunId
  events : List EventEnvelope
  nextEventSequence : UInt64
  nextLeaseToken : UInt64

namespace Repository

/-- The default state, which a new store starts from. -/
def empty : Repository := ⟨∅, ∅, [], 0, 0⟩

/-- Writes a record back under its run id. -/
def setRun (s : Repository) (runId : RunId) (run : RunRecord) : Repository :=
  { s with runs := s.runs.insert runId run }

end Repository

/-- A run with one more event, its envelope, and the revision that goes with it. -/
def RunRecord.pushEvent (run : RunRecord) (event : ExecutionEvent) (envelope : EventEnvelope) :
    RunRecord :=
  { run with
    events := run.events ++ [event], eventLog := run.eventLog ++ [envelope]
    revision := run.revision.saturatingAdd 1 }

/-- The sequence counter moves before the run is looked up. -/
def appendEvent (s : Repository) (runId : RunId) (event : ExecutionEvent) (now : UInt64) :
    Except RepositoryError EventEnvelope × Repository :=
  let s := { s with nextEventSequence := s.nextEventSequence.saturatingAdd 1 }
  let envelope := eventEnvelope runId s.nextEventSequence event now
  match s.runs[runId]? with
  | none => (.error (.runNotFound runId), s)
  | some run =>
    let s := { s.setRun runId (run.pushEvent event envelope) with events := s.events ++ [envelope] }
    (.ok envelope, s)

namespace Repository

/-- The record of a run, or the error for its absence. -/
def getRun (s : Repository) (runId : RunId) (absent : RepositoryError) :
    Except RepositoryError RunRecord :=
  match s.runs[runId]? with
  | some run => .ok run
  | none => .error absent

/-- Appends an event and returns the run as it then stands. -/
def appendAndReturn (s : Repository) (runId : RunId) (event : ExecutionEvent) (now : UInt64)
    (absent : RepositoryError) : Except RepositoryError RunRecord × Repository :=
  match appendEvent s runId event now with
  | (.error error, s) => (.error error, s)
  | (.ok _, s) => (s.getRun runId absent, s)

/-- Creates a run and logs its start. The result is absent where validation of
the request panics. -/
def createRun (s : Repository) (request : RunRequest) (clock : Clock) :
    Option (Except RepositoryError RunRecord) × Repository :=
  match validateRunRequest request with
  | none => (none, s)
  | some (.error error) => (some (.error error), s)
  | some (.ok ()) =>
    match request.idempotencyKey >>= fun key => s.idempotency[key]? with
    | some existingId =>
      match s.runs[existingId]? with
      | none => (some (.error (.conflict existingId)), s)
      | some existing =>
        if existing.workflow == request.workflow && existing.manifest == request.manifest &&
            existing.input == request.input then
          (some (.ok existing), s)
        else (some (.error (.idempotencyConflict existingId)), s)
    | none =>
      if s.runs.contains request.runId then (some (.error (.conflict request.runId)), s)
      else
        let run := { RunRecord.new request.runId request.workflow request.manifest request.input
            (clock.call 0) with
          status := .running, idempotencyKey := request.idempotencyKey }
        let s :=
          match request.idempotencyKey with
          | some key => { s with idempotency := s.idempotency.insert key run.runId }
          | none => s
        let (result, s) := (s.setRun run.runId run).appendAndReturn run.runId
          (.runStarted run.runId run.workflow.id) (clock.call 1) (.conflict run.runId)
        (some result, s)

/-- `load_run`. -/
def loadRun (s : Repository) (runId : RunId) : Option RunRecord := s.runs[runId]?

end Repository

/-- The record a first claim of a step starts from. -/
def StepRecord.new (id : StepId) (task : TaskId) : StepRecord :=
  { id, task, status := .pending, attempts := 0, output := none, error := none
    fallbackUsed := false, lease := none, history := [], artifacts := []
    nextAttemptAtMs := none }

/-- The edits a claim makes to a step's record. -/
def StepRecord.claim (record : StepRecord) (runId : RunId) (taskId : TaskId) (worker : WorkerId)
    (token now leaseMs : UInt64) : StepRecord :=
  let attempts := record.attempts.saturatingAdd 1
  { record with
    task := taskId
    status := .running
    attempts
    lease := some ⟨worker, token, now.saturatingAdd (max leaseMs 1)⟩
    history := record.history ++ [
      { id := generatedAttemptId runId token, number := attempts, worker, leaseToken := token
        startedAtMs := now, finishedAtMs := none, status := .running, error := none }] }

/-- The lease names this claim and has not run out. -/
def StepLease.validFor (lease : StepLease) (claim : StepClaim) (now : UInt64) : Bool :=
  lease.worker == claim.worker && lease.token == claim.leaseToken &&
    decide (now < lease.expiresAtMs)

/-- The edits a completion makes to a step's record. -/
def StepRecord.complete (record : StepRecord) (completion : StepCompletion)
    (retryNow finishNow : UInt64) : StepRecord :=
  { record with
    status := completion.status
    output := completion.output
    error := completion.error
    fallbackUsed := record.fallbackUsed || completion.fallbackUsed
    artifacts := completion.artifacts
    task := completion.nextTask.getD record.task
    lease := none
    nextAttemptAtMs := completion.retryAfterMs.map retryNow.saturatingAdd
    history := record.history.modifyLast fun attempt =>
      attempt.close finishNow completion.status completion.error }

/-- The edits a cancellation makes to a step's record. -/
def StepRecord.cancel (record : StepRecord) (now : UInt64) : StepRecord :=
  if record.status == .succeeded || record.status == .failed then record
  else
    { record with
      history := record.history.modifyLast fun attempt =>
        if attempt.status == .running then
          { attempt with finishedAtMs := some now, status := .cancelled }
        else attempt
      status := .cancelled
      lease := none }

namespace RunRecord

def setStep (run : RunRecord) (id : StepId) (record : StepRecord) : RunRecord :=
  { run with steps := run.steps.insert id record }

def bump (run : RunRecord) : RunRecord :=
  { run with revision := run.revision.saturatingAdd 1 }

/-- The run fails with a step that has failed. -/
def noteFailure (run : RunRecord) (record : StepRecord) : RunRecord :=
  if record.status == .failed then { run with error := record.error } else run

/-- The same for a recovered step, when its failure left an error. -/
def noteRecovery (run : RunRecord) (record : StepRecord) : RunRecord :=
  if record.status == .failed && record.error.isSome then { run with error := record.error }
  else run

/-- There is one record for each step and all of them succeeded. -/
def allSucceeded (run : RunRecord) : Bool :=
  run.steps.size == run.workflow.steps.length &&
    BTreeMap.allValues run.steps (fun step => step.status == .succeeded)

def hasFailed (run : RunRecord) : Bool :=
  BTreeMap.anyValue run.steps (fun step => step.status == .failed)

/-- Every gate decision stored in the run passed. -/
def gatesPassed (run : RunRecord) : Bool :=
  BTreeMap.allValues run.gateDecisions GateDecision.passed

/-- The run with the metrics of a finish request and their gate decisions. -/
def setMetrics (run : RunRecord) (metrics : List Metric) : RunRecord :=
  { run with metrics, gateDecisions := evaluateGates run.manifest.evaluationGates metrics }

/-- The end of a run whose steps are settled: a failed step fails it, and
otherwise the gates decide. -/
def settle (run : RunRecord) : RunRecord :=
  if run.hasFailed then { run with status := .failed }
  else if run.gatesPassed then { run with status := .succeeded }
  else
    { run with error := some "one or more evaluation gates failed", status := .failed }

/-- The run with every step record that is not settled cancelled. -/
def cancelSteps (run : RunRecord) (now : StepId → UInt64) : RunRecord :=
  { run with
    status := .cancelled
    steps := run.steps.map fun id record => record.cancel (now id) }

end RunRecord

namespace Repository

/-- Leases the first step of the run that the worker may execute now. -/
def claimNextStep (s : Repository) (runId : RunId) (worker : WorkerProfile) (leaseMs : UInt64)
    (clock : Clock) : Except RepositoryError (Option StepClaim) × Repository :=
  match s.runs[runId]? with
  | none => (.error (.runNotFound runId), s)
  | some run =>
    if run.status ≠ .running then (.ok none, s)
    else
      match run.workflow.steps.findSome? fun step =>
          claimCandidate run worker (clock.step runId step.id) step with
      | none => (.ok none, s)
      | some (step, taskId, dependencies) =>
        match run.manifest.tasks[taskId]? with
        | none => (.error (.conflict runId), s)
        | some task =>
          let token := s.nextLeaseToken.saturatingAdd 1
          let record := ((run.steps[step.id]?).getD (.new step.id taskId)).claim runId taskId
            worker.id token (clock.call 0) leaseMs
          let claim : StepClaim :=
            { runId, workflowId := run.workflow.id, step, task
              input := buildStepInput run.input dependencies, worker := worker.id
              leaseToken := token, attempt := record.attempts
              fallbackUsed := record.fallbackUsed }
          (.ok (some claim),
            { s.setRun runId (run.setStep step.id record).bump with nextLeaseToken := token })

/-- Tries the listed runs in order. -/
def claimFrom (s : Repository) (worker : WorkerProfile) (leaseMs : UInt64) (clock : Clock) :
    List RunId → Except RepositoryError (Option StepClaim) × Repository
  | [] => (.ok none, s)
  | runId :: rest =>
    match s.claimNextStep runId worker leaseMs clock with
    | (.ok none, s) => claimFrom s worker leaseMs clock rest
    | (result, s) => (result, s)

/-- The running runs, in key order. -/
def candidates (s : Repository) : List RunId :=
  s.runs.toList.filterMap fun entry =>
    if entry.2.status == .running then some entry.2.runId else none

/-- Finds and claims one runnable step across all active runs, when no other
operation comes between reading the candidates and trying them. -/
def claimNextRunnableStep (s : Repository) (worker : WorkerProfile) (leaseMs : UInt64)
    (clock : Clock) : Except RepositoryError (Option StepClaim) × Repository :=
  s.claimFrom worker leaseMs clock s.candidates

/-- Extends a live lease. -/
def renewStep (s : Repository) (claim : StepClaim) (leaseMs : UInt64) (clock : Clock) :
    Except RepositoryError Unit × Repository :=
  match s.runs[claim.runId]? with
  | none => (.error (.runNotFound claim.runId), s)
  | some run =>
    match run.steps[claim.step.id]? with
    | none => (.error (.leaseLost claim.runId claim.step.id), s)
    | some record =>
      match record.lease with
      | none => (.error (.leaseLost claim.runId claim.step.id), s)
      | some lease =>
        if !lease.validFor claim (clock.call 0) then
          (.error (.leaseLost claim.runId claim.step.id), s)
        else
          let lease := { lease with
            expiresAtMs := (clock.call 1).saturatingAdd (max leaseMs 1) }
          let run := run.setStep claim.step.id { record with lease := some lease }
          (.ok (), s.setRun claim.runId run.bump)

/-- Commits the outcome of a leased attempt and its event. -/
def completeStep (s : Repository) (claim : StepClaim) (completion : StepCompletion)
    (clock : Clock) : Except RepositoryError RunRecord × Repository :=
  match s.runs[claim.runId]? with
  | none => (.error (.runNotFound claim.runId), s)
  | some run =>
    match run.steps[claim.step.id]? with
    | none => (.error (.leaseLost claim.runId claim.step.id), s)
    | some record =>
      if !record.lease.any (fun lease => lease.validFor claim (clock.call 0)) then
        (.error (.leaseLost claim.runId claim.step.id), s)
      else if !completionMatchesClaim completion claim run.manifest then
        (.error (.invalidCompletion claim.runId claim.step.id), s)
      else
        let record := record.complete completion (clock.call 1) (clock.call 2)
        let run := (run.setStep claim.step.id record).bump.noteFailure record
        match appendEvent (s.setRun claim.runId run) run.runId completion.event (clock.call 3) with
        | (.error error, s) => (.error error, s)
        | (.ok _, s) => (.ok ((s.runs[run.runId]?).getD run), s)

/-- Records an event that describes the run as it stands. -/
def recordEvent (s : Repository) (runId : RunId) (event : ExecutionEvent) (clock : Clock) :
    Except RepositoryError EventEnvelope × Repository :=
  match s.runs[runId]? with
  | none => (.error (.runNotFound runId), s)
  | some run =>
    if !eventBelongsToRun event runId || !eventIsValidForRecord run event then
      (.error (.invalidEvent runId), s)
    else
      match appendEvent s runId event (clock.call 0) with
      | (.error error, s) => (.error error, s)
      | (.ok _, s) =>
        match s.runs[runId]? >>= fun run => run.eventLog.getLast? with
        | some envelope => (.ok envelope, s)
        | none => (.error (.conflict runId), s)

/-- Stores the metrics and, where the steps are settled, ends the run. -/
def finishRun (s : Repository) (runId : RunId) (metrics : List Metric) (clock : Clock) :
    Except RepositoryError RunRecord × Repository :=
  match s.runs[runId]? with
  | none => (.error (.runNotFound runId), s)
  | some run =>
    let run := run.setMetrics metrics
    let previous := run.status
    if !run.hasFailed && !run.allSucceeded then (.ok run, s.setRun runId run)
    else
      let run := run.settle
      let s := s.setRun runId run
      if previous ≠ run.status then
        s.appendAndReturn runId (.runFinished runId run.status) (clock.call 0)
          (.runNotFound runId)
      else (s.getRun runId (.runNotFound runId), s)

/-- Cancels a run that has not ended, with all its unsettled steps. -/
def cancelRun (s : Repository) (runId : RunId) (clock : Clock) :
    Except RepositoryError RunRecord × Repository :=
  match s.runs[runId]? with
  | none => (.error (.runNotFound runId), s)
  | some run =>
    if run.status.isTerminal then (.ok run, s)
    else
      (s.setRun runId (run.cancelSteps (clock.step runId))).appendAndReturn runId
        (.runFinished runId .cancelled) (clock.call 0) (.runNotFound runId)

/-- Recovers one step of a run, if its lease has run out at `now`. -/
def recoverStep (s : Repository) (runId : RunId) (step : StepSpec) (now eventNow : UInt64) :
    Option (Except RepositoryError EventEnvelope × Repository) :=
  match s.runs[runId]? with
  | none => none
  | some run =>
    match run.steps[step.id]? >>= fun record => recoverExpiredStep runId step record now with
    | none => none
    | some (record, event) =>
      let run := (run.setStep step.id record).noteRecovery record
      some (appendEvent (s.setRun runId run) runId event eventNow)

/-- The steps of one run, in workflow order. -/
def recoverSteps (s : Repository) (runId : RunId) (now : UInt64) (clock : Clock) :
    List StepSpec → List (RunId × StepId) →
      Except RepositoryError (List (RunId × StepId)) × Repository
  | [], expired => (.ok expired, s)
  | step :: rest, expired =>
    match s.recoverStep runId step now (clock.step runId step.id) with
    | none => recoverSteps s runId now clock rest expired
    | some (.error error, s) => (.error error, s)
    | some (.ok _, s) => recoverSteps s runId now clock rest (expired ++ [(runId, step.id)])

/-- The listed runs, each with the steps of its workflow. -/
def recoverRuns (s : Repository) (now : UInt64) (clock : Clock) :
    List RunId → List (RunId × StepId) →
      Except RepositoryError (List (RunId × StepId)) × Repository
  | [], expired => (.ok expired, s)
  | runId :: rest, expired =>
    match s.runs[runId]? with
    | none => (.error (.runNotFound runId), s)
    | some run =>
      match s.recoverSteps runId now clock run.workflow.steps expired with
      | (.error error, s) => (.error error, s)
      | (.ok expired, s) => recoverRuns s now clock rest expired

/-- Releases every lease that has run out and decides each step's next state. -/
def recoverExpired (s : Repository) (clock : Clock) :
    Except RepositoryError (List (RunId × StepId)) × Repository :=
  s.recoverRuns (clock.call 0) clock s.runs.keys []

/-- The logged events after a sequence number. -/
def eventsSince (s : Repository) (runId : RunId) (sequence : UInt64) :
    Except RepositoryError (List EventEnvelope) :=
  match s.runs[runId]? with
  | none => .error (.runNotFound runId)
  | some run => .ok (run.eventLog.filter fun event => decide (sequence < event.sequence))

end Repository

end Orchestrator
