import Mathlib.Data.List.Sort
import Orchestrator.Model.Payload
import Orchestrator.Model.Repository

/-!
# The PostgreSQL repository

A run is one row of the table `orchestrator_runs`, which holds its record as a
JSON payload next to the columns that queries look at. A transition locks the
row, decodes the payload, changes the record and writes it back in one
transaction; an error rolls the transaction back, so that the table is as before.
Transitions of one row do not overlap, and queries of the database do not fail.

A row keeps its payload as the JSON value that was bound. What a fetch gives for it is a
parameter of the store, since PostgreSQL keeps the value in a form of its own.
-/

namespace Orchestrator

open Json (Value toValue fromValue)

/-- The text of a failed integer conversion. -/
def tryFromIntError : String := "out of range integral type conversion attempted"

/-- `i64::try_from`. -/
def toI64 (n : UInt64) : Except RepositoryError Int64 :=
  if n.toNat < 2 ^ 63 then .ok n.toInt64 else .error (.storage tryFromIntError)

/-- `u64::try_from`. -/
def toU64 (n : Int64) : Except RepositoryError UInt64 :=
  if 0 ≤ n then .ok n.toUInt64 else .error (.storage tryFromIntError)

/-- A row of the table `orchestrator_runs`; `updated_at` is a time stamp. -/
structure Row where
  revision : Int64
  payload : Value
  idempotencyKey : Option IdempotencyKey
  leaseExpiresAtMs : Option Int64
  updatedAt : Int

/-- The table, by its primary key. -/
abbrev Table : Type := BTreeMap RunId Row

/-- What one call reads from the clock of the database, next to the readings of the
clock of the process: the time, which a scan over candidates reads anew for each of
them, and the start of the transaction. -/
structure PgClock where
  now : Int64
  candidate : RunId → Int64
  transaction : Int

/-- `RECOVERY_BATCH_SIZE`. -/
def recoveryBatchSize : Nat := 100

namespace RunRecord

/-- The earliest time at which a lease of the run expires. -/
def leaseExpiryMs (run : RunRecord) : Except RepositoryError (Option Int64) :=
  match (run.steps.toList.filterMap fun entry => entry.2.lease.map StepLease.expiresAtMs).min? with
  | some expiry => (toI64 expiry).map some
  | none => .ok none

/-- One more than the largest token in the attempts of the run. -/
def nextLeaseToken (run : RunRecord) : UInt64 :=
  ((run.steps.toList.flatMap fun entry : StepId × StepRecord =>
    entry.2.history.map StepAttempt.leaseToken).max?.getD 0).saturatingAdd 1

/-- `append_run_event`: the sequence follows that of the last event of the run. -/
def appendRunEvent (run : RunRecord) (event : ExecutionEvent) (now : UInt64) :
    Except RepositoryError (EventEnvelope × RunRecord) :=
  if !eventBelongsToRun event run.runId then .error (.invalidEvent run.runId)
  else
    let sequence := (run.eventLog.getLast?.elim 0 EventEnvelope.sequence).saturatingAdd 1
    let envelope := eventEnvelope run.runId sequence event now
    .ok (envelope, run.pushEvent event envelope)

end RunRecord

/-- The store: the text of the error for a value that the JSON library cannot read as
a run record, what a fetch of the column `payload` gives for a value that was bound to it,
and the order of texts under the collation of the database. -/
structure PostgresRunStore where
  jsonError : Value → String
  /-- A fetch fails with a text where the JSON library cannot parse what the column makes
  of the value, as for numbers that are too large and values that are nested too deep. -/
  fetch : Value → Except String Value
  /-- Where a fetch succeeds it gives the value that was bound. -/
  verbatim : ∀ {bound fetched : Value}, fetch bound = .ok fetched → fetched = bound
  collate : String → String → Bool

/-! What a transition makes of the record it has locked: an answer, and the record to
write back if there is one. -/

namespace Locked

variable (run : RunRecord)

/-- Leases the first step of the run that the worker may execute now. -/
def claimNextStep (runId : RunId) (worker : WorkerProfile) (leaseMs : UInt64) (db : PgClock) :
    Except RepositoryError (Option StepClaim × Option RunRecord) :=
  if run.status ≠ .running then .ok (none, none)
  else do
    let now ← toU64 db.now
    match run.workflow.steps.findSome? (claimCandidate run worker now) with
    | none => .ok (none, none)
    | some (step, taskId, dependencies) =>
      match run.manifest.tasks[taskId]? with
      | none => .error (.conflict runId)
      | some task =>
        let token := run.nextLeaseToken
        let record := { ((run.steps[step.id]?).getD (.new step.id taskId)).claim runId taskId
          worker.id token now leaseMs with nextAttemptAtMs := none }
        let claim : StepClaim :=
          { runId, workflowId := run.workflow.id, step, task
            input := buildStepInput run.input dependencies, worker := worker.id
            leaseToken := token, attempt := record.attempts, fallbackUsed := record.fallbackUsed }
        .ok (some claim, some (run.setStep step.id record).bump)

/-- Extends a live lease. -/
def renewStep (claim : StepClaim) (leaseMs : UInt64) (db : PgClock) :
    Except RepositoryError (Unit × Option RunRecord) := do
  let now ← toU64 db.now
  match run.steps[claim.step.id]? with
  | none => .error (.leaseLost claim.runId claim.step.id)
  | some record =>
    match record.lease with
    | none => .error (.leaseLost claim.runId claim.step.id)
    | some lease =>
      if !lease.validFor claim now then .error (.leaseLost claim.runId claim.step.id)
      else
        let lease := { lease with expiresAtMs := now.saturatingAdd (max leaseMs 1) }
        .ok ((), some (run.setStep claim.step.id { record with lease := some lease }).bump)

/-- Commits the outcome of a leased attempt and its event. -/
def completeStep (claim : StepClaim) (completion : StepCompletion) (clock : Clock)
    (db : PgClock) : Except RepositoryError (RunRecord × Option RunRecord) := do
  let now ← toU64 db.now
  match run.steps[claim.step.id]? with
  | none => .error (.leaseLost claim.runId claim.step.id)
  | some record =>
    if !record.lease.any (fun lease => lease.validFor claim now) then
      .error (.leaseLost claim.runId claim.step.id)
    else if !completionMatchesClaim completion claim run.manifest then
      .error (.invalidCompletion claim.runId claim.step.id)
    else
      let record := record.complete completion now now
      (((run.setStep claim.step.id record).noteFailure record).bump.appendRunEvent
        completion.event (clock.call 0)).map fun (_, run) => (run, some run)

/-- Records an event that describes the run as it stands. -/
def recordEvent (runId : RunId) (event : ExecutionEvent) (clock : Clock) :
    Except RepositoryError (EventEnvelope × Option RunRecord) :=
  if !eventBelongsToRun event runId || !eventIsValidForRecord run event then
    .error (.invalidEvent runId)
  else
    (run.appendRunEvent event (clock.call 0)).map fun (envelope, run) => (envelope, some run)

/-- The metrics of the request or the gate decisions on them are others than the run's. -/
def metricsChanged (metrics : List Metric) : Bool :=
  run.metrics != metrics ||
    run.gateDecisions.toList != (evaluateGates run.manifest.evaluationGates metrics).toList

/-- Stores the metrics and, where the steps are settled, ends the run; nothing is
written where neither the status nor the metrics change. -/
def finishRun (runId : RunId) (metrics : List Metric) (clock : Clock) :
    Except RepositoryError (RunRecord × Option RunRecord) :=
  let changed := metricsChanged run metrics
  let previous := run.status
  let run := run.setMetrics metrics
  let run := if run.hasFailed || run.allSucceeded then run.settle else run
  if previous = run.status ∧ changed = false then .ok (run, none)
  else if previous ≠ run.status then
    (run.bump.appendRunEvent (.runFinished runId run.status) (clock.call 0)).map
      fun (_, run) => (run, some run)
  else .ok (run.bump, some run.bump)

/-- Cancels a run that has not ended, with all its unsettled steps. -/
def cancelRun (runId : RunId) (clock : Clock) (db : PgClock) :
    Except RepositoryError (RunRecord × Option RunRecord) := do
  let now ← toU64 db.now
  if run.status.isTerminal then .ok (run, none)
  else
    ((run.cancelSteps fun _ => now).bump.appendRunEvent (.runFinished runId .cancelled)
      (clock.call 0)).map fun (_, run) => (run, some run)

/-- The run after one step whose lease has run out at `now` was recovered. -/
def recoverStep (now : UInt64) (clock : Clock) (step : StepSpec) :
    Except RepositoryError (Option RunRecord) :=
  match run.steps[step.id]? >>= fun record => recoverExpiredStep run.runId step record now with
  | none => .ok none
  | some (record, event) =>
    (((run.setStep step.id record).noteRecovery record).appendRunEvent event
      (clock.step run.runId step.id)).map fun (_, run) => some run

/-- The listed steps one after the other; the result lists the recovered ones. -/
def recoverSteps (now : UInt64) (clock : Clock) : RunRecord → List StepSpec →
    List (RunId × StepId) → Except RepositoryError (RunRecord × List (RunId × StepId))
  | run, [], expired => .ok (run, expired)
  | run, step :: rest, expired =>
    match recoverStep run now clock step with
    | .error error => .error error
    | .ok none => recoverSteps now clock run rest expired
    | .ok (some run) => recoverSteps now clock run rest (expired ++ [(run.runId, step.id)])

/-- The steps of the run's workflow; nothing is written where none was recovered. -/
def recoverExpired (now : UInt64) (clock : Clock) :
    Except RepositoryError (List (RunId × StepId) × Option RunRecord) :=
  (recoverSteps now clock run run.workflow.steps []).map fun (run, expired) =>
    (expired, if expired.isEmpty then none else some run.bump)

end Locked

namespace PostgresRunStore

variable (store : PostgresRunStore)

/-- `decode_payload`. -/
def decodePayload (payload : Value) : Except RepositoryError RunRecord :=
  match (fromValue payload : Option RunRecord) with
  | none => .error (.storage (store.jsonError payload))
  | some run =>
    match validateRunRecordSchema run with
    | .error message => .error (.storage message)
    | .ok () => .ok run

/-- `decode_payload` on the fetched column of a row. -/
def readPayload (bound : Value) : Except RepositoryError RunRecord :=
  match store.fetch bound with
  | .error text => .error (.storage text)
  | .ok payload => store.decodePayload payload

/-- `load_locked`. -/
def loadLocked (s : Table) (runId : RunId) : Except RepositoryError (Option RunRecord) :=
  match s[runId]? with
  | none => .ok none
  | some row => (store.readPayload row.payload).map some

/-- `persist_locked`: the row of the run is written unless its revision is as high. -/
def persistLocked (s : Table) (run : RunRecord) (transaction : Int) :
    Except RepositoryError Table := do
  let revision ← toI64 run.revision
  let leaseExpiresAtMs ← run.leaseExpiryMs
  match s[run.runId]? with
  | none => .error (.conflict run.runId)
  | some row =>
    if row.revision < revision then
      .ok (s.insert run.runId
        { revision, payload := toValue run, idempotencyKey := run.idempotencyKey
          leaseExpiresAtMs, updatedAt := transaction })
    else .error (.conflict run.runId)

/-- A transition of one row, from its lock to its commit or its rollback. -/
def transition {α : Type} (s : Table) (runId : RunId) (db : PgClock)
    (act : RunRecord → Except RepositoryError (α × Option RunRecord)) :
    Except RepositoryError α × Table :=
  match store.loadLocked s runId with
  | .error error => (.error error, s)
  | .ok none => (.error (.runNotFound runId), s)
  | .ok (some run) =>
    match act run with
    | .error error => (.error error, s)
    | .ok (answer, none) => (.ok answer, s)
    | .ok (answer, some run) =>
      match persistLocked s run db.transaction with
      | .error error => (.error error, s)
      | .ok s => (.ok answer, s)

def claimNextStep (s : Table) (runId : RunId) (worker : WorkerProfile) (leaseMs : UInt64)
    (db : PgClock) : Except RepositoryError (Option StepClaim) × Table :=
  store.transition s runId db fun run => Locked.claimNextStep run runId worker leaseMs db

def renewStep (s : Table) (claim : StepClaim) (leaseMs : UInt64) (db : PgClock) :
    Except RepositoryError Unit × Table :=
  store.transition s claim.runId db fun run => Locked.renewStep run claim leaseMs db

def completeStep (s : Table) (claim : StepClaim) (completion : StepCompletion) (clock : Clock)
    (db : PgClock) : Except RepositoryError RunRecord × Table :=
  store.transition s claim.runId db fun run => Locked.completeStep run claim completion clock db

def recordEvent (s : Table) (runId : RunId) (event : ExecutionEvent) (clock : Clock)
    (db : PgClock) : Except RepositoryError EventEnvelope × Table :=
  store.transition s runId db fun run => Locked.recordEvent run runId event clock

def finishRun (s : Table) (runId : RunId) (metrics : List Metric) (clock : Clock)
    (db : PgClock) : Except RepositoryError RunRecord × Table :=
  store.transition s runId db fun run => Locked.finishRun run runId metrics clock

def cancelRun (s : Table) (runId : RunId) (clock : Clock) (db : PgClock) :
    Except RepositoryError RunRecord × Table :=
  store.transition s runId db fun run => Locked.cancelRun run runId clock db

/-- The row under an idempotency key, which the table holds at most once. -/
def findKey (s : Table) (key : IdempotencyKey) : Option Row :=
  (s.toList.find? fun entry => entry.2.idempotencyKey == some key).map Prod.snd

/-- The answer to a request whose key is in use. -/
def answerExisting (request : RunRequest) (row : Row) : Except RepositoryError RunRecord := do
  let existing ← store.readPayload row.payload
  if existing.workflow == request.workflow && existing.manifest == request.manifest &&
      existing.input == request.input then
    .ok existing
  else .error (.idempotencyConflict existing.runId)

/-- `INSERT ... ON CONFLICT DO NOTHING`, with the primary key and the key's index. -/
def insertRow (s : Table) (runId : RunId) (row : Row) : Option Table :=
  if s.contains runId || (row.idempotencyKey >>= findKey s).isSome then none
  else some (s.insert runId row)

/-- Creates a run and logs its start. The result is absent where validation of
the request panics. -/
def createRun (s : Table) (request : RunRequest) (clock : Clock) (db : PgClock) :
    Option (Except RepositoryError RunRecord) × Table :=
  match validateRunRequest request with
  | none => (none, s)
  | some (.error error) => (some (.error error), s)
  | some (.ok ()) =>
    match request.idempotencyKey >>= findKey s with
    | some row => (some (store.answerExisting request row), s)
    | none =>
      match store.loadLocked s request.runId with
      | .error error => (some (.error error), s)
      | .ok (some _) => (some (.error (.conflict request.runId)), s)
      | .ok none =>
        let run := { RunRecord.new request.runId request.workflow request.manifest request.input
            (clock.call 0) with
          status := .running, idempotencyKey := request.idempotencyKey }
        match run.appendRunEvent (.runStarted run.runId run.workflow.id) (clock.call 1),
            run.leaseExpiryMs with
        | .error error, _ | .ok _, .error error => (some (.error error), s)
        | .ok (_, run), .ok leaseExpiresAtMs =>
          match toI64 run.revision with
          | .error error => (some (.error error), s)
          | .ok revision =>
            match insertRow s run.runId
                { revision, payload := toValue run, idempotencyKey := run.idempotencyKey
                  leaseExpiresAtMs, updatedAt := db.transaction } with
            | some s => (some (.ok run), s)
            | none =>
              match run.idempotencyKey >>= findKey s with
              | some row => (some (store.answerExisting request row), s)
              | none => (some (.error (.conflict run.runId)), s)

/-- `ORDER BY time, run_id`. -/
def orderBy (time : Row → Int) (a b : RunId × Row) : Prop :=
  time a.2 < time b.2 ∨ time a.2 = time b.2 ∧ store.collate a.1.value b.1.value

instance (time : Row → Int) : DecidableRel (store.orderBy time) := fun _ _ =>
  inferInstanceAs (Decidable (_ ∨ _))

/-- The rows with an expired lease, the earliest first, of which the query returns the
first hundred. -/
def expiredRows (s : Table) (now : Int64) : List (RunId × Row) :=
  ((s.toList.filter fun entry : RunId × Row =>
      entry.2.leaseExpiresAtMs.any fun expiry => decide (expiry ≤ now)).insertionSort
    (store.orderBy fun row => (row.leaseExpiresAtMs.getD 0).toInt)).take recoveryBatchSize

/-- The fetched payloads, one after the other. -/
def recoverRows (now : UInt64) (clock : Clock) (db : PgClock) :
    Table → List Value → List (RunId × StepId) →
      Except RepositoryError (List (RunId × StepId) × Table)
  | s, [], expired => .ok (expired, s)
  | s, payload :: rest, expired => do
    let run ← store.readPayload payload
    match ← Locked.recoverExpired run now clock with
    | (more, none) => recoverRows now clock db s rest (expired ++ more)
    | (more, some run) =>
      recoverRows now clock db (← persistLocked s run db.transaction) rest (expired ++ more)

/-- Releases leases that have run out and decides each step's next state. -/
def recoverExpired (s : Table) (clock : Clock) (db : PgClock) :
    Except RepositoryError (List (RunId × StepId)) × Table :=
  match (do
    let now ← toU64 db.now
    let limit ← toI64 now
    store.recoverRows now clock db s
      ((store.expiredRows s limit).map fun entry : RunId × Row => entry.2.payload) []) with
  | .error error => (.error error, s)
  | .ok (expired, s) => (.ok expired, s)

/-- The text under a field of a payload: `payload->>'field'`, for a string. -/
def fieldText (payload : Value) (name : String) : Option String :=
  match payload.entries >>= fun entries => entries.lookup name with
  | some (.string text) => some text
  | _ => none

/-- The running rows, those that were written longest ago first. -/
def runningRows (s : Table) : List (RunId × Row) :=
  (s.toList.filter fun entry : RunId × Row =>
      fieldText entry.2.payload "status" == some "Running").insertionSort
    (store.orderBy Row.updatedAt)

/-- Tries the listed runs in order, each in a transaction of its own. -/
def claimFrom (worker : WorkerProfile) (leaseMs : UInt64) (db : PgClock) (s : Table) :
    List RunId → Except RepositoryError (Option StepClaim) × Table
  | [] => (.ok none, s)
  | runId :: rest =>
    match (Id.new runId.value : Except IdentifierError RunId) with
    | .error error => (.error (.invalidRequest s!"{error.kind} cannot be empty"), s)
    | .ok runId =>
      match store.claimNextStep s runId worker leaseMs { db with now := db.candidate runId } with
      | (.ok none, s) => claimFrom worker leaseMs db s rest
      | (result, s) => (result, s)

/-- Finds and claims one runnable step across the running rows, of which the query
returns the first hundred. -/
def claimNextRunnableStep (s : Table) (worker : WorkerProfile) (leaseMs : UInt64)
    (db : PgClock) : Except RepositoryError (Option StepClaim) × Table :=
  store.claimFrom worker leaseMs db s (((store.runningRows s).take recoveryBatchSize).map Prod.fst)

/-- `load_run`. -/
def loadRun (s : Table) (runId : RunId) : Except RepositoryError (Option RunRecord) :=
  match s[runId]? with
  | none => .ok none
  | some row =>
    match store.fetch row.payload with
    | .error text => .error (.storage s!"invalid run payload: {text}")
    | .ok payload =>
      match (fromValue payload : Option RunRecord) with
      | none => .error (.storage s!"invalid run JSON: {store.jsonError payload}")
      | some run =>
        match validateRunRecordSchema run with
        | .error message => .error (.storage message)
        | .ok () => .ok (some run)

/-- The logged events after a sequence number. -/
def eventsSince (s : Table) (runId : RunId) (sequence : UInt64) :
    Except RepositoryError (List EventEnvelope) := do
  match ← store.loadRun s runId with
  | none => .error (.runNotFound runId)
  | some run => .ok (run.eventLog.filter fun event => decide (sequence < event.sequence))

end PostgresRunStore

end Orchestrator
