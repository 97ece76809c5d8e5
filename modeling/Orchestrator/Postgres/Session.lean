import Orchestrator.Foundation.Interleaving
import Orchestrator.Postgres.Steady

/-!
# The statements of the PostgreSQL repository

Each call of the repository as the transaction that it runs, statement by statement. The
functions of the model on tables take a transaction as one step; here other sessions may
come between its statements, and the connection may be lost there.
-/

namespace Orchestrator

open Json (Value toValue)

namespace PostgresRunStore

variable (store : PostgresRunStore)

/-- A transaction with the response of its call. -/
abbrev Program : Type := Transaction RunId Row Response

/-- `WHERE run_id = $1`. -/
def hasId (runId : RunId) (k : RunId) (_ : Row) : Bool := k == runId

/-- `WHERE idempotency_key = $1`. -/
def hasKey (key : IdempotencyKey) (_ : RunId) (row : Row) : Bool := row.idempotencyKey == some key

/-- `persist_locked`. -/
def persist (run : RunRecord) (transaction : Int)
    (next : Except RepositoryError Unit → Program) : Program :=
  match toI64 run.revision, run.leaseExpiryMs with
  | .error error, _ | .ok _, .error error => next (.error error)
  | .ok revision, .ok leaseExpiresAtMs =>
    .update run.runId (fun row => decide (row.revision < revision))
      { revision, payload := toValue run, idempotencyKey := run.idempotencyKey
        leaseExpiresAtMs, updatedAt := transaction }
      fun written => next (if written then .ok () else .error (.conflict run.runId))

/-- The end of a transaction whose record is written. -/
def conclude {α : Type} (respond : Except RepositoryError α → Response) (answer : α) :
    Except RepositoryError Unit → Program
  | .error error => .rollback (respond (.error error))
  | .ok () => .commit (respond (.ok answer))

/-- A transition once its row is locked. -/
def transitionLocked {α : Type} (db : PgClock) (respond : Except RepositoryError α → Response)
    (act : RunRecord → Except RepositoryError (α × Option RunRecord)) (row : Row) : Program :=
  match store.readPayload row.payload with
  | .error error => .rollback (respond (.error error))
  | .ok run =>
    match act run with
    | .error error => .rollback (respond (.error error))
    | .ok (answer, none) => .commit (respond (.ok answer))
    | .ok (answer, some run) => persist run db.transaction (conclude respond answer)

/-- A transition of one row. -/
def transitionProgram {α : Type} (runId : RunId) (db : PgClock)
    (respond : Except RepositoryError α → Response)
    (act : RunRecord → Except RepositoryError (α × Option RunRecord)) : Program :=
  .lock (hasId runId) fun
    | none => .rollback (respond (.error (.runNotFound runId)))
    | some (_, row) => store.transitionLocked db respond act row

/-- The response to a request whose key is in use. -/
def existingProgram (request : RunRequest) (row : Row) : Program :=
  match store.answerExisting request row with
  | .error error => .rollback (.created (some (.error error)))
  | .ok run => .commit (.created (some (.ok run)))

/-- The end of a creation whose row clashed with another one. -/
def clashProgram (request : RunRequest) : Program :=
  match request.idempotencyKey with
  | none => .rollback (.created (some (.error (.conflict request.runId))))
  | some key =>
    .lock (hasKey key) fun
      | none => .rollback (.created (some (.error (.conflict request.runId))))
      | some (_, row) => store.existingProgram request row

/-- A creation once neither its key nor its run was found. -/
def insertProgram (request : RunRequest) (clock : Clock) (db : PgClock) : Program :=
  let run := { RunRecord.new request.runId request.workflow request.manifest request.input
      (clock.call 0) with
    status := .running, idempotencyKey := request.idempotencyKey }
  match run.appendRunEvent (.runStarted run.runId run.workflow.id) (clock.call 1),
      run.leaseExpiryMs with
  | .error error, _ | .ok _, .error error => .rollback (.created (some (.error error)))
  | .ok (_, run), .ok leaseExpiresAtMs =>
    match toI64 run.revision with
    | .error error => .rollback (.created (some (.error error)))
    | .ok revision =>
      .insert run.runId
        { revision, payload := toValue run, idempotencyKey := run.idempotencyKey
          leaseExpiresAtMs, updatedAt := db.transaction }
        fun
          | true => .commit (.created (some (.ok run)))
          | false => store.clashProgram request

/-- A creation once its key was not found. -/
def createUnkeyed (request : RunRequest) (clock : Clock) (db : PgClock) : Program :=
  .lock (hasId request.runId) fun
    | none => store.insertProgram request clock db
    | some (_, row) =>
      match store.readPayload row.payload with
      | .error error => .rollback (.created (some (.error error)))
      | .ok _ => .rollback (.created (some (.error (.conflict request.runId))))

/-- `create_run`; a request that is not valid starts no transaction. -/
def createProgram (request : RunRequest) (clock : Clock) (db : PgClock) : Program :=
  match validateRunRequest request with
  | none => .rollback (.created none)
  | some (.error error) => .rollback (.created (some (.error error)))
  | some (.ok ()) =>
    match request.idempotencyKey with
    | none => store.createUnkeyed request clock db
    | some key =>
      .lock (hasKey key) fun
        | none => store.createUnkeyed request clock db
        | some (_, row) => store.existingProgram request row

/-- The first hundred of the listed rows whose leases have expired. -/
def expiredAmong (limit : Int64) (rows : List (RunId × Row)) : List (RunId × Row) :=
  ((rows.filter fun entry : RunId × Row =>
      entry.2.leaseExpiresAtMs.any fun expiry => decide (expiry ≤ limit)).insertionSort
    (store.orderBy fun row => (row.leaseExpiresAtMs.getD 0).toInt)).take recoveryBatchSize

theorem mem_expiredAmong {limit : Int64} {rows : List (RunId × Row)} {entry : RunId × Row}
    (member : entry ∈ store.expiredAmong limit rows) : entry ∈ rows ∧
      entry.2.leaseExpiresAtMs.any (fun expiry => decide (expiry ≤ limit)) = true := by
  have listed := List.mem_of_mem_take member
  rwa [List.mem_insertionSort, List.mem_filter] at listed

/-- The fetched payloads, one after the other. -/
def recoverRowsProgram (now : UInt64) (clock : Clock) (db : PgClock) :
    List Value → List (RunId × StepId) → Program
  | [], expired => .commit (.recovered (.ok expired))
  | payload :: rest, expired =>
    match store.readPayload payload with
    | .error error => .rollback (.recovered (.error error))
    | .ok run =>
      match Locked.recoverExpired run now clock with
      | .error error => .rollback (.recovered (.error error))
      | .ok (more, none) => recoverRowsProgram now clock db rest (expired ++ more)
      | .ok (more, some run) =>
        persist run db.transaction fun
          | .error error => .rollback (.recovered (.error error))
          | .ok () => recoverRowsProgram now clock db rest (expired ++ more)

/-- `recover_expired`. -/
def recoverProgram (clock : Clock) (db : PgClock) : Program :=
  match toU64 db.now with
  | .error error => .rollback (.recovered (.error error))
  | .ok now =>
    match toI64 now with
    | .error error => .rollback (.recovered (.error error))
    | .ok limit =>
      .lockFree (store.expiredAmong limit) (fun _ _ member => (store.mem_expiredAmong member).1)
        fun rows =>
          store.recoverRowsProgram now clock db (rows.map fun entry => entry.2.payload) []

/-- The transaction of a call. -/
def program : PgOp → Program
  | (.createRun request clock, db) => store.createProgram request clock db
  | (.claimNextStep runId worker leaseMs _, db) =>
    store.transitionProgram runId db .claimed fun run =>
      Locked.claimNextStep run runId worker leaseMs db
  | (.renewStep claim leaseMs _, db) =>
    store.transitionProgram claim.runId db .renewed fun run =>
      Locked.renewStep run claim leaseMs db
  | (.completeStep claim completion clock, db) =>
    store.transitionProgram claim.runId db .completed fun run =>
      Locked.completeStep run claim completion clock db
  | (.recordEvent runId event clock, db) =>
    store.transitionProgram runId db .recorded fun run => Locked.recordEvent run runId event clock
  | (.finishRun runId metrics clock, db) =>
    store.transitionProgram runId db .finished fun run => Locked.finishRun run runId metrics clock
  | (.cancelRun runId clock, db) =>
    store.transitionProgram runId db .cancelled fun run => Locked.cancelRun run runId clock db
  | (.recoverExpired clock, db) => store.recoverProgram clock db

/-- The calls, with the unique index of idempotency keys. -/
def protocol : Protocol RunId Row IdempotencyKey PgOp Response :=
  ⟨store.program, Row.idempotencyKey⟩

end PostgresRunStore

/-- The database that sessions of the repository run their transactions on. -/
abbrev postgresSessions (store : PostgresRunStore) :
    Machine (Database RunId Row PgOp Response) (SessionEvent PgOp) (Option Response) :=
  database store.protocol

namespace Sample

/-- A session starts a call and goes on until it ends. -/
def calls (i : Nat) (op : Op) (now : Int64) (statements : Nat) : List (SessionEvent PgOp) :=
  .start i (op, database now) :: List.replicate statements (.proceed i)

/-- A run of two steps is created. -/
def opened : List (SessionEvent PgOp) :=
  calls 0 (.createRun (request [step "first" 2 false, step "second" 1 false] []) (.at 0)) 0 3

end Sample

end Orchestrator
