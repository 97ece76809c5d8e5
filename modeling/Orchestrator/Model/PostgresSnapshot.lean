import Orchestrator.Model.Postgres
import Orchestrator.Model.Snapshot

/-!
# Snapshots of the PostgreSQL store

`save` is one statement that inserts the row of the run or, where the table has one,
updates it if its revision is lower. Under the index of idempotency keys the statement
fails where the key is that of another row.
-/

namespace Orchestrator

namespace PostgresRunStore

/-- What the driver reports of a violation of the index of idempotency keys. -/
def duplicateKeyError : String :=
  "error returned from database: duplicate key value violates unique constraint " ++
    "\"orchestrator_runs_idempotency_idx\""

/-- The row of another run has the idempotency key of the record. -/
def keyTaken (s : Table) (run : RunRecord) : Bool :=
  run.idempotencyKey.any fun key =>
    s.toList.any fun entry : RunId × Row =>
      entry.1 != run.runId && entry.2.idempotencyKey == some key

/-- `INSERT ... ON CONFLICT (run_id) DO UPDATE ... WHERE` the revision of the row is lower. -/
def upsertRow (s : Table) (run : RunRecord) (row : Row) : Except AdapterError Unit × Table :=
  if s[run.runId]?.any fun stored => !decide (stored.revision < row.revision) then
    (.error ⟨"postgres", "stale run revision rejected"⟩, s)
  else if keyTaken s run then (.error ⟨"postgres", duplicateKeyError⟩, s)
  else (.ok (), s.insert run.runId row)

/-- `RunStore::save`. -/
def save (s : Table) (run : RunRecord) (transaction : Int) : Except AdapterError Unit × Table :=
  match validateRunRecordSchema run with
  | .error message => (.error ⟨"postgres", message⟩, s)
  | .ok () =>
    match toI64 run.revision, run.leaseExpiryMs with
    | .error _, _ =>
      (.error ⟨"postgres", s!"run revision is too large: {tryFromIntError}"⟩, s)
    | .ok _, .error _ =>
      (.error ⟨"postgres", s!"lease expiry is too large: {tryFromIntError}"⟩, s)
    | .ok revision, .ok leaseExpiresAtMs =>
      upsertRow s run
        { revision, payload := Json.toValue run, idempotencyKey := run.idempotencyKey
          leaseExpiresAtMs, updatedAt := transaction }

end PostgresRunStore

end Orchestrator
