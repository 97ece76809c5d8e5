import Orchestrator.Model.Repository
import Orchestrator.Model.Task

/-!
# Snapshots of the in-memory store

`save` puts a run record into the store as it is given, with its idempotency key.
The counters are raised to the identities that the record holds, so that none of
them is given out again.
-/

namespace Orchestrator

namespace RunRecord

/-- The lease tokens in the histories and leases of the record. -/
def leaseTokens (run : RunRecord) : List UInt64 :=
  run.steps.toList.flatMap fun entry =>
    entry.2.history.map StepAttempt.leaseToken ++ entry.2.lease.toList.map StepLease.token

/-- The sequences in the log of the record. -/
def sequences (run : RunRecord) : List UInt64 := run.eventLog.map EventEnvelope.sequence

end RunRecord

namespace Repository

/-- `RunStore::save`. -/
def save (s : Repository) (run : RunRecord) : Except AdapterError Unit × Repository :=
  match validateRunRecordSchema run with
  | .error message => (.error ⟨"memory", message⟩, s)
  | .ok () =>
    if (run.idempotencyKey >>= fun key => s.idempotency[key]?).any (fun id => id != run.runId) then
      (.error ⟨"memory", "snapshot idempotency key belongs to another run"⟩, s)
    else
      let idempotency :=
        match s.runs[run.runId]? >>= RunRecord.idempotencyKey with
        | some previous => s.idempotency.erase previous
        | none => s.idempotency
      let idempotency :=
        match run.idempotencyKey with
        | some key => idempotency.insert key run.runId
        | none => idempotency
      (.ok (),
        { s with
          idempotency
          nextLeaseToken := max s.nextLeaseToken (run.leaseTokens.max?.getD 0)
          nextEventSequence := max s.nextEventSequence (run.sequences.max?.getD 0)
          runs := s.runs.insert run.runId run })

end Repository

end Orchestrator
