import Orchestrator.Foundation.Saturating
import Orchestrator.Foundation.Binary64
import Orchestrator.Foundation.OrderedMap
import Orchestrator.Model.Ids
import Orchestrator.Model.Policy
import Orchestrator.Foundation.Json
import Orchestrator.Foundation.Kahn
import Orchestrator.Model.Evaluation
import Orchestrator.Model.Workflow
import Orchestrator.Model.Record
import Orchestrator.Model.Transition
import Orchestrator.Model.Repository
import Orchestrator.Foundation.Machine
import Orchestrator.Repository.Operation
import Orchestrator.Repository.Effect
import Orchestrator.Repository.Invariant
import Orchestrator.Repository.Sound
import Orchestrator.Repository.History
import Orchestrator.Repository.Terminal
import Orchestrator.Repository.Lease
import Orchestrator.Repository.LateWork
import Orchestrator.Model.Runtime
import Orchestrator.Repository.Gates
import Orchestrator.Model.Topology
import Orchestrator.Repository.Inputs
import Orchestrator.Repository.Budget
import Orchestrator.Repository.Saturation
import Orchestrator.Repository.Progress
import Orchestrator.Model.Durable
import Orchestrator.Executor.Attempts
import Orchestrator.Executor.Memory
import Orchestrator.Executor.Cycle
import Orchestrator.Executor.Round
import Orchestrator.Executor.Agreement
import Orchestrator.Repository.Cancel
import Orchestrator.Repository.Revision
import Orchestrator.Model.Snapshot
import Orchestrator.Store.Operation
import Orchestrator.Foundation.Index
import Orchestrator.Store.Idempotency
import Orchestrator.Repository.Log
import Orchestrator.Store.Identity
import Orchestrator.Executor.Termination
import Orchestrator.Executor.Schedule
import Orchestrator.Executor.Completion
import Orchestrator.Executor.Verdict
import Orchestrator.Executor.Confluence
import Orchestrator.Foundation.Serde
import Orchestrator.Model.Payload
import Orchestrator.Postgres.Readable
import Orchestrator.Model.Postgres
import Orchestrator.Postgres.Operation
import Orchestrator.Postgres.Log
import Orchestrator.Postgres.Persistence
import Orchestrator.Postgres.Discovery
import Orchestrator.Foundation.Cursor
import Orchestrator.Repository.Stream
import Orchestrator.Postgres.Stream
import Orchestrator.Foundation.Acyclic
import Orchestrator.Foundation.KahnWrapping
import Orchestrator.Model.Validation
import Orchestrator.Executor.Retries
import Orchestrator.Executor.Counted
import Orchestrator.Executor.Worker
import Orchestrator.Repository.Sweep
import Orchestrator.Executor.Expiry
import Orchestrator.Repository.Accounted
import Orchestrator.Repository.Recorded
import Orchestrator.Repository.Declared
import Orchestrator.Model.PostgresSnapshot
import Orchestrator.Store.Revision
import Orchestrator.Repository.Settled
import Orchestrator.Executor.Polling
import Orchestrator.Executor.Settling
import Orchestrator.Model.Backoff
import Orchestrator.Model.Registry
import Orchestrator.Model.Cache
import Orchestrator.Executor.Manifest
import Orchestrator.Repository.Policy
import Orchestrator.Repository.Ledger
import Orchestrator.Executor.Batch
import Orchestrator.Postgres.Columns
import Orchestrator.Postgres.Steady
import Orchestrator.Postgres.Sweep
import Orchestrator.Postgres.Guard
import Orchestrator.Postgres.Recovery
import Orchestrator.Refinement.Mirroring
import Orchestrator.Foundation.Transaction
import Orchestrator.Foundation.Locking
import Orchestrator.Foundation.Interleaving
import Orchestrator.Foundation.Alone
import Orchestrator.Postgres.Session
import Orchestrator.Postgres.Replay
import Orchestrator.Postgres.Alone
import Orchestrator.Postgres.Serial
import Orchestrator.Postgres.Fencing
import Orchestrator.Foundation.Client
import Orchestrator.Model.Drive
import Orchestrator.Executor.Drive
import Orchestrator.Executor.Failing
import Orchestrator.Executor.Waiting
import Orchestrator.Repository.Projection
import Orchestrator.Foundation.Leasing
import Orchestrator.Repository.Leasing
import Orchestrator.Repository.Pacing
import Orchestrator.Refinement.Observation
