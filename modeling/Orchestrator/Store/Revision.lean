import Orchestrator.Model.PostgresSnapshot
import Orchestrator.Postgres.Columns
import Orchestrator.Postgres.Persistence
import Orchestrator.Repository.Revision
import Orchestrator.Store.Operation

/-!
# Snapshots and revisions

The PostgreSQL store refuses a snapshot unless its revision is greater than that of its
row. The in-memory store does not look at revisions: it puts an older snapshot in the
place of the stored record. So the two decide alike, and as the revision demands, exactly
on the snapshots with a greater revision.
-/

namespace Orchestrator

/-- The row holds the record, under its revision. -/
structure Row.Holds (row : Row) (run : RunRecord) : Prop where
  payload : row.payload = Json.toValue run
  revision : toI64 run.revision = .ok row.revision

/-- Both stores hold a record of the run, and a snapshot of the run is saved: its schema
versions are supported, its idempotency key is no other run's, and its numbers fit. -/
structure Saving (s : Repository) (t : Table) (stored run : RunRecord) : Prop where
  memory : s.runs[run.runId]? = some stored
  table : ∃ row, t[run.runId]? = some row ∧ row.Holds stored
  supported : run.Supported
  memoryKey : ∀ (key : IdempotencyKey) (id : RunId), run.idempotencyKey = some key →
    s.idempotency[key]? = some id → id = run.runId
  tableKey : ∀ (key : IdempotencyKey) (id : RunId) (row : Row), run.idempotencyKey = some key →
    t[id]? = some row → row.idempotencyKey = some key → id = run.runId
  revision : run.revision.toNat < 2 ^ 63
  leases : ∀ (id : StepId) (record : StepRecord) (lease : StepLease),
    run.steps[id]? = some record → record.lease = some lease → lease.expiresAtMs.toNat < 2 ^ 63

/-- Both stores accept the snapshot just if its revision is greater than the stored one,
and otherwise answer with an error and keep the stored record. -/
structure DecidedByRevision (s : Repository) (t : Table) (stored run : RunRecord)
    (transaction : Int) : Prop where
  alike : (s.save run).1 = .ok () ↔ (PostgresRunStore.save t run transaction).1 = .ok ()
  newer : (s.save run).1 = .ok () ↔ stored.revision < run.revision
  memoryKept : ¬ stored.revision < run.revision → (∃ error, (s.save run).1 = .error error) ∧
    (s.save run).2.runs[run.runId]? = some stored
  tableKept : ¬ stored.revision < run.revision →
    (∃ error, (PostgresRunStore.save t run transaction).1 = .error error) ∧
      (PostgresRunStore.save t run transaction).2[run.runId]? = t[run.runId]?

namespace Saving

variable {s : Repository} {t : Table} {stored run : RunRecord}

/-- The in-memory store accepts the snapshot whatever its revision. -/
theorem save_memory (saving : Saving s t stored run) :
    ∃ s', s.save run = (.ok (), s') ∧ s'.runs[run.runId]? = some run := by
  have free : ¬ (run.idempotencyKey >>= fun key => s.idempotency[key]?).any
      (fun id => id != run.runId) = true := by
    intro taken
    obtain ⟨id, held, other⟩ := (Option.any_eq_true _ _).mp taken
    obtain ⟨key, keyed, held⟩ := Option.bind_eq_some_iff.mp held
    exact bne_iff_ne.mp other (saving.memoryKey key id keyed held)
  simp only [Repository.save, validateRunRecordSchema_eq_ok.mpr saving.supported, if_neg free]
  exact ⟨_, rfl, Std.ExtTreeMap.getElem?_insert_self⟩

/-- No other row has the key of the snapshot. -/
theorem key_free (saving : Saving s t stored run) : PostgresRunStore.keyTaken t run = false := by
  rw [Bool.eq_false_iff]
  intro taken
  obtain ⟨key, keyed, used⟩ := (Option.any_eq_true _ _).mp taken
  obtain ⟨⟨id, row⟩, member, other⟩ := List.any_eq_true.mp used
  rw [Bool.and_eq_true, bne_iff_ne, beq_iff_eq] at other
  exact other.1 (saving.tableKey key id row keyed
    (Std.ExtTreeMap.mem_toList_iff_getElem?_eq_some.mp member) other.2)

/-- The PostgreSQL store accepts a greater revision and keeps its row otherwise. -/
theorem save_table (saving : Saving s t stored run) (transaction : Int) :
    (stored.revision < run.revision → ∃ t' row,
      PostgresRunStore.save t run transaction = (.ok (), t') ∧ t'[run.runId]? = some row ∧
        row.Holds run) ∧
    (¬ stored.revision < run.revision →
      PostgresRunStore.save t run transaction =
        (.error ⟨"postgres", "stale run revision rejected"⟩, t)) := by
  obtain ⟨row, found, holds⟩ := saving.table
  obtain ⟨expiry, expires⟩ := RunRecord.exists_leaseExpiryMs saving.leases
  have fits : toI64 run.revision = .ok run.revision.toInt64 :=
    toI64_eq_ok.mpr ⟨saving.revision, rfl⟩
  have saved := validateRunRecordSchema_eq_ok.mpr saving.supported
  have newer := lt_iff_of_toI64 holds.revision fits
  constructor
  · intro greater
    let row' : Row := { revision := run.revision.toInt64, payload := Json.toValue run
                        idempotencyKey := run.idempotencyKey, leaseExpiresAtMs := expiry
                        updatedAt := transaction }
    refine ⟨t.insert run.runId row', row', ?_, Std.ExtTreeMap.getElem?_insert_self, rfl, fits⟩
    simp only [PostgresRunStore.save, saved, fits, expires, PostgresRunStore.upsertRow, found,
      Option.any_some, newer.mpr greater, saving.key_free, decide_true, Bool.not_true,
      Bool.false_eq_true, if_false]
    rfl
  · intro stale
    simp only [PostgresRunStore.save, saved, fits, expires, PostgresRunStore.upsertRow, found,
      Option.any_some, newer, stale, decide_false, Bool.not_false, if_true]

end Saving

/-- The stores decide on a snapshot by its revision exactly when it is greater than the
stored one. -/
theorem saves_decided_iff {s : Repository} {t : Table} {stored run : RunRecord}
    (saving : Saving s t stored run) (transaction : Int) :
    DecidedByRevision s t stored run transaction ↔ stored.revision < run.revision := by
  obtain ⟨s', accepted, -⟩ := saving.save_memory
  constructor
  · intro decided
    exact decided.newer.mp (congrArg Prod.fst accepted)
  · intro greater
    obtain ⟨t', row, saved, -⟩ := (saving.save_table transaction).1 greater
    refine ⟨?_, ?_, fun stale => absurd greater stale, fun stale => absurd greater stale⟩
    · rw [accepted, saved]
    · rw [accepted]
      exact ⟨fun _ => greater, fun _ => rfl⟩

/-- The table with the record in a row. -/
def holding (run : RunRecord) : Table :=
  (∅ : Table).insert run.runId
    { revision := run.revision.toInt64, payload := Json.toValue run
      idempotencyKey := run.idempotencyKey, leaseExpiresAtMs := none, updatedAt := 0 }

/-- The record has supported versions, no key, and numbers that fit. -/
def RunRecord.plainSnapshot (run : RunRecord) : Bool :=
  (validateRunRecordSchema run).isOk && run.idempotencyKey.isNone &&
    decide (run.revision.toNat < 2 ^ 63) &&
    run.steps.toList.all fun entry : StepId × StepRecord =>
      entry.2.lease.all fun lease => decide (lease.expiresAtMs.toNat < 2 ^ 63)

/-- A record in both stores, and a snapshot of its run without a key. -/
theorem saving_holding {s : Repository} {stored run : RunRecord}
    (found : s.runs[run.runId]? = some stored) (own : stored.runId = run.runId)
    (fits : stored.revision.toNat < 2 ^ 63) (plain : run.plainSnapshot = true) :
    Saving s (holding stored) stored run := by
  simp only [RunRecord.plainSnapshot, Bool.and_eq_true, Option.isNone_iff_eq_none,
    decide_eq_true_eq, List.all_eq_true] at plain
  obtain ⟨⟨⟨supported, unkeyed⟩, revision⟩, leases⟩ := plain
  refine ⟨found, ?_, ?_, ?_, ?_, revision, ?_⟩
  · rw [holding, own]
    exact ⟨_, Std.ExtTreeMap.getElem?_insert_self, rfl, toI64_eq_ok.mpr ⟨fits, rfl⟩⟩
  · cases checked : validateRunRecordSchema run with
    | error message => rw [checked] at supported; cases supported
    | ok => exact validateRunRecordSchema_eq_ok.mp checked
  · intro key id keyed
    rw [unkeyed] at keyed
    cases keyed
  · intro key id row keyed
    rw [unkeyed] at keyed
    cases keyed
  · intro id record lease foundStep leased
    have checked := leases (id, record)
      (Std.ExtTreeMap.mem_toList_iff_getElem?_eq_some.mpr foundStep)
    rw [leased] at checked
    exact of_decide_eq_true checked

/-- A run is created, and then its step is claimed. -/
def startedRun : List Op :=
  [.createRun (Sample.request [Sample.step "only" 1 false] []) (.at 0), Sample.ask 0]

/-- The record of the run before and after the claim. -/
theorem startedRun_records : ∃ created claimed : RunRecord,
    (repository.after (startedRun.take 1)).runs[Sample.runId]? = some created ∧
      (repository.after startedRun).runs[Sample.runId]? = some claimed ∧
      created.runId = Sample.runId ∧ claimed.runId = Sample.runId ∧
      created.plainSnapshot = true ∧ claimed.plainSnapshot = true ∧
      created.revision = 1 ∧ claimed.revision = 2 := by
  have before : ((repository.after (startedRun.take 1)).runs[Sample.runId]?).map
      (fun run => (run.runId, run.plainSnapshot, run.revision)) = some (Sample.runId, true, 1) := by
    decide +kernel
  have after : ((repository.after startedRun).runs[Sample.runId]?).map
      (fun run => (run.runId, run.plainSnapshot, run.revision)) = some (Sample.runId, true, 2) := by
    decide +kernel
  obtain ⟨created, found, fields⟩ := Option.map_eq_some_iff.mp before
  obtain ⟨claimed, found', fields'⟩ := Option.map_eq_some_iff.mp after
  simp only [Prod.mk.injEq] at fields fields'
  exact ⟨created, claimed, found, found', fields.1, fields'.1, fields.2.1, fields'.2.1,
    fields.2.2, fields'.2.2⟩

/-- The record of the claimed run is saved over that of the created one. -/
theorem saves_decided_iff_claimed : ∃ stored run : RunRecord,
    Saving (repository.after (startedRun.take 1)) (holding stored) stored run ∧
      stored.revision < run.revision ∧
      DecidedByRevision (repository.after (startedRun.take 1)) (holding stored) stored run 0 := by
  obtain ⟨created, claimed, found, -, own, own', -, plain, revision, revision'⟩ :=
    startedRun_records
  have saving : Saving (repository.after (startedRun.take 1)) (holding created) created claimed :=
    saving_holding (own' ▸ found) (own.trans own'.symm) (by rw [revision]; decide) plain
  have newer : created.revision < claimed.revision := by
    rw [revision, revision']
    decide
  exact ⟨created, claimed, saving, newer, (saves_decided_iff saving 0).mpr newer⟩

/-- The in-memory store puts the record of the created run in the place of the claimed one. -/
theorem stale_snapshot_accepted : ∃ stored run : RunRecord,
    Saving (repository.after startedRun) (holding stored) stored run ∧
      run.revision < stored.revision ∧
      ((repository.after startedRun).save run).2.runs[run.runId]? = some run ∧
      ¬ DecidedByRevision (repository.after startedRun) (holding stored) stored run 0 := by
  obtain ⟨created, claimed, -, found, own, own', plain, -, revision, revision'⟩ :=
    startedRun_records
  have saving : Saving (repository.after startedRun) (holding claimed) claimed created :=
    saving_holding (own ▸ found) (own'.trans own.symm) (by rw [revision']; decide) plain
  have older : created.revision < claimed.revision := by
    rw [revision, revision']
    decide
  obtain ⟨s', accepted, replaced⟩ := saving.save_memory
  refine ⟨claimed, created, saving, older, by rw [accepted]; exact replaced, fun decided => ?_⟩
  have greater := decided.newer.mp (congrArg Prod.fst accepted)
  exact absurd (UInt64.lt_trans older greater) (UInt64.lt_irrefl _)

section Histories

/-- No step of a run lowers its revision. -/
theorem RunStep.revision_le {token : UInt64} {action : RunAction} {run run' : RunRecord}
    (h : RunStep token action run run') : run.revision ≤ run'.revision := by
  have raised : ∀ revision : UInt64, revision ≤ revision.saturatingAdd 1 := by
    intro revision
    rw [UInt64.le_iff_toNat_le]
    exact UInt64.le_saturatingAdd _ _
  cases h with
  | claim => exact raised _
  | renew => exact raised _
  | complete =>
      rw [RunRecord.logged_revision, RunRecord.commit_revision]
      exact UInt64.le_trans (raised _) (raised _)
  | record => exact raised _
  | measure => exact UInt64.le_refl _
  | settle metrics =>
      rw [RunRecord.settle_revision]
      exact UInt64.le_refl _
  | finish metrics =>
      rw [RunRecord.logged_revision, RunRecord.settle_revision]
      exact raised _
  | cancel => exact raised _
  | recover =>
      rw [RunRecord.logged_revision, RunRecord.noteRecovery_revision]
      exact raised _

/-- The run is stored, under this revision or a greater one. -/
def Repository.Reached (s : Repository) (k : RunId) (revision : UInt64) : Prop :=
  ∃ run, s.runs[k]? = some run ∧ revision ≤ run.revision

/-- A snapshot that replaces a stored record has at least its revision. -/
def SavesCurrent (s : Repository) : StoreOp → Prop
  | .save run => ∀ (stored : RunRecord), s.runs[run.runId]? = some stored →
    (s.save run).1 = .ok () → stored.revision ≤ run.revision
  | .call _ => True

/-- No stored run is ever replaced by a record of a lower revision. -/
def RevisionsKept (ops : List StoreOp) : Prop :=
  ∀ (before later : List StoreOp), before ++ later <+: ops → ∀ (k : RunId) (revision : UInt64),
    (store.after before).Reached k revision → (store.after (before ++ later)).Reached k revision

namespace Repository

variable {s s' : Repository} {k : RunId} {revision : UInt64}

theorem Moves.reached {id : RunId} {action : RunAction} {run run' : RunRecord}
    (h : s.Moves id action run run' s') (reached : s.Reached k revision) :
    s'.Reached k revision := by
  obtain ⟨stored, found, least⟩ := reached
  by_cases same : id = k
  · obtain rfl := Option.some.inj ((same ▸ found).symm.trans h.found)
    exact ⟨run', by rw [h.runs, if_pos same], UInt64.le_trans least h.step.revision_le⟩
  · exact ⟨stored, by rw [h.runs, if_neg same, found], least⟩

/-- A call of the repository lowers no revision, and neither does a current snapshot. -/
theorem serve_reached (keyed : s.Keyed) {op : StoreOp} (current : SavesCurrent s op)
    (reached : s.Reached k revision) : (store.next s op).Reached k revision := by
  cases op with
  | call op =>
      refine (step_effect keyed op).preserves (fun _ _ creation reached => ?_)
        (fun move => move.reached) reached
      obtain ⟨stored, found, least⟩ := reached
      exact ⟨stored, (creation.kept found).trans found, least⟩
  | save run =>
      rw [store_next_save]
      obtain ⟨error, refused⟩ | ⟨s', saved, runs, -⟩ := s.save_cases run
      · rw [refused]
        exact reached
      · rw [saved]
        obtain ⟨stored, found, least⟩ := reached
        by_cases same : run.runId = k
        · have newer := current stored (same ▸ found) (congrArg Prod.fst saved)
          exact ⟨run, by rw [runs, BTreeMap.getElem?_insert, if_pos same],
            UInt64.le_trans least newer⟩
        · exact ⟨stored, by rw [runs, BTreeMap.getElem?_insert, if_neg same, found], least⟩

end Repository

/-- Revisions are kept throughout a history exactly when every snapshot that it puts in the
place of a stored record has at least the revision of that record. -/
theorem revisionsKept_iff (ops : List StoreOp) :
    RevisionsKept ops ↔ store.Along SavesCurrent ops := by
  constructor
  · intro kept before op within
    cases op with
    | call => exact trivial
    | save run =>
        intro stored found saved
        obtain ⟨run', found', least⟩ := kept before [.save run] within run.runId stored.revision
          ⟨stored, found, UInt64.le_refl _⟩
        obtain ⟨error, refused⟩ | ⟨s', accepted, runs, -⟩ := (store.after before).save_cases run
        · rw [refused] at saved
          cases saved
        · rw [Machine.after_concat, store_next_save, accepted, runs,
            Std.ExtTreeMap.getElem?_insert_self] at found'
          obtain rfl := Option.some.inj found'
          exact least
  · intro current before later within k revision reached
    induction later using List.reverseRecOn with
    | nil => rwa [List.append_nil]
    | append_singleton later op ih =>
        rw [← List.append_assoc] at within ⊢
        rw [Machine.after_concat]
        exact Repository.serve_reached (store_keyed_after _) (current _ _ within)
          (ih ((List.prefix_append _ _).trans within))

end Histories

end Orchestrator
