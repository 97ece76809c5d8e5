import Orchestrator.Postgres.Sweep

/-!
# The revision guard of `persist_locked`

The update of a row has a condition on its revision column. Every change that a call makes
to a locked run counts at least one revision, the last of them after all others, and the
column holds the revision of the payload. So the condition is met by whatever a call
submits, and a call that submits nothing found nothing to change.
-/

namespace Orchestrator

open Json (toValue)

/-- The second run counts a revision on top of one that the first had or went through. -/
def RunRecord.Raised (run run' : RunRecord) : Prop :=
  ∃ revision : UInt64, run.revision.toNat ≤ revision.toNat ∧
    run'.revision = revision.saturatingAdd 1

theorem RunRecord.Raised.le {run run' : RunRecord} (raised : run.Raised run') :
    run.revision.toNat ≤ run'.revision.toNat := by
  obtain ⟨revision, before, after⟩ := raised
  rw [after]
  exact before.trans (UInt64.le_saturatingAdd revision 1)

/-- A revision that is not the largest grows. -/
theorem RunRecord.Raised.lt {run run' : RunRecord} (raised : run.Raised run')
    (below : run.revision.toNat < UInt64.maxNat) : run.revision < run'.revision := by
  obtain ⟨revision, before, after⟩ := raised
  rw [UInt64.lt_iff_toNat_lt, after]
  exact UInt64.lt_saturatingAdd_one before below

/-- The count of a change to a locked run is the last thing that it does. -/
theorem LockedStep.raised {action : RunAction} {run run' : RunRecord}
    (h : LockedStep action run run') : run.Raised run' := by
  have counted := UInt64.le_saturatingAdd run.revision 1
  cases h with
  | claim => exact ⟨run.revision, le_refl _, rfl⟩
  | renew => exact ⟨run.revision, le_refl _, rfl⟩
  | complete => exact ⟨run.revision.saturatingAdd 1, counted, by simp⟩
  | record => exact ⟨run.revision, le_refl _, rfl⟩
  | measure => exact ⟨run.revision, le_refl _, rfl⟩
  | settle metrics =>
      refine ⟨(run.setMetrics metrics).settle.revision, ?_, rfl⟩
      rw [RunRecord.settle_revision]
      exact le_refl run.revision.toNat
  | finish metrics =>
      refine ⟨(run.setMetrics metrics).settle.revision.saturatingAdd 1, ?_, rfl⟩
      rw [RunRecord.settle_revision]
      exact counted
  | cancel => exact ⟨run.revision.saturatingAdd 1, counted, rfl⟩
  | recover =>
      refine ⟨run.revision, le_refl _, ?_⟩
      rw [RunRecord.logged_revision, RunRecord.noteRecovery_revision]
      rfl

theorem Turn.raised {op : Op} {run run' : RunRecord} (h : Turn op run run') : run.Raised run' := by
  cases h with
  | step _ step => exact step.raised
  | @recover _ _ last ids recovered =>
      refine ⟨last.revision, ?_, rfl⟩
      induction recovered with
      | done => exact le_refl _
      | next step _ ih => exact step.raised.le.trans ih

namespace Locked

variable {run : RunRecord}

/-- The call has nothing to change in the run. A renewal, a completion and an event always
have; a creation changes no stored run. -/
def Unneeded (run : RunRecord) : PgOp → Prop
  | (.createRun _ _, _) => True
  | (.claimNextStep _ worker _ _, db) => run.status ≠ .running ∨ ∃ now, toU64 db.now = .ok now ∧
      ∀ step ∈ run.workflow.steps, claimCandidate run worker now step = none
  | (.renewStep _ _ _, _) | (.completeStep _ _ _, _) | (.recordEvent _ _ _, _) => False
  | (.finishRun _ metrics _, _) =>
    metricsChanged run metrics = false ∧ measured run metrics = run.setMetrics metrics
  | (.cancelRun _ _, _) => run.status.isTerminal = true
  | (.recoverExpired _, db) => ∃ now, toU64 db.now = .ok now ∧ ¬ run.Expired now

theorem measured_of_same (steady : run.Steady) {metrics : List Metric}
    (same : run.status = (measured run metrics).status) :
    measured run metrics = run.setMetrics metrics := by
  unfold measured at same ⊢
  split at same
  next settled =>
    rw [RunRecord.settle_status] at same
    rw [if_pos settled, RunRecord.settle_eq, ← same]
    split
    · rfl
    next failing =>
      obtain ⟨unfailed, blocked⟩ := not_or.mp failing
      rw [Bool.not_eq_true] at unfailed blocked
      have failed : run.status = .failed := by
        rw [same, RunRecord.verdict, unfailed, blocked]
        rfl
      rw [← steady.gated failed unfailed]
      rfl
  next unsettled => rw [if_neg unsettled]

theorem unneeded_of_written (steady : run.Steady) {op : PgOp}
    (h : written run op = .ok none) : Unneeded run op := by
  obtain ⟨op, db⟩ := op
  cases op with
  | createRun request clock => trivial
  | claimNextStep runId worker leaseMs clock =>
      obtain ⟨⟨answer, last⟩, h, rfl⟩ := Except.map_eq_ok.mp h
      unfold claimNextStep at h
      split at h
      next idle => exact .inl idle
      next running =>
        obtain ⟨now, reading, h⟩ := Except.bind_eq_ok.mp h
        split at h
        next none => exact .inr ⟨now, reading, List.findSome?_eq_none_iff.mp none⟩
        · split at h
          · simp at h
          · simp at h
  | renewStep claim leaseMs clock =>
      obtain ⟨⟨answer, last⟩, h, rfl⟩ := Except.map_eq_ok.mp h
      unfold renewStep at h
      obtain ⟨now, -, h⟩ := Except.bind_eq_ok.mp h
      repeat' split at h
      all_goals simp at h
  | completeStep claim completion clock =>
      obtain ⟨⟨answer, last⟩, h, rfl⟩ := Except.map_eq_ok.mp h
      unfold completeStep at h
      obtain ⟨now, -, h⟩ := Except.bind_eq_ok.mp h
      repeat' split at h
      · simp at h
      · simp at h
      · simp at h
      · obtain ⟨_, -, same⟩ := Except.map_eq_ok.mp h
        cases same
  | recordEvent runId event clock =>
      obtain ⟨⟨answer, last⟩, h, rfl⟩ := Except.map_eq_ok.mp h
      unfold recordEvent at h
      split at h
      · simp at h
      · obtain ⟨_, -, same⟩ := Except.map_eq_ok.mp h
        cases same
  | finishRun runId metrics clock =>
      obtain ⟨⟨answer, last⟩, h, rfl⟩ := Except.map_eq_ok.mp h
      rw [finishRun_eq] at h
      split at h
      next kept => exact ⟨kept.2, measured_of_same steady kept.1⟩
      · split at h
        · obtain ⟨_, -, same⟩ := Except.map_eq_ok.mp h
          cases same
        · simp at h
  | cancelRun runId clock =>
      obtain ⟨⟨answer, last⟩, h, rfl⟩ := Except.map_eq_ok.mp h
      unfold cancelRun at h
      obtain ⟨now, -, h⟩ := Except.bind_eq_ok.mp h
      split at h
      next ended => exact ended
      · obtain ⟨_, -, same⟩ := Except.map_eq_ok.mp h
        cases same
  | recoverExpired clock =>
      obtain ⟨now, reading, h⟩ := Except.bind_eq_ok.mp h
      obtain ⟨⟨answer, last⟩, h, rfl⟩ := Except.map_eq_ok.mp h
      refine ⟨now, reading, fun past => ?_⟩
      obtain ⟨none, -⟩ | ⟨-, run', recovered, -⟩ := recoverExpired_cases steady now clock
      · exact steady.lapsedSteps_ne_nil.mpr past none
      · rw [recovered] at h
        cases h

end Locked

namespace PostgresRunStore

/-- A call, given in the first table, has read the first record from a row that it holds
the lock of and submits the second for it. The table is what the call has written before:
nothing, or the rows that a recovery fetched earlier. -/
inductive Submits (store : PostgresRunStore) (s : Table) :
    PgOp → Table → RunRecord → RunRecord → Prop where
  | locked {op : PgOp} {k : RunId} {row : Row} {run run' : RunRecord}
      (target : op.1.target = some k) (found : s[k]? = some row)
      (decoded : store.readPayload row.payload = .ok run)
      (written : Locked.written run op = .ok (some run')) : Submits store s op s run run'
  | swept {clock : Clock} {db : PgClock} {now : UInt64} {limit : Int64}
      {before rest : List (RunId × Row)} {entry : RunId × Row} {s' : Table}
      {expired more : List (RunId × StepId)} {run run' : RunRecord}
      (reading : toU64 db.now = .ok now) (bound : toI64 now = .ok limit)
      (fetched : store.expiredRows s limit = before ++ entry :: rest)
      (earlier : store.recoverRows now clock db s (before.map fun entry => entry.2.payload) [] =
        .ok (expired, s'))
      (decoded : store.readPayload entry.2.payload = .ok run)
      (recovered : Locked.recoverExpired run now clock = .ok (more, some run')) :
      Submits store s (.recoverExpired clock, db) s' run run'

variable {store : PostgresRunStore} {s s' : Table} {op : PgOp} {run run' : RunRecord}

/-- What is submitted is a turn of the record that its row still holds. -/
theorem Submits.turn (submits : store.Submits s op s' run run') (each : s.Each RunRecord.Steady) :
    Turn op.1 run run' ∧
      ∃ row, s'[run.runId]? = some row ∧ toI64 run.revision = .ok row.revision := by
  cases submits with
  | @locked _ k row _ _ target found decoded written =>
      have decodes := decodes_of_steady each found decoded
      refine ⟨Locked.written_turn (fun id member => ?_) written, row, ?_, decodes.revision⟩
      · rw [target] at member
        rw [decodes.own]
        exact (Option.some.inj member).symm
      · rw [decodes.own]
        exact found
  | @swept clock db now limit before rest entry _ expired more _ _ reading bound fetched earlier
      decoded recovered =>
      have listed := earliestExpired store s limit
      rw [fetched] at listed
      have there : ∀ other ∈ before ++ entry :: rest, s[other.1]? = some other.2 :=
        fun other member => (listed.expired other member).1
      have own : ∀ other ∈ before, ∀ run, store.readPayload other.2.payload = .ok run →
          run.runId = other.1 := by
        intro other member run decoded
        exact (decodes_of_steady each (there other (List.mem_append_left _ member)) decoded).own
      have found := there entry (List.mem_append_right _ List.mem_cons_self)
      have decodes := decodes_of_steady each found decoded
      -- The keys of the fetched rows differ, so the earlier ones left this row alone.
      have apart : entry.1 ∉ before.map Prod.fst := by
        intro member
        have distinct := listed.distinct
        rw [List.map_append, List.map_cons] at distinct
        exact (List.nodup_append.mp distinct).2.2 entry.1 member entry.1 List.mem_cons_self rfl
      refine ⟨Locked.recoverExpired_turn recovered, entry.2, ?_, decodes.revision⟩
      rw [decodes.own, recoverRows_others own earlier apart]
      exact found

/-- The guard refuses only a record that is not newer than its row. -/
theorem persistLocked_ne_conflict {row : Row} {transaction : Int} {id : RunId}
    (found : s[run'.runId]? = some row) (stored : toI64 run.revision = .ok row.revision)
    (newer : run.revision < run'.revision) :
    persistLocked s run' transaction ≠ .error (.conflict id) := by
  intro refused
  unfold persistLocked at refused
  cases fits : toI64 run'.revision with
  | error error =>
      rw [fits] at refused
      obtain rfl := Except.error.inj refused
      cases toI64_eq_error fits
  | ok revision =>
      cases expires : run'.leaseExpiryMs with
      | error error =>
          rw [fits, expires] at refused
          obtain rfl := Except.error.inj refused
          cases RunRecord.leaseExpiryMs_eq_error expires
      | ok column =>
          have admitted := (lt_iff_of_toI64 stored fits).mpr newer
          simp [bind, Except.bind, fits, expires, found, admitted] at refused

/-- Every record that a call submits passes the revision guard of its row, and is written
where its revision and its expiries fit their columns; a call that submits nothing found
nothing to change. -/
theorem guard_admits (store : PostgresRunStore) (ops : List PgOp) :
    (∀ (k : RunId) (row : Row), ((postgres store).after ops)[k]? = some row →
      ∃ run : RunRecord, run.runId = k ∧ row.payload = toValue run ∧
        row.revision.toInt = run.revision.toNat) ∧
    (∀ (op : PgOp) (s : Table) (run run' : RunRecord),
      store.Submits ((postgres store).after ops) op s run run' →
        (∃ row, s[run'.runId]? = some row ∧ row.revision.toInt = run.revision.toNat) ∧
        run.revision < run'.revision ∧
        ∀ transaction : Int,
          (∀ id, persistLocked s run' transaction ≠ .error (.conflict id)) ∧
          (run'.revision.toNat < 2 ^ 63 →
            (∀ expiry, run'.LeasedUntil expiry → expiry.toNat < 2 ^ 63) →
              ∃ s', persistLocked s run' transaction = .ok s')) ∧
    ∀ (op : PgOp) (k : RunId) (row : Row) (run : RunRecord),
      ((postgres store).after ops)[k]? = some row → store.readPayload row.payload = .ok run →
        Locked.written run op = .ok none → Locked.Unneeded run op := by
  have each := steady_after store ops
  refine ⟨fun k row found => ?_, fun op s run run' submits => ?_,
    fun op k row run found decoded quiet => ?_⟩
  · obtain ⟨run, own, stores, -⟩ := each k row found
    exact ⟨run, own, stores.payload, toInt_of_toI64 stores.revision⟩
  · obtain ⟨turn, row, found, stored⟩ := submits.turn each
    have newer : run.revision < run'.revision := by
      apply turn.raised.lt
      exact (toI64_eq_ok.mp stored).1.trans (by decide)
    rw [← turn.sameRun] at found
    refine ⟨⟨row, found, toInt_of_toI64 stored⟩, newer, fun transaction =>
      ⟨fun id => persistLocked_ne_conflict found stored newer, fun small leases => ?_⟩⟩
    obtain ⟨revision, fits⟩ := exists_toI64.mpr small
    obtain ⟨column, expires⟩ : ∃ column, run'.leaseExpiryMs = .ok column := by
      apply RunRecord.exists_leaseExpiryMs_iff.mpr
      rintro ⟨expiry, leased⟩
      exact ⟨expiry, leased, leases expiry leased⟩
    apply (exists_persistLocked run' transaction).mpr
    exact ⟨revision, column, row, fits, expires, found, (lt_iff_of_toI64 stored fits).mpr newer⟩
  · exact Locked.unneeded_of_written (decodes_of_steady each found decoded).steady quiet

end PostgresRunStore

end Orchestrator
