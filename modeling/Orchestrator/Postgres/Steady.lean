import Orchestrator.Model.Topology
import Orchestrator.Postgres.Columns
import Orchestrator.Postgres.Persistence
import Orchestrator.Repository.Revision
import Orchestrator.Repository.Terminal

/-!
# What the transitions find in their rows

`Table.Each` says that every row holds a record with a property, in its payload and in
its columns. A property that the created runs have, that reading a record back does not
lose and that every change keeps holds of the rows of every reachable table. `Steady` is
one: leases are held by running steps of the workflow, and a run that failed without a
failed step failed by its gates.
-/

namespace Orchestrator

open Json (toValue fromValue)

/-! Reading a record back may lose outputs and doubles, and nothing else. -/

section Reading

/-- A step record is read with all but its output as it was. -/
theorem eq_of_fromValue_stepRecord {record record' : StepRecord}
    (read : fromValue (toValue record) = some record') :
    record' = { record with output := record'.output } := by
  rw [fromValue_stepRecord] at read
  obtain ⟨output, -, same⟩ := Option.bind_eq_some_iff.mp read
  obtain rfl := Option.some.inj same
  rfl

/-- A workflow is read with its steps as they were. -/
theorem steps_of_fromValue_workflowSpec {workflow workflow' : WorkflowSpec}
    (read : fromValue (toValue workflow) = some workflow') : workflow'.steps = workflow.steps := by
  rw [fromValue_workflowSpec] at read
  obtain ⟨gates, -, same⟩ := Option.bind_eq_some_iff.mp read
  obtain rfl := Option.some.inj same
  rfl

theorem schemaVersion_of_fromValue_runManifest {manifest manifest' : RunManifest}
    (read : fromValue (toValue manifest) = some manifest') :
    manifest'.schemaVersion = manifest.schemaVersion := by
  rw [fromValue_runManifest] at read
  obtain ⟨gates, -, same⟩ := Option.bind_eq_some_iff.mp read
  obtain rfl := Option.some.inj same
  rfl

theorem RunRecord.Supported.read {run run' : RunRecord} (supported : run.Supported)
    (read : Json.fromValue (Json.toValue run) = some run') : run'.Supported := by
  have fields := eq_of_fromValue_runRecord read
  rw [fromValue_runRecord] at read
  simp only [Option.bind_eq_some_iff, Option.some.injEq] at read
  obtain ⟨_, -, manifest, readManifest, _, -, _, -, _, -, built⟩ := read
  refine ⟨?_, ?_, ?_⟩
  · rw [fields]
    exact supported.schema
  · rw [← built]
    exact (schemaVersion_of_fromValue_runManifest readManifest).trans supported.manifest
  · rw [fields]
    exact supported.events

/-- What a run that is read back has kept of its records, its steps and its fields. -/
theorem read_back {run run' : RunRecord} (read : fromValue (toValue run) = some run') :
    run'.status = run.status ∧ run'.error = run.error ∧ run'.revision = run.revision ∧
      run'.workflow.steps = run.workflow.steps ∧
      (∀ (id : StepId) (record' : StepRecord), run'.steps[id]? = some record' →
        ∃ record, run.steps[id]? = some record ∧
          record' = { record with output := record'.output }) ∧
      ∀ (id : StepId) (record : StepRecord), run.steps[id]? = some record →
        ∃ record', run'.steps[id]? = some record' ∧
          record' = { record with output := record'.output } := by
  have fields := eq_of_fromValue_runRecord read
  rw [fromValue_runRecord] at read
  simp only [Option.bind_eq_some_iff, Option.some.injEq] at read
  obtain ⟨workflow, readWorkflow, _, -, steps, readSteps, _, -, _, -, built⟩ := read
  have entries : ∀ id : StepId, run'.steps[id]? =
      run.steps[id]?.bind fun record => fromValue (toValue record) := by
    intro id
    rw [← built]
    exact Json.getElem?_of_fromValue_map readSteps id
  refine ⟨by rw [fields], by rw [fields], by rw [fields], ?_, fun id record' found => ?_,
    fun id record found => ?_⟩
  · rw [← built]
    exact steps_of_fromValue_workflowSpec readWorkflow
  · rw [entries] at found
    obtain ⟨record, stored, same⟩ := Option.bind_eq_some_iff.mp found
    exact ⟨record, stored, eq_of_fromValue_stepRecord same⟩
  · obtain ⟨record', same⟩ := exists_fromValue_stepRecord record
    exact ⟨record', by rw [entries, found, Option.bind_some, same],
      eq_of_fromValue_stepRecord same⟩

end Reading

/-- A record is left as it was, or changed as a record step says; a claim also clears the
time of its next attempt. -/
theorem LockedStep.record_cases {action : RunAction} {run run' : RunRecord}
    (h : LockedStep action run run') {id : StepId} {record' : StepRecord}
    (hr : run'.steps[id]? = some record') :
    run.steps[id]? = some record' ∨ ∃ token record, RecordStep token run action id record ∧
      record' = { record with nextAttemptAtMs := record'.nextAttemptAtMs } := by
  cases h with
  | claim worker now leaseMs running listed candidate known =>
      simp only [RunRecord.bump_steps, RunRecord.setStep_steps, BTreeMap.getElem?_insert] at hr
      split at hr
      · obtain rfl := Option.some.inj hr
        subst_vars
        exact .inr ⟨_, _, .claim worker now now leaseMs running listed candidate known, rfl⟩
      · exact .inl hr
  | renew claim now leaseMs found leased valid =>
      simp only [RunRecord.bump_steps, RunRecord.setStep_steps, BTreeMap.getElem?_insert] at hr
      split at hr
      · obtain rfl := Option.some.inj hr
        subst_vars
        exact .inr ⟨0, _, .renew claim now now leaseMs found leased valid, rfl⟩
      · exact .inl hr
  | complete claim completion now eventNow found leased valid accepted own =>
      simp only [RunRecord.logged_steps, RunRecord.commit_steps, BTreeMap.getElem?_insert] at hr
      split at hr
      · obtain rfl := Option.some.inj hr
        subst_vars
        exact .inr ⟨0, _, .complete claim completion now now now found leased valid accepted, rfl⟩
      · exact .inl hr
  | record => exact .inl hr
  | measure => exact .inl hr
  | settle => exact .inl (by simpa using hr)
  | finish => exact .inl (by simpa using hr)
  | cancel now eventNow active =>
      simp only [RunRecord.logged_steps, RunRecord.bump_steps, RunRecord.cancelSteps_steps,
        Std.ExtTreeMap.getElem?_map, Option.map_eq_some_iff] at hr
      obtain ⟨record, found, rfl⟩ := hr
      exact .inr ⟨0, _, .cancel id now found active, rfl⟩
  | recover now eventNow listed found expired =>
      simp only [RunRecord.logged_steps, RunRecord.noteRecovery_steps, RunRecord.setStep_steps,
        BTreeMap.getElem?_insert] at hr
      split at hr
      · obtain rfl := Option.some.inj hr
        subst_vars
        exact .inr ⟨0, _, .recover now listed found expired, rfl⟩
      · exact .inl hr

/-- A step that has a record keeps one. -/
theorem LockedStep.record_stays {action : RunAction} {run run' : RunRecord}
    (h : LockedStep action run run') {id : StepId} {record : StepRecord}
    (found : run.steps[id]? = some record) : ∃ record', run'.steps[id]? = some record' := by
  have inserted : ∀ (k : StepId) (other : StepRecord), ∃ record',
      (run.steps.insert k other)[id]? = some record' := by
    intro k other
    rw [BTreeMap.getElem?_insert]
    split
    · exact ⟨other, rfl⟩
    · exact ⟨record, found⟩
  cases h with
  | record => exact ⟨record, found⟩
  | measure => exact ⟨record, found⟩
  | settle => exact ⟨record, by simpa using found⟩
  | finish => exact ⟨record, by simpa using found⟩
  | cancel =>
      simp only [RunRecord.logged_steps, RunRecord.bump_steps, RunRecord.cancelSteps_steps,
        Std.ExtTreeMap.getElem?_map, found, Option.map_some]
      exact ⟨_, rfl⟩
  | claim => exact inserted _ _
  | renew => exact inserted _ _
  | complete =>
      simp only [RunRecord.logged_steps, RunRecord.commit_steps]
      exact inserted _ _
  | recover =>
      simp only [RunRecord.logged_steps, RunRecord.noteRecovery_steps, RunRecord.setStep_steps]
      exact inserted _ _

/-- Leases are held by running steps of the workflow, and a run that failed without a
failed step failed by its gates. -/
structure RunRecord.Steady (run : RunRecord) : Prop where
  distinct : run.workflow.stepIds.Nodup
  leased : ∀ (id : StepId) (record : StepRecord), run.steps[id]? = some record →
    record.lease.isSome = true →
      record.status = .running ∧ ∃ step ∈ run.workflow.steps, step.id = id
  gated : run.status = .failed → run.hasFailed = false →
    run.error = some "one or more evaluation gates failed"

section Steps

variable {token : UInt64} {action : RunAction} {run run' : RunRecord} {id : StepId}

/-- A record that holds a lease after a change runs, and is that of a step. -/
theorem RecordStep.leased {record' : StepRecord} (h : RecordStep token run action id record')
    (steady : run.Steady) (held : record'.lease.isSome = true) :
    record'.status = .running ∧ ∃ step ∈ run.workflow.steps, step.id = id := by
  cases h with
  | claim worker seen now leaseMs running listed candidate known => exact ⟨rfl, _, listed, rfl⟩
  | renew claim now again leaseMs found leased valid =>
      have old := steady.leased _ _ found (by rw [leased]; rfl)
      exact old
  | complete => cases held
  | cancel id now found active =>
      unfold StepRecord.cancel at held ⊢
      split at held
      next settled =>
        rw [if_pos settled]
        exact steady.leased _ _ found held
      · cases held
  | recover now listed found expired =>
      cases (recoverExpiredStep_eq_some expired).2 with
      | retrying => cases held
      | fallback => cases held
      | failed => cases held

/-- A failed record is changed by no call. -/
theorem RecordStep.failed {record record' : StepRecord} (h : RecordStep token run action id record')
    (steady : run.Steady) (found : run.steps[id]? = some record)
    (failed : record.status = .failed) : record'.status = .failed := by
  have unleased : ∀ {lease : StepLease} {other : StepRecord}, run.steps[id]? = some other →
      other.lease = some lease → False := by
    intro lease other found' leased
    obtain rfl := Option.some.inj (found.symm.trans found')
    obtain ⟨running, -⟩ := steady.leased id record found (by rw [leased]; rfl)
    rw [failed] at running
    cases running
  cases h with
  | claim worker seen now leaseMs running listed candidate known =>
      obtain ⟨-, waits⟩ := Repository.waits_of_candidate candidate found
      rw [failed] at waits
      obtain waits | waits := waits <;> cases waits
  | renew claim now again leaseMs found' leased valid => exact (unleased found' leased).elim
  | complete claim completion now retryNow finishNow found' leased =>
      exact (unleased found' leased).elim
  | cancel id now found' active =>
      obtain rfl := Option.some.inj (found.symm.trans found')
      simp [StepRecord.cancel, failed]
  | recover now listed found' expired =>
      obtain ⟨⟨lease, leased, -⟩, -⟩ := recoverExpiredStep_eq_some expired
      exact (unleased found' leased).elim

/-- A run with a failed step keeps it. -/
theorem LockedStep.hasFailed (h : LockedStep action run run') (steady : run.Steady)
    (unfailed : run'.hasFailed = false) : run.hasFailed = false := by
  rw [← Bool.not_eq_true, RunRecord.hasFailed_iff] at unfailed ⊢
  rintro ⟨id, record, found, failed⟩
  obtain ⟨record', found'⟩ := h.record_stays found
  refine unfailed ⟨id, record', found', ?_⟩
  obtain same | ⟨_, record'', changed, same⟩ := h.record_cases found'
  · obtain rfl := Option.some.inj (found.symm.trans same)
    exact failed
  · rw [same]
    exact changed.failed steady found failed

/-- The error of a run after a change that leaves it without a failed step. -/
theorem LockedStep.error_cases (h : LockedStep action run run') (unfailed : run'.hasFailed = false)
    (failed : run'.status = .failed) :
    run'.error = some "one or more evaluation gates failed" ∨
      run.status = .failed ∧ run'.error = run.error := by
  have gated : ∀ {settled : RunRecord}, settled.settle.hasFailed = false →
      settled.settle.status = .failed →
      settled.settle.error = some "one or more evaluation gates failed" := by
    intro settled unfailed failed
    rw [RunRecord.hasFailed, RunRecord.settle_steps, ← RunRecord.hasFailed] at unfailed
    rw [RunRecord.settle_status, RunRecord.verdict, unfailed] at failed
    cases passed : settled.gatesPassed with
    | true => simp [passed] at failed
    | false => rw [RunRecord.settle_eq, if_neg (by simp [unfailed, passed])]
  have ended : ∀ {k : StepId} {record : StepRecord}, run'.steps = run.steps.insert k record →
      record.status ≠ .failed := by
    intro k record steps status
    rw [← Bool.not_eq_true, RunRecord.hasFailed_iff] at unfailed
    refine unfailed ⟨k, record, ?_, status⟩
    rw [steps, Std.ExtTreeMap.getElem?_insert_self]
  cases h with
  | claim worker now leaseMs running =>
      rw [RunRecord.bump_status, RunRecord.setStep_status, running] at failed
      cases failed
  | renew => exact .inr ⟨failed, rfl⟩
  | @complete _ record lease claim completion now eventNow found leased valid accepted own =>
      have completed : (record.complete completion now now).status ≠ .failed := by
        apply ended
        rw [RunRecord.logged_steps, RunRecord.commit_steps]
      rw [RunRecord.logged_status, RunRecord.commit_status] at failed
      refine .inr ⟨failed, ?_⟩
      change (run.commit _ _).error = _
      rw [RunRecord.commit, RunRecord.noteFailure_eq, if_neg completed]
      rfl
  | record => exact .inr ⟨failed, rfl⟩
  | measure => exact .inr ⟨failed, rfl⟩
  | settle metrics => exact .inl (gated unfailed failed)
  | finish metrics => exact .inl (gated unfailed failed)
  | cancel => cases failed
  | @recover _ step record recovered event now eventNow listed found expired =>
      have final : recovered.status ≠ .failed := by
        apply ended
        rw [RunRecord.logged_steps, RunRecord.noteRecovery_steps, RunRecord.setStep_steps]
      rw [RunRecord.logged_status, RunRecord.noteRecovery_status,
        RunRecord.setStep_status] at failed
      refine .inr ⟨failed, ?_⟩
      change (RunRecord.noteRecovery _ _).error = _
      rw [RunRecord.noteRecovery_eq, if_neg fun both => final both.1]
      rfl

theorem LockedStep.steady (h : LockedStep action run run') (steady : run.Steady) :
    run'.Steady := by
  have workflow := h.sameRequest.workflow
  refine ⟨workflow ▸ steady.distinct, fun id record found held => ?_, fun failed unfailed => ?_⟩
  · rw [workflow]
    obtain old | ⟨_, record', changed, same⟩ := h.record_cases found
    · exact steady.leased id record old held
    · rw [same] at held ⊢
      exact changed.leased steady held
  · obtain gates | ⟨failed, error⟩ := h.error_cases unfailed failed
    · exact gates
    · exact error.trans (steady.gated failed (h.hasFailed steady unfailed))

end Steps

namespace RunRecord.Steady

theorem created {request : RunRequest} (now sequence eventNow : UInt64)
    (accepted : validateRunRequest request = some (.ok ())) :
    (RunRecord.created request now sequence eventNow).Steady := by
  refine ⟨WorkflowSpec.stepIds_nodup (accepted_of_validate accepted).valid,
    fun id record found => ?_, fun failed => ?_⟩
  · simp [RunRecord.created, RunRecord.new] at found
  · cases failed

theorem turn {op : Op} {run run' : RunRecord} (steady : run.Steady) (h : Turn op run run') :
    run'.Steady :=
  h.preserves (fun step steady => step.steady steady)
    (fun _ ⟨distinct, leased, gated⟩ => ⟨distinct, leased, gated⟩) steady

/-- A steady run is read back as one. -/
theorem read {run run' : RunRecord} (steady : run.Steady)
    (read : fromValue (toValue run) = some run') : run'.Steady := by
  obtain ⟨status, error, -, steps, back, forth⟩ := read_back read
  refine ⟨?_, fun id record' found held => ?_, fun failed unfailed => ?_⟩
  · rw [WorkflowSpec.stepIds, steps]
    exact steady.distinct
  · obtain ⟨record, stored, same⟩ := back id record' found
    rw [same] at held ⊢
    rw [steps]
    exact steady.leased id record stored held
  · rw [error]
    refine steady.gated (status ▸ failed) ?_
    rw [← Bool.not_eq_true, hasFailed_iff] at unfailed ⊢
    rintro ⟨id, record, stored, failed⟩
    obtain ⟨record', found, same⟩ := forth id record stored
    exact unfailed ⟨id, record', found, by rw [same]; exact failed⟩

end RunRecord.Steady

/-- Every row holds a record of its run with the property. -/
def Table.Each (P : RunRecord → Prop) (s : Table) : Prop :=
  ∀ (k : RunId) (row : Row), s[k]? = some row → ∃ run : RunRecord, run.runId = k ∧
    row.Stores run ∧ P run

namespace PostgresRunStore

variable {store : PostgresRunStore} {s : Table} {P : RunRecord → Prop}

/-- The record that a row decodes to, where the stored one has a property that reading it
back does not lose. -/
theorem each_decoded (each : s.Each P)
    (read : ∀ {run run' : RunRecord}, fromValue (toValue run) = some run' → P run → P run')
    {k : RunId} {row : Row} {run : RunRecord} (found : s[k]? = some row)
    (decoded : store.readPayload row.payload = .ok run) :
    run.runId = k ∧ toI64 run.revision = .ok row.revision ∧ P run := by
  obtain ⟨stored, own, stores, holds⟩ := each k row found
  rw [stores.payload] at decoded
  have back := (of_readPayload decoded).1
  obtain ⟨-, -, revision, -⟩ := read_back back
  refine ⟨?_, revision ▸ stores.revision, read back holds⟩
  rw [eq_of_fromValue_runRecord back]
  exact own

/-- A property of created runs that reading a record back does not lose and every turn keeps
holds of every row after a call. -/
theorem each_next
    (created : ∀ request now eventNow, validateRunRequest request = some (.ok ()) →
      P (.created request now 1 eventNow))
    (read : ∀ {run run' : RunRecord}, fromValue (toValue run) = some run' → P run → P run')
    (turn : ∀ {op run run'}, Turn op run run' → P run → P run') (each : s.Each P) (op : PgOp) :
    Table.Each P ((postgres store).next s op) := by
  intro k row found
  obtain old | ⟨run, written, own, stores⟩ := next_row found
  · exact each k row old
  · refine ⟨run, own, stores, ?_⟩
    cases written with
    | create accepted free absent => exact created _ _ _ accepted
    | change target foundOld decoded changed =>
        obtain ⟨same, -, holds⟩ := each_decoded each read foundOld decoded
        exact turn (Locked.written_turn (fun id member => (target id member).trans same.symm)
          changed) holds

theorem each_after
    (created : ∀ request now eventNow, validateRunRequest request = some (.ok ()) →
      P (.created request now 1 eventNow))
    (read : ∀ {run run' : RunRecord}, fromValue (toValue run) = some run' → P run → P run')
    (turn : ∀ {op run run'}, Turn op run run' → P run → P run') (ops : List PgOp) :
    Table.Each P ((postgres store).after ops) := by
  refine (postgres store).after_invariant (P := Table.Each P) ?_ ?_ ops
  · intro k row found
    simp [postgres] at found
  · exact fun s op each => each_next created read turn each op

theorem steady_next (steady : s.Each RunRecord.Steady) (op : PgOp) :
    Table.Each RunRecord.Steady ((postgres store).next s op) :=
  each_next (fun _ now eventNow => .created now 1 eventNow)
    (fun read steady => steady.read read) (fun turn steady => steady.turn turn) steady op

theorem steady_after (store : PostgresRunStore) (ops : List PgOp) :
    Table.Each RunRecord.Steady ((postgres store).after ops) :=
  each_after (fun _ now eventNow => .created now 1 eventNow)
    (fun read steady => steady.read read) (fun turn steady => steady.turn turn) ops

/-- What a row of a reachable table is read as has supported schema versions. -/
theorem readPayload_of_read {ops : List PgOp} {k : RunId} {row : Row} {run : RunRecord}
    (found : ((postgres store).after ops)[k]? = some row)
    (fetched : store.fetch row.payload = .ok row.payload)
    (back : fromValue row.payload = some run) : store.readPayload row.payload = .ok run := by
  have each : Table.Each RunRecord.Supported ((postgres store).after ops) :=
    each_after (fun _ now eventNow => .created now 1 eventNow)
      (fun read supported => RunRecord.Supported.read supported read)
      (fun turn supported => turn.supported supported) ops
  obtain ⟨stored, -, stores, supported⟩ := each k row found
  rw [readPayload_of_fetch fetched]
  refine decodePayload_eq_ok.mpr ⟨back, supported.read ?_⟩
  rw [← stores.payload]
  exact back

end PostgresRunStore

end Orchestrator
