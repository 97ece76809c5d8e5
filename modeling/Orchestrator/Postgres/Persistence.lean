import Orchestrator.Postgres.Log
import Orchestrator.Postgres.Readable
import Orchestrator.Repository.Gates
import Orchestrator.Repository.Sound

/-!
# Written records are read back

Every record that a call writes has supported schema versions, so that reading it
back is a matter of its JSON form: a written record is read back unchanged just if
its doubles are finite and no step's output is null. Where the calls bring only
finite doubles and outputs other than null, all written records are.
-/

namespace Orchestrator

open Json (toValue fromValue Reads)

/-- The run, its manifest and its events have the supported schema version. -/
structure RunRecord.Supported (run : RunRecord) : Prop where
  schema : run.schemaVersion = Orchestrator.schemaVersion
  manifest : run.manifest.schemaVersion = Orchestrator.schemaVersion
  events : ∀ envelope ∈ run.eventLog, envelope.schemaVersion = Orchestrator.schemaVersion

theorem validateRunRecordSchema_eq_ok {run : RunRecord} :
    validateRunRecordSchema run = .ok () ↔ run.Supported := by
  unfold validateRunRecordSchema
  split
  next other => simp only [reduceCtorEq, false_iff]; exact fun h => other h.schema
  next schema =>
    split
    next other => simp only [reduceCtorEq, false_iff]; exact fun h => other h.manifest
    next manifest =>
      split
      next envelope found =>
        simp only [reduceCtorEq, false_iff]
        intro h
        have other := List.find?_some found
        simp [h.events envelope (List.mem_of_find?_eq_some found)] at other
      next all =>
        simp only [true_iff]
        rw [List.find?_eq_none] at all
        exact ⟨not_not.mp schema, not_not.mp manifest, fun envelope member => by
          simpa using all envelope member⟩

theorem PostgresRunStore.decodePayload_eq_ok {store : PostgresRunStore} {payload : Json.Value}
    {run : RunRecord} :
    store.decodePayload payload = .ok run ↔ fromValue payload = some run ∧ run.Supported := by
  unfold decodePayload
  split
  next unread => simp [unread]
  next run' read =>
    rw [read]
    split
    next message rejected =>
      simp only [reduceCtorEq, Option.some.injEq, false_iff, not_and]
      rintro rfl supported
      simp [validateRunRecordSchema_eq_ok.mpr supported] at rejected
    next accepted =>
      simp only [Except.ok.injEq, Option.some.injEq]
      constructor
      · rintro rfl
        exact ⟨rfl, validateRunRecordSchema_eq_ok.mp accepted⟩
      · exact fun h => h.1

/-- What is read of a row has its payload. -/
theorem PostgresRunStore.readPayload_ok {store : PostgresRunStore} {payload : Json.Value}
    {run : RunRecord} (read : store.readPayload payload = .ok run) :
    store.fetch payload = .ok payload ∧ store.decodePayload payload = .ok run := by
  unfold readPayload at read
  cases fetched : store.fetch payload with
  | error text =>
      rw [fetched] at read
      cases read
  | ok value =>
      obtain rfl := store.verbatim fetched
      rw [fetched] at read
      exact ⟨rfl, read⟩

theorem PostgresRunStore.readPayload_of_fetch {store : PostgresRunStore} {payload : Json.Value}
    (fetched : store.fetch payload = .ok payload) :
    store.readPayload payload = store.decodePayload payload := by
  simp only [readPayload, fetched]

/-- The JSON form of a record is read as that record. -/
theorem PostgresRunStore.of_readPayload {store : PostgresRunStore} {payload : Json.Value}
    {run : RunRecord} (read : store.readPayload payload = .ok run) :
    fromValue payload = some run ∧ run.Supported :=
  decodePayload_eq_ok.mp (readPayload_ok read).2

/-- A supported record is decoded from its JSON form just if it is readable. -/
theorem PostgresRunStore.decodePayload_toValue {store : PostgresRunStore} {run : RunRecord}
    (supported : run.Supported) : store.decodePayload (toValue run) = .ok run ↔ run.Readable := by
  rw [decodePayload_eq_ok, ← reads_runRecord]
  exact and_iff_left supported

theorem RunRecord.Supported.created {request : RunRequest} (now sequence eventNow : UInt64)
    (accepted : validateRunRequest request = some (.ok ())) :
    (RunRecord.created request now sequence eventNow).Supported := by
  refine ⟨rfl, (accepted_of_validate accepted).schema, fun envelope member => ?_⟩
  obtain rfl := List.mem_singleton.mp member
  rfl

/-- What the runs keep besides what comes from the request. -/
theorem LockedStep.schemaVersion {action : RunAction} {run run' : RunRecord}
    (h : LockedStep action run run') : run'.schemaVersion = run.schemaVersion := by
  cases h <;>
    simp [RunRecord.logged, RunRecord.pushEvent, RunRecord.bump, RunRecord.setStep,
      RunRecord.commit, RunRecord.noteFailure_eq, RunRecord.settle_eq, RunRecord.noteRecovery_eq,
      RunRecord.setMetrics, RunRecord.cancelSteps]

theorem LockedStep.supported {action : RunAction} {run run' : RunRecord}
    (h : LockedStep action run run') (supported : run.Supported) : run'.Supported := by
  refine ⟨h.schemaVersion.trans supported.schema, ?_, ?_⟩
  · rw [h.sameRequest.manifest]
    exact supported.manifest
  · cases h.grows with
    | silent log => rw [log]; exact supported.events
    | event event now own log =>
        rw [log]
        intro envelope member
        obtain old | new := List.mem_append.mp member
        · exact supported.events envelope old
        · obtain rfl := List.mem_singleton.mp new
          rfl

theorem Turn.supported {op : Op} {run run' : RunRecord} (h : Turn op run run')
    (supported : run.Supported) : run'.Supported := by
  refine h.preserves (fun step => step.supported) ?_ supported
  exact fun _ ⟨schema, manifest, events⟩ => ⟨schema, manifest, events⟩

/-- What a call writes has supported schema versions. -/
theorem PostgresRunStore.Writes.supported {store : PostgresRunStore} {s : Table} {op : PgOp}
    {run : RunRecord} (own : ∀ (k : RunId) (row : Row) (run : RunRecord), s[k]? = some row →
      store.readPayload row.payload = .ok run → run.runId = k)
    (h : store.Writes s op run) : run.Supported := by
  cases h with
  | create accepted => exact .created _ _ _ accepted
  | change target found decoded written =>
      have turn := Locked.written_turn
        (fun id member => (target id member).trans (own _ _ _ found decoded).symm) written
      exact turn.supported (of_readPayload decoded).2

/-! The doubles of a run, which its request and its metrics bring in. -/

theorem EvaluationGate.Finite.evaluate_finite {gate : EvaluationGate} {metrics : List Metric}
    (finite : gate.Finite) (measured : ∀ metric ∈ metrics, metric.Finite) :
    (gate.evaluate metrics).Finite := by
  refine ⟨fun value observed => ?_, finite⟩
  obtain ⟨metric, found, rfl⟩ := Option.map_eq_some_iff.mp observed
  exact measured metric (List.mem_of_find?_eq_some found)

theorem evaluateGates_finite {gates : List EvaluationGate} {metrics : List Metric}
    (finite : ∀ gate ∈ gates, gate.Finite) (measured : ∀ metric ∈ metrics, metric.Finite)
    (name : String) (decision : GateDecision)
    (found : (evaluateGates gates metrics)[name]? = some decision) : decision.Finite := by
  rw [evaluateGates_getElem?, Option.map_eq_some_iff] at found
  obtain ⟨gate, last, rfl⟩ := found
  have listed : gate ∈ gates := List.mem_of_mem_filter (List.mem_of_getLast? last)
  exact (finite gate listed).evaluate_finite measured

theorem RunRecord.Finite.setMetrics {run : RunRecord} (finite : run.Finite) {metrics : List Metric}
    (measured : ∀ metric ∈ metrics, metric.Finite) : (run.setMetrics metrics).Finite :=
  ⟨finite.workflow, finite.manifest, measured, evaluateGates_finite finite.manifest measured⟩

/-- A change keeps the doubles of a run finite, if the metrics it stores are. -/
theorem LockedStep.finite {action : RunAction} {run run' : RunRecord}
    (h : LockedStep action run run') (finite : run.Finite)
    (measured : ∀ metrics, action = .finish metrics → ∀ metric ∈ metrics, metric.Finite) :
    run'.Finite := by
  have same : ∀ run₁ : RunRecord, run₁.Finite → run'.workflow = run₁.workflow →
      run'.manifest = run₁.manifest → run'.metrics = run₁.metrics →
      run'.gateDecisions = run₁.gateDecisions → run'.Finite := by
    rintro run₁ ⟨workflow, manifest, metrics, decisions⟩ h₁ h₂ h₃ h₄
    exact ⟨by rwa [h₁], by rwa [h₂], by rwa [h₃], by rwa [h₄]⟩
  cases h with
  | measure metrics => exact same _ (finite.setMetrics (measured metrics rfl)) rfl rfl rfl rfl
  | settle metrics =>
      refine same _ (finite.setMetrics (measured metrics rfl)) ?_ ?_ ?_ ?_ <;>
        simp [RunRecord.settle_eq, RunRecord.bump]
  | finish metrics =>
      refine same _ (finite.setMetrics (measured metrics rfl)) ?_ ?_ ?_ ?_ <;>
        simp [RunRecord.settle_eq, RunRecord.bump, RunRecord.logged, RunRecord.pushEvent]
  | complete =>
      refine same _ finite ?_ ?_ ?_ ?_ <;>
        simp [RunRecord.commit, RunRecord.noteFailure_eq, RunRecord.bump, RunRecord.logged,
          RunRecord.pushEvent, RunRecord.setStep]
  | recover =>
      refine same _ finite ?_ ?_ ?_ ?_ <;>
        simp [RunRecord.noteRecovery_eq, RunRecord.logged, RunRecord.pushEvent, RunRecord.setStep]
  | _ => exact same _ finite rfl rfl rfl rfl

/-- The output of a step is the one it had, or that of the completion. -/
theorem LockedStep.output_cases {action : RunAction} {run run' : RunRecord}
    (h : LockedStep action run run') {id : StepId} {record' : StepRecord}
    (hr : run'.steps[id]? = some record') :
    record'.output = none ∨
      (∃ record, run.steps[id]? = some record ∧ record'.output = record.output) ∨
      ∃ claim completion, action = .complete claim completion ∧
        record'.output = completion.output := by
  cases h with
  | @claim _ step taskId =>
      simp only [RunRecord.bump_steps, RunRecord.setStep_steps, BTreeMap.getElem?_insert] at hr
      split at hr
      next same =>
        obtain rfl := Option.some.inj hr
        cases found : run.steps[step.id]? with
        | none => exact .inl (by simp [RunRecord.claimed, RunRecord.entry, found, StepRecord.claim,
            StepRecord.new])
        | some record =>
            refine .inr (.inl ⟨record, same ▸ found, ?_⟩)
            simp [RunRecord.claimed, RunRecord.entry, found, StepRecord.claim]
      · exact .inr (.inl ⟨record', hr, rfl⟩)
  | @renew _ record _ claim now leaseMs found =>
      simp only [RunRecord.bump_steps, RunRecord.setStep_steps, BTreeMap.getElem?_insert] at hr
      split at hr
      next same =>
        obtain rfl := Option.some.inj hr
        exact .inr (.inl ⟨record, same ▸ found, rfl⟩)
      · exact .inr (.inl ⟨record', hr, rfl⟩)
  | complete claim completion now eventNow found =>
      simp only [RunRecord.logged_steps, RunRecord.commit_steps, BTreeMap.getElem?_insert] at hr
      split at hr
      · obtain rfl := Option.some.inj hr
        exact .inr (.inr ⟨claim, completion, rfl, rfl⟩)
      · exact .inr (.inl ⟨record', hr, rfl⟩)
  | record => exact .inr (.inl ⟨record', hr, rfl⟩)
  | measure => exact .inr (.inl ⟨record', hr, rfl⟩)
  | settle => exact .inr (.inl ⟨record', by simpa using hr, rfl⟩)
  | finish => exact .inr (.inl ⟨record', by simpa using hr, rfl⟩)
  | cancel =>
      simp only [RunRecord.logged_steps, RunRecord.bump_steps, RunRecord.cancelSteps_steps,
        Std.ExtTreeMap.getElem?_map, Option.map_eq_some_iff] at hr
      obtain ⟨record, found, rfl⟩ := hr
      refine .inr (.inl ⟨record, found, ?_⟩)
      unfold StepRecord.cancel
      split <;> rfl
  | recover now eventNow listed found expired =>
      simp only [RunRecord.logged_steps, RunRecord.noteRecovery_steps, RunRecord.setStep_steps,
        BTreeMap.getElem?_insert] at hr
      split at hr
      next same =>
        obtain rfl := Option.some.inj hr
        refine .inr (.inl ⟨_, same ▸ found, ?_⟩)
        cases (recoverExpiredStep_eq_some expired).2 <;> rfl
      · exact .inr (.inl ⟨record', hr, rfl⟩)

/-- The call brings no double that is not finite and no output that is null. -/
def Op.Plain : Op → Prop
  | .createRun request _ => (∀ gate ∈ request.workflow.evaluationGates, gate.Finite) ∧
      ∀ gate ∈ request.manifest.evaluationGates, gate.Finite
  | .completeStep _ completion _ => completion.output ≠ some .null
  | .finishRun _ metrics _ => ∀ metric ∈ metrics, metric.Finite
  | _ => True

theorem RunRecord.Readable.created {request : RunRequest} (clock : Clock)
    (plain : (Op.createRun request clock).Plain) (now sequence eventNow : UInt64) :
    (RunRecord.created request now sequence eventNow).Readable := by
  refine ⟨⟨plain.1, plain.2, fun metric member => ?_, fun name decision found => ?_⟩,
    fun id record found => ?_⟩
  · cases member
  · simp [RunRecord.created, RunRecord.new, RunRecord.logged, RunRecord.pushEvent] at found
  · simp [RunRecord.created, RunRecord.new] at found

/-- A change that brings finite doubles and an output other than null. -/
theorem LockedStep.readable {action : RunAction} {run run' : RunRecord}
    (h : LockedStep action run run') (readable : run.Readable)
    (measured : ∀ metrics, action = .finish metrics → ∀ metric ∈ metrics, metric.Finite)
    (outputs : ∀ claim completion, action = .complete claim completion →
      completion.output ≠ some .null) : run'.Readable := by
  refine ⟨h.finite readable.finite measured, fun id record' found => ?_⟩
  obtain none | ⟨record, old, same⟩ | ⟨claim, completion, rfl, same⟩ := h.output_cases found
  · rw [none]
    exact nofun
  · rw [same]
    exact readable.outputs id record old
  · rw [same]
    exact outputs claim completion rfl

theorem Recovered.readable {ids : List StepId} {run run' : RunRecord}
    (h : Recovered run ids run') (readable : run.Readable) : run'.Readable := by
  induction h with
  | done => exact readable
  | next step _ ih => exact ih (step.readable readable (by simp) (by simp))

theorem Turn.readable {op : Op} {run run' : RunRecord} (h : Turn op run run') (plain : op.Plain)
    (readable : run.Readable) : run'.Readable := by
  cases h with
  | step asks step =>
      refine step.readable readable ?_ ?_
      · rintro metrics rfl
        cases asks
        exact plain
      · rintro claim completion rfl
        cases asks
        exact plain
  | recover recovered =>
      obtain ⟨⟨workflow, manifest, metrics, decisions⟩, outputs⟩ := recovered.readable readable
      exact ⟨⟨workflow, manifest, metrics, decisions⟩, outputs⟩

/-! Every row of a reachable table holds the record of the run that it is stored under. -/

/-- Every row holds the JSON form of a record of its run. -/
def Table.Recorded (s : Table) : Prop :=
  ∀ (k : RunId) (row : Row), s[k]? = some row →
    ∃ run : RunRecord, run.runId = k ∧ row.payload = toValue run

namespace PostgresRunStore

variable {store : PostgresRunStore} {s : Table}

/-- The record that a row decodes to belongs to the run of the row. -/
theorem runId_of_decoded (recorded : s.Recorded) {k : RunId} {row : Row} {run : RunRecord}
    (found : s[k]? = some row) (decoded : store.readPayload row.payload = .ok run) :
    run.runId = k := by
  obtain ⟨stored, own, payload⟩ := recorded k row found
  rw [payload] at decoded
  rw [eq_of_fromValue_runRecord (of_readPayload decoded).1]
  exact own

theorem recorded_next (recorded : s.Recorded) (op : PgOp) :
    Table.Recorded ((postgres store).next s op) := by
  intro k row found
  obtain old | ⟨run, -, own, stores⟩ := next_row found
  · exact recorded k row old
  · exact ⟨run, own, stores.payload⟩

theorem recorded_after (store : PostgresRunStore) (ops : List PgOp) :
    Table.Recorded ((postgres store).after ops) := by
  refine (postgres store).after_invariant (P := Table.Recorded) ?_ ?_ ops
  · intro k row found
    simp [postgres] at found
  · exact fun s op recorded => recorded_next recorded op

/-- What a call writes on a reachable table is read back just if it is readable. -/
theorem Writes.reads_back_iff {ops : List PgOp} {op : PgOp} {run : RunRecord}
    (written : store.Writes ((postgres store).after ops) op run) :
    store.decodePayload (toValue run) = .ok run ↔ run.Readable :=
  decodePayload_toValue (written.supported fun _ _ _ found decoded =>
    runId_of_decoded (recorded_after store ops) found decoded)

/-- Every row holds a readable record. -/
def Readable (s : Table) : Prop :=
  ∀ (k : RunId) (row : Row), s[k]? = some row →
    ∃ run : RunRecord, run.Readable ∧ row.payload = toValue run

/-- A plain call writes readable records where all rows hold readable ones. -/
theorem Writes.readable (recorded : s.Recorded) (readable : Readable s) {op : PgOp}
    (plain : op.1.Plain) {run : RunRecord} (written : store.Writes s op run) : run.Readable := by
  cases written with
  | create => exact .created _ plain _ _ _
  | change target found decoded written =>
      have turn := Locked.written_turn
        (fun id member => (target id member).trans (runId_of_decoded recorded found decoded).symm)
        written
      obtain ⟨stored, ready, payload⟩ := readable _ _ found
      rw [payload] at decoded
      have read := (of_readPayload decoded).1
      rw [((reads_runRecord stored).mpr ready).eq] at read
      obtain rfl := Option.some.inj read
      exact turn.readable plain ready

theorem readable_after {ops : List PgOp} (plain : ∀ op ∈ ops, op.1.Plain) :
    Readable ((postgres store).after ops) := by
  induction ops using Machine.history_induction with
  | nil =>
      intro k row found
      simp [postgres] at found
  | concat ops op ih =>
      obtain ⟨before, last⟩ := List.forall_mem_append.mp plain
      intro k row found
      rw [Machine.after_concat] at found
      obtain old | ⟨run, written, -, stores⟩ := next_row found
      · exact ih before k row old
      · exact ⟨run, written.readable (recorded_after store ops) (ih before)
          (last op (List.mem_singleton_self op)), stores.payload⟩

/-- A written record is read back unchanged just if it is readable, and all written
records are where all calls are plain. -/
theorem written_read_back_iff (store : PostgresRunStore) (ops : List PgOp) (op : PgOp)
    (run : RunRecord) (written : store.Writes ((postgres store).after ops) op run) :
    (store.decodePayload (toValue run) = .ok run ↔ run.Readable) ∧
      ((∀ op ∈ ops, op.1.Plain) → op.1.Plain → store.decodePayload (toValue run) = .ok run) := by
  refine ⟨written.reads_back_iff, fun before last => ?_⟩
  apply written.reads_back_iff.mpr
  exact written.readable (recorded_after store ops) (readable_after before) last

end PostgresRunStore

namespace Sample

/-- A store whose column gives every value back and whose database compares texts by their
characters. -/
def storage : PostgresRunStore :=
  { jsonError := fun _ => "invalid run", fetch := .ok
    verbatim := fun fetched => (Except.ok.inj fetched).symm, collate := fun a b => decide (a ≤ b) }

/-- A database whose clock reads the given time throughout a call. -/
def database (now : Int64) : PgClock := ⟨now, fun _ => now, now.toInt⟩

/-- A run of one step, which a worker has claimed. -/
def claimedOnce : List PgOp :=
  [(.createRun (request [step "only" 1 false] []) (.at 0), database 0), (ask 0, database 0)]

/-- The worker reports the output. -/
def report (output : Json.Value) : PgOp :=
  (succeed (step "only" 1 false) 1 1 output, database 1)

/-- A record that the report writes has an output that passes the test, if one that is
computed has. -/
theorem report_writes (output : Json.Value) (test : Json.Value → Bool)
    (computed : ((postgres storage).after claimedOnce)[runId]?.any (fun row =>
      (storage.readPayload row.payload).any fun run =>
        (Locked.written run (report output)).any fun written => written.any fun run' =>
          run'.steps[(⟨"only"⟩ : StepId)]?.any fun record => record.output.any test) = true) :
    ∃ run, storage.Writes ((postgres storage).after claimedOnce) (report output) run ∧
      ∃ record value, run.steps[(⟨"only"⟩ : StepId)]? = some record ∧
        record.output = some value ∧ test value = true := by
  simp only [Option.any_eq_true, Except.any_eq_true] at computed
  obtain ⟨row, found, run, decoded, _, written, run', rfl, record, stored, value, output, passes⟩ :=
    computed
  refine ⟨run', .change ?_ found decoded written, record, value, stored, output, passes⟩
  exact fun id target => (Option.some.inj target).symm

end Sample

namespace PostgresRunStore

/-- The output `"done"` of the one step of a run is written and read back. -/
theorem written_read_back_iff_done :
    ∃ run, Sample.storage.Writes ((postgres Sample.storage).after Sample.claimedOnce)
        (Sample.report (.string "done")) run ∧
      Sample.storage.decodePayload (toValue run) = .ok run := by
  obtain ⟨run, written, -⟩ := Sample.report_writes (.string "done")
    (fun _ => true) (by decide +kernel)
  refine ⟨run, written, (written_read_back_iff _ _ _ run written).2 ?_ ?_⟩
  · refine List.forall_mem_cons.mpr ⟨⟨?_, ?_⟩, List.forall_mem_singleton.mpr trivial⟩
    · exact fun gate listed => (List.not_mem_nil listed).elim
    · exact fun gate listed => (List.not_mem_nil listed).elim
  · exact nofun

/-- The output null is written as null and read as no output. -/
theorem null_output_not_read_back :
    ¬ ∀ (store : PostgresRunStore) (ops : List PgOp) (op : PgOp) (run : RunRecord),
      store.Writes ((postgres store).after ops) op run →
        store.decodePayload (toValue run) = .ok run := by
  intro claim
  obtain ⟨run, written, record, value, stored, output, isNull⟩ := Sample.report_writes .null
    (· == .null) (by decide +kernel)
  cases value with
  | null =>
      have readable := written.reads_back_iff.mp (claim _ _ _ run written)
      exact readable.outputs _ record stored output
  | _ => cases isNull

end PostgresRunStore

end Orchestrator
