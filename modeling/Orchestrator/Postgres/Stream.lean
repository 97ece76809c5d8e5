import Orchestrator.Postgres.Persistence
import Orchestrator.Repository.Stream

/-!
# The events of a stored run as a stream

A row of the table is followed by its JSON form: a record is read again as long as
its doubles are finite and the column gives its form back, and reading it leaves its log
as it was. Where the calls store finite doubles only and the column gives back what they
write, every run can be followed, and its log is a stream as it is in the in-memory
repository.
-/

namespace Orchestrator

open Json (toValue fromValue)

/-- The log of a run as the calls on it build it. -/
structure RunRecord.Streamed (run : RunRecord) : Prop where
  payloads : run.events = run.eventLog.map EventEnvelope.event
  own : ∀ envelope ∈ run.eventLog, envelope.event.runId = run.runId
  built : ∀ envelope ∈ run.eventLog, envelope.Built
  consecutive : run.eventLog.length ≤ UInt64.maxNat → Consecutive run.eventLog

namespace RunRecord

variable {run run' : RunRecord}

theorem Streamed.created (request : RunRequest) (now eventNow : UInt64) :
    (created request now 1 eventNow).Streamed := by
  refine ⟨rfl, fun envelope member => ?_, fun envelope member => ?_, fun _ => rfl⟩
  · obtain rfl := List.mem_singleton.mp member
    rfl
  · obtain rfl := List.mem_singleton.mp member
    exact ⟨eventNow, rfl⟩

theorem Grows.extends (h : run.Grows run') : run.eventLog <+: run'.eventLog := by
  cases h with
  | silent log => simp [log]
  | event event now own log => simp [log]

theorem Grows.streamed (h : run.Grows run') (same : run'.runId = run.runId)
    (streamed : run.Streamed) : run'.Streamed := by
  cases h with
  | silent log payloads =>
      refine ⟨?_, ?_, ?_, ?_⟩
      · rw [log, payloads, streamed.payloads]
      · rw [log, same]
        exact streamed.own
      · rw [log]
        exact streamed.built
      · rw [log]
        exact streamed.consecutive
  | event event now own log payloads =>
      refine ⟨?_, fun envelope member => ?_, fun envelope member => ?_, fun room => ?_⟩
      · rw [log, payloads, streamed.payloads, List.map_append]
        rfl
      · rw [log] at member
        obtain old | new := List.mem_append.mp member
        · rw [same, streamed.own envelope old]
        · obtain rfl := List.mem_singleton.mp new
          exact own.trans same.symm
      · rw [log] at member
        obtain old | new := List.mem_append.mp member
        · exact streamed.built envelope old
        · obtain rfl := List.mem_singleton.mp new
          refine ⟨now, ?_⟩
          rw [show (eventEnvelope run.runId run.nextSequence event now).event.runId = run.runId
            from own]
          rfl
      · rw [log, List.length_append, List.length_singleton] at room
        have counted := streamed.consecutive (Nat.le_of_succ_le room)
        rw [log]
        apply counted.concat
        change run.nextSequence.toNat = run.eventLog.length + 1
        rw [nextSequence, UInt64.toNat_saturatingAdd_one, counted.last]
        rw [counted.last]
        exact room

end RunRecord

theorem Turn.extends {op : Op} {run run' : RunRecord} (h : Turn op run run') :
    run.eventLog <+: run'.eventLog :=
  h.preserves (P := fun later => run.eventLog <+: later.eventLog)
    (fun step begun => begun.trans step.grows.extends) (fun _ begun => begun) (List.prefix_refl _)

theorem Turn.streamed {op : Op} {run run' : RunRecord} (h : Turn op run run')
    (streamed : run.Streamed) : run'.Streamed :=
  h.preserves (fun step => step.grows.streamed step.sameRequest.runId)
    (fun _ ⟨payloads, own, built, consecutive⟩ => ⟨payloads, own, built, consecutive⟩) streamed

theorem Turn.finite {op : Op} {run run' : RunRecord} (h : Turn op run run')
    (measured : ∀ k metrics clock, op = .finishRun k metrics clock →
      ∀ metric ∈ metrics, metric.Finite) (finite : run.Finite) : run'.Finite := by
  have recovered : ∀ {ids run run'}, Recovered run ids run' → run.Finite → run'.Finite := by
    intro ids run run' h finite
    induction h with
    | done => exact finite
    | next step _ ih => exact ih (step.finite finite (by simp))
  cases h with
  | step asks step =>
      refine step.finite finite ?_
      rintro metrics rfl
      cases asks
      exact measured _ _ _ rfl
  | recover steps =>
      obtain ⟨workflow, manifest, metrics, decisions⟩ := recovered steps finite
      exact ⟨workflow, manifest, metrics, decisions⟩

/-- A record as the row of the run can be followed by. -/
structure RunRecord.Followed (k : RunId) (run : RunRecord) : Prop where
  own : run.runId = k
  finite : run.Finite
  supported : run.Supported
  streamed : run.Streamed

/-- A followed record is read with its log as it was. -/
theorem RunRecord.Followed.decoded {k : RunId} {run : RunRecord} (followed : run.Followed k)
    (store : PostgresRunStore) : ∃ run', store.decodePayload (Json.toValue run) = .ok run' ∧
      run'.Followed k ∧ run'.eventLog = run.eventLog := by
  obtain ⟨own, finite, supported, streamed⟩ := followed
  obtain ⟨steps, read⟩ := finite.exists_fromValue
  have kept : ({ run with steps } : RunRecord).Supported :=
    ⟨supported.schema, supported.manifest, supported.events⟩
  refine ⟨_, PostgresRunStore.decodePayload_eq_ok.mpr ⟨read, kept⟩, ⟨own, ?_, kept, ?_⟩, rfl⟩
  · exact ⟨finite.workflow, finite.manifest, finite.metrics, finite.gateDecisions⟩
  · exact ⟨streamed.payloads, streamed.own, streamed.built, streamed.consecutive⟩

/-- The call stores finite doubles: a new run has finite thresholds, and a stored run
is finished with finite metrics. -/
def Op.Measured (s : Table) : Op → Prop
  | .createRun request _ => validateRunRequest request = some (.ok ()) →
      request.idempotencyKey >>= PostgresRunStore.findKey s = none → request.runId ∉ s →
        (∀ gate ∈ request.workflow.evaluationGates, gate.Finite) ∧
          ∀ gate ∈ request.manifest.evaluationGates, gate.Finite
  | .finishRun k metrics _ => k ∈ s → ∀ metric ∈ metrics, metric.Finite
  | _ => True

namespace PostgresRunStore

variable {store : PostgresRunStore} {s : Table} {k : RunId} {run : RunRecord}

/-- The row of the run holds the record. -/
def Holds (s : Table) (k : RunId) (run : RunRecord) : Prop :=
  ∃ row, s[k]? = some row ∧ row.payload = toValue run

/-- The run that is loaded from the table, if one is. -/
def find (store : PostgresRunStore) (s : Table) (k : RunId) : Option RunRecord :=
  match store.loadRun s k with
  | .ok run => run
  | .error _ => none

/-- The log of a run, empty where none is loaded. -/
def log (store : PostgresRunStore) (s : Table) (k : RunId) : List EventEnvelope :=
  (store.find s k).elim [] RunRecord.eventLog

/-- Every row holds a record that can be followed, and gives its payload back. -/
def Streaming (store : PostgresRunStore) (s : Table) : Prop :=
  ∀ (k : RunId) (row : Row), s[k]? = some row → ∃ run : RunRecord, row.payload = toValue run ∧
    store.fetch row.payload = .ok row.payload ∧ run.Followed k

/-- The column gives back what the call writes. -/
def HandsBack (store : PostgresRunStore) (s : Table) (op : PgOp) : Prop :=
  ∀ run, store.Writes s op run → store.fetch (toValue run) = .ok (toValue run)

theorem loadRun_of_decoded {row : Row} (found : s[k]? = some row)
    (decoded : store.readPayload row.payload = .ok run) : store.loadRun s k = .ok (some run) := by
  obtain ⟨fetched, -⟩ := readPayload_ok decoded
  obtain ⟨read, supported⟩ := of_readPayload decoded
  simp only [loadRun, found, fetched, read, validateRunRecordSchema_eq_ok.mpr supported]

theorem loadRun_of_none (absent : s[k]? = none) : store.loadRun s k = .ok none := by
  simp only [loadRun, absent]

/-- What is found for a row is what the row is read as. -/
theorem Streaming.find (streaming : store.Streaming s) {row : Row}
    (found : s[k]? = some row) :
    ∃ run, store.readPayload row.payload = .ok run ∧ store.loadRun s k = .ok (some run) ∧
      store.find s k = some run ∧ run.Followed k := by
  obtain ⟨stored, payload, fetched, followed⟩ := streaming k row found
  obtain ⟨run, decoded, followed, -⟩ := followed.decoded store
  rw [← payload, ← readPayload_of_fetch fetched] at decoded
  have loaded := loadRun_of_decoded found decoded
  exact ⟨run, decoded, loaded, by simp only [PostgresRunStore.find, loaded], followed⟩

theorem Streaming.recorded (streaming : store.Streaming s) : s.Recorded := by
  intro k row found
  obtain ⟨run, payload, -, followed⟩ := streaming k row found
  exact ⟨run, followed.own, payload⟩

/-- What a measured call writes can be followed, and continues the log of its run. -/
theorem Writes.followed (streaming : store.Streaming s) {op : PgOp} (measured : op.1.Measured s)
    (written : store.Writes s op run) :
    run.Followed run.runId ∧ store.log s run.runId <+: run.eventLog := by
  have supported := written.supported fun _ _ _ found decoded =>
    runId_of_decoded streaming.recorded found decoded
  cases written with
  | @create request clock db accepted free absent =>
      obtain ⟨workflow, manifest⟩ := measured accepted free
        (fun there => by simp [Std.ExtTreeMap.mem_iff_isSome_getElem?, absent] at there)
      refine ⟨⟨rfl, ⟨workflow, manifest, ?_, ?_⟩, supported, .created _ _ _⟩, ?_⟩
      · exact fun metric member => absurd member List.not_mem_nil
      · intro name decision found
        simp [RunRecord.created, RunRecord.new, RunRecord.logged, RunRecord.pushEvent] at found
      · change store.log s request.runId <+: _
        rw [log, PostgresRunStore.find, loadRun_of_none absent]
        exact List.nil_prefix
  | @change op k row stored run target found decoded written =>
      obtain ⟨read, sameRead, -, located, followed⟩ := streaming.find found
      obtain rfl := Except.ok.inj (sameRead.symm.trans decoded)
      have turn := Locked.written_turn
        (fun id member => (target id member).trans followed.own.symm) written
      have own : run.runId = k := turn.sameRun.trans followed.own
      refine ⟨⟨rfl, turn.finite ?_ followed.finite, supported, turn.streamed followed.streamed⟩, ?_⟩
      · intro id metrics clock same
        have asked := measured
        rw [same] at asked target
        refine asked ?_
        rw [target id rfl, Std.ExtTreeMap.mem_iff_isSome_getElem?, found]
        rfl
      · rw [own, log, located]
        exact turn.extends

theorem Streaming.next (streaming : store.Streaming s) {op : PgOp} (measured : op.1.Measured s)
    (handed : store.HandsBack s op) : store.Streaming ((postgres store).next s op) := by
  intro k row found
  obtain old | ⟨run, written, rfl, stores⟩ := next_row found
  · exact streaming k row old
  · refine ⟨run, stores.payload, ?_, (written.followed streaming measured).1⟩
    rw [stores.payload]
    exact handed run written

theorem Streaming.log_next (streaming : store.Streaming s) {op : PgOp}
    (measured : op.1.Measured s) (handed : store.HandsBack s op) (k : RunId) :
    store.log s k <+: store.log ((postgres store).next s op) k := by
  cases found : s[k]? with
  | none =>
      rw [log, PostgresRunStore.find, loadRun_of_none found]
      exact List.nil_prefix
  | some old =>
      have there : k ∈ s := Std.ExtTreeMap.mem_iff_isSome_getElem?.mpr (by rw [found]; rfl)
      have stays : k ∈ (postgres store).next s op := next_stays there op
      obtain ⟨row, found'⟩ := Option.isSome_iff_exists.mp
        (Std.ExtTreeMap.mem_iff_isSome_getElem?.mp stays)
      have later := streaming.next measured handed
      obtain ⟨run', decoded', -, located', -⟩ := later.find found'
      obtain same | ⟨run, written, rfl, stores⟩ := next_row found'
      · obtain ⟨run, decoded, -, located, -⟩ := streaming.find same
        obtain rfl := Except.ok.inj (decoded.symm.trans decoded')
        simp [log, located, located']
      · obtain ⟨followed, continued⟩ := written.followed streaming measured
        obtain ⟨run'', decoded, -, sameLog⟩ := followed.decoded store
        obtain ⟨-, read⟩ := readPayload_ok decoded'
        rw [← stores.payload] at decoded
        obtain rfl := Except.ok.inj (decoded.symm.trans read)
        change _ <+: (store.find _ _).elim [] _
        rw [located', Option.elim_some, sameLog]
        exact continued

theorem Streaming.followed (streaming : store.Streaming s) (located : store.find s k = some run) :
    run.Followed k := by
  cases found : s[k]? with
  | none => simp [PostgresRunStore.find, loadRun_of_none found] at located
  | some row =>
      obtain ⟨run', -, -, located', followed⟩ := streaming.find found
      obtain rfl := Option.some.inj (located'.symm.trans located)
      exact followed

theorem Streaming.numbered (streaming : store.Streaming s)
    (room : (store.log s k).length ≤ UInt64.maxNat) :
    Cursor.Numbered EventEnvelope.sequence 0 (store.log s k) := by
  unfold log at room ⊢
  cases located : store.find s k with
  | none => exact Consecutive.nil.numbered
  | some run =>
      rw [located, Option.elim_some] at room
      exact ((streaming.followed located).streamed.consecutive room).numbered

theorem Streaming.streams (streaming : store.Streaming s)
    (room : ∀ k, (store.log s k).length ≤ UInt64.maxNat) : Streams (store.find s) := by
  refine .of_numbered ?_ ?_ ?_ ?_
  · exact fun k run located => (streaming.followed located).streamed.payloads
  · intro k run located
    have numbered := streaming.numbered (room k)
    rwa [log, located, Option.elim_some] at numbered
  · intro k run located
    have followed := streaming.followed located
    rw [← followed.own]
    exact followed.streamed.own
  · exact fun k run located => (streaming.followed located).streamed.built

/-- A request is answered from the log of the run. -/
theorem Streaming.eventsSince_cases (streaming : store.Streaming s) (k : RunId) (after : UInt64) :
    store.eventsSince s k after = .ok (Cursor.since EventEnvelope.sequence (store.log s k) after) ∨
      store.log s k = [] ∧ ∃ error, store.eventsSince s k after = .error error := by
  cases found : s[k]? with
  | none =>
      right
      simp only [log, PostgresRunStore.find, eventsSince, loadRun_of_none found]
      exact ⟨rfl, _, rfl⟩
  | some row =>
      obtain ⟨run, -, loaded, located, -⟩ := streaming.find found
      left
      simp only [log, eventsSince, located, loaded]
      rfl

/-- What a reader of the events of a run receives when its requests come between calls. -/
def received (store : PostgresRunStore) (k : RunId) (acts : List (Option PgOp)) :
    List EventEnvelope :=
  Cursor.received (postgres store) (fun s after => store.eventsSince s k after)
    EventEnvelope.sequence 0 acts

/-- The history's calls store finite doubles. -/
def Measured (store : PostgresRunStore) : List PgOp → Prop :=
  (postgres store).Along fun s op => op.1.Measured s

/-- The column gives back what the history's calls write. -/
def Retains (store : PostgresRunStore) : List PgOp → Prop :=
  (postgres store).Along store.HandsBack

theorem streaming_after {ops : List PgOp} (measured : store.Measured ops)
    (kept : store.Retains ops) :
    store.Streaming ((postgres store).after ops) := by
  induction ops using Machine.history_induction with
  | nil =>
      intro k row found
      simp [postgres] at found
  | concat ops op ih =>
      rw [Machine.after_concat]
      exact (ih measured.init kept.init).next measured.last kept.last

/-- A reader of a run receives its log, whatever measured calls come between its requests. -/
theorem received_log (store : PostgresRunStore) (k : RunId) (acts : List (Option PgOp))
    (measured : store.Measured (Cursor.inputs acts)) (kept : store.Retains (Cursor.inputs acts))
    (room : (store.log ((postgres store).after (Cursor.inputs acts)) k).length < UInt64.maxNat) :
    store.received k acts <+: store.log ((postgres store).after (Cursor.inputs acts)) k ∧
      store.received k (acts ++ [none]) =
        store.log ((postgres store).after (Cursor.inputs acts)) k := by
  have grows : ∀ ops op, store.Measured (ops ++ [op]) → store.Retains (ops ++ [op]) →
      store.log ((postgres store).after ops) k <+:
        store.log ((postgres store).after (ops ++ [op])) k := by
    intro ops op measured kept
    rw [Machine.after_concat]
    exact (streaming_after measured.init kept.init).log_next measured.last kept.last k
  refine Cursor.received_eq (fun ops => store.Measured ops ∧ store.Retains ops ∧
    (store.log ((postgres store).after ops) k).length < UInt64.maxNat)
    (fun s : Table => store.log s k) ?_ ?_ ?_ ?_ acts ⟨measured, kept, room⟩
  · rintro ops op ⟨measured, kept, room⟩
    exact ⟨measured.init, kept.init,
      Nat.lt_of_le_of_lt (grows ops op measured kept).length_le room⟩
  · rintro ops op ⟨measured, kept, -⟩
    exact grows ops op measured kept
  · rintro ops ⟨measured, kept, room⟩
    exact (streaming_after measured kept).numbered (Nat.le_of_lt room)
  · rintro ops ⟨measured, kept, -⟩ after
    exact (streaming_after measured kept).eventsSince_cases k after

/-- A held record has the log that the reader who starts at zero is given. -/
theorem Streaming.eventsSince_zero (streaming : store.Streaming s)
    (room : (store.log s k).length ≤ UInt64.maxNat) (held : Holds s k run) :
    store.eventsSince s k 0 = .ok run.eventLog := by
  obtain ⟨row, found, payload⟩ := held
  obtain ⟨read, decoded, loaded, located, -⟩ := streaming.find found
  rw [payload] at decoded
  have same : read.eventLog = run.eventLog := by
    rw [eq_of_fromValue_runRecord (of_readPayload decoded).1]
  have numbered := streaming.numbered room
  rw [log, located, Option.elim_some, same] at numbered
  have whole : Cursor.since EventEnvelope.sequence run.eventLog 0 = run.eventLog :=
    Cursor.append_since numbered List.nil_prefix
  simp only [eventsSince, loaded]
  change Except.ok (Cursor.since EventEnvelope.sequence read.eventLog 0) = _
  rw [same, whole]

/-- Where one run is stored, no other one has a log. -/
theorem log_length_lt {k : RunId} (keys : s.keys = [k])
    (room : (store.log s k).length < UInt64.maxNat) (id : RunId) :
    (store.log s id).length < UInt64.maxNat := by
  by_cases same : id = k
  · exact same ▸ room
  · have absent : s[id]? = none := by
      apply Std.ExtTreeMap.getElem?_eq_none
      rw [← Std.ExtTreeMap.mem_keys, keys]
      simpa using same
    rw [log, find, loadRun_of_none absent]
    decide

end PostgresRunStore

/-- In both repositories the events of the runs are streams, and a reader of a run
receives exactly its log. In the PostgreSQL repository this holds along histories
whose calls store finite doubles, as long as the column gives back what they write. -/
theorem event_logs_are_streams (store : PostgresRunStore) :
    (∀ ops : List Op, (repository.after ops).events.length < UInt64.maxNat →
      Streams fun k => (repository.after ops).runs[k]?) ∧
    (∀ (k : RunId) (acts : List (Option Op)),
      (repository.after (Cursor.inputs acts)).events.length < UInt64.maxNat →
        Repository.received k acts <+: (repository.after (Cursor.inputs acts)).log k ∧
          Repository.received k (acts ++ [none]) =
            (repository.after (Cursor.inputs acts)).log k) ∧
    (∀ ops : List PgOp, store.Measured ops → store.Retains ops →
      (∀ k, (store.log ((postgres store).after ops) k).length < UInt64.maxNat) →
        Streams (store.find ((postgres store).after ops)) ∧
          ∀ k run, PostgresRunStore.Holds ((postgres store).after ops) k run →
            store.eventsSince ((postgres store).after ops) k 0 = .ok run.eventLog) ∧
    ∀ (k : RunId) (acts : List (Option PgOp)), store.Measured (Cursor.inputs acts) →
      store.Retains (Cursor.inputs acts) →
      (store.log ((postgres store).after (Cursor.inputs acts)) k).length < UInt64.maxNat →
        store.received k acts <+: store.log ((postgres store).after (Cursor.inputs acts)) k ∧
          store.received k (acts ++ [none]) =
            store.log ((postgres store).after (Cursor.inputs acts)) k := by
  refine ⟨?_, Repository.received_log, ?_, store.received_log⟩
  · intro ops room
    exact (Repository.counted_after ops (Nat.le_of_lt room)).streams
  · intro ops measured kept room
    have streaming := PostgresRunStore.streaming_after measured kept
    exact ⟨streaming.streams fun k => Nat.le_of_lt (room k),
      fun k run held => streaming.eventsSince_zero (Nat.le_of_lt (room k)) held⟩

namespace Sample

/-- The run is created and cancelled, with a request of the reader before and after. -/
def reading : List (Option PgOp) :=
  [some (.createRun (request [step "only" 1 false] []) (.at 0), database 0), none,
    some (.cancelRun runId (.at 1), database 1)]

/-- The same calls to the in-memory repository. -/
def readingCalls : List (Option Op) := reading.map fun act => act.map Prod.fst

/-- The run is created and finished with a measurement that is not a number. -/
def unmeasured : List PgOp :=
  [(.createRun (request [step "only" 1 false] []) (.at 0), database 0),
    (.finishRun runId [⟨"loss", ⟨0x7ff8000000000000⟩⟩] (.at 1), database 1)]

end Sample

/-- A reader of a run receives its start before and its end after it is cancelled, from either
repository. -/
theorem event_logs_are_streams_reading :
    (Streams fun k => (repository.after (Cursor.inputs Sample.readingCalls)).runs[k]?) ∧
      Repository.received Sample.runId (Sample.readingCalls ++ [none]) =
        (repository.after (Cursor.inputs Sample.readingCalls)).log Sample.runId ∧
      Streams (Sample.storage.find
        ((postgres Sample.storage).after (Cursor.inputs Sample.reading))) ∧
      Sample.storage.received Sample.runId (Sample.reading ++ [none]) =
        Sample.storage.log ((postgres Sample.storage).after (Cursor.inputs Sample.reading))
          Sample.runId ∧
      (Sample.storage.log ((postgres Sample.storage).after (Cursor.inputs Sample.reading))
        Sample.runId).length = 2 := by
  have length : (Sample.storage.log ((postgres Sample.storage).after
      (Cursor.inputs Sample.reading)) Sample.runId).length = 2 := by decide +kernel
  have measured : Sample.storage.Measured (Cursor.inputs Sample.reading) := by
    refine (Machine.along_nil.concat fun _ _ _ => ⟨?_, ?_⟩).concat trivial
    · exact fun gate listed => (List.not_mem_nil listed).elim
    · exact fun gate listed => (List.not_mem_nil listed).elim
  have kept : Sample.storage.Retains (Cursor.inputs Sample.reading) := fun _ _ _ _ _ => rfl
  have keys : ((postgres Sample.storage).after (Cursor.inputs Sample.reading)).keys =
      [Sample.runId] := by decide +kernel
  have few : (repository.after (Cursor.inputs Sample.readingCalls)).events.length <
      UInt64.maxNat := by decide +kernel
  have room : (Sample.storage.log ((postgres Sample.storage).after
      (Cursor.inputs Sample.reading)) Sample.runId).length < UInt64.maxNat := by
    rw [length]
    decide
  obtain ⟨memory, reader, database, reader'⟩ := event_logs_are_streams Sample.storage
  exact ⟨memory _ few, (reader _ _ few).2,
    (database _ measured kept (PostgresRunStore.log_length_lt keys room)).1,
    (reader' _ _ measured kept room).2, length⟩

/-- After a run is finished with a measurement that is not a number, no request for its
events is answered. -/
theorem unread_after_nan :
    ¬ ∀ (store : PostgresRunStore) (ops : List PgOp),
      (∀ k, (store.log ((postgres store).after ops) k).length < UInt64.maxNat) →
        ∀ k run, PostgresRunStore.Holds ((postgres store).after ops) k run →
          store.eventsSince ((postgres store).after ops) k 0 = .ok run.eventLog := by
  intro claim
  have keys : ((postgres Sample.storage).after Sample.unmeasured).keys = [Sample.runId] := by
    decide +kernel
  have unread : (Sample.storage.log ((postgres Sample.storage).after Sample.unmeasured)
      Sample.runId).length = 0 := by decide +kernel
  have refused : ((Sample.storage.eventsSince ((postgres Sample.storage).after Sample.unmeasured)
      Sample.runId 0).any fun _ => true) = false := by decide +kernel
  have there : Sample.runId ∈ (postgres Sample.storage).after Sample.unmeasured := by
    rw [← Std.ExtTreeMap.mem_keys, keys]
    exact List.mem_singleton_self _
  obtain ⟨row, found⟩ := Option.isSome_iff_exists.mp
    (Std.ExtTreeMap.mem_iff_isSome_getElem?.mp there)
  obtain ⟨run, -, payload⟩ := PostgresRunStore.recorded_after _ _ _ row found
  have answered := claim Sample.storage Sample.unmeasured ?_ Sample.runId run ⟨row, found, payload⟩
  · rw [answered] at refused
    cases refused
  · apply PostgresRunStore.log_length_lt keys
    rw [unread]
    decide

end Orchestrator
