import Orchestrator.Postgres.Turn

/-!
# Histories of the PostgreSQL repository

`postgres store` is the machine whose inputs are the calls that the in-memory
repository has, each with what it reads from the clock of the database. A call
changes the table only where it writes a record into its row: `Writes` are the
records that a call can write.
-/

namespace Orchestrator

open Json (toValue)

/-- The row holds the record, in its payload and in the columns that queries look at. -/
structure Row.Stores (row : Row) (run : RunRecord) : Prop where
  payload : row.payload = toValue run
  revision : toI64 run.revision = .ok row.revision
  leaseExpiresAtMs : run.leaseExpiryMs = .ok row.leaseExpiresAtMs

namespace PostgresRunStore

/-- Runs one call. -/
def step (store : PostgresRunStore) (s : Table) : PgOp → Response × Table
  | (.createRun request clock, db) => Prod.map .created id (store.createRun s request clock db)
  | (.claimNextStep runId worker leaseMs _, db) =>
    Prod.map .claimed id (store.claimNextStep s runId worker leaseMs db)
  | (.renewStep claim leaseMs _, db) => Prod.map .renewed id (store.renewStep s claim leaseMs db)
  | (.completeStep claim completion clock, db) =>
    Prod.map .completed id (store.completeStep s claim completion clock db)
  | (.recordEvent runId event clock, db) =>
    Prod.map .recorded id (store.recordEvent s runId event clock db)
  | (.finishRun runId metrics clock, db) =>
    Prod.map .finished id (store.finishRun s runId metrics clock db)
  | (.cancelRun runId clock, db) => Prod.map .cancelled id (store.cancelRun s runId clock db)
  | (.recoverExpired clock, db) => Prod.map .recovered id (store.recoverExpired s clock db)

end PostgresRunStore

/-- The PostgreSQL repository, starting with an empty table. -/
def postgres (store : PostgresRunStore) : Machine Table PgOp Response := ⟨∅, store.step⟩

namespace PostgresRunStore

/-- The records that a call can write: that of the run it creates, and what it makes
of a record that it has locked and decoded. -/
inductive Writes (store : PostgresRunStore) (s : Table) : PgOp → RunRecord → Prop where
  | create {request : RunRequest} {clock : Clock} {db : PgClock}
      (accepted : validateRunRequest request = some (.ok ()))
      (free : request.idempotencyKey >>= findKey s = none) (absent : s[request.runId]? = none) :
      Writes store s (.createRun request clock, db)
        (.created request (clock.call 0) 1 (clock.call 1))
  | change {op : PgOp} {k : RunId} {row : Row} {run run' : RunRecord}
      (target : ∀ id ∈ op.1.target, id = k) (found : s[k]? = some row)
      (decoded : store.readPayload row.payload = .ok run)
      (written : Locked.written run op = .ok (some run')) : Writes store s op run'

/-- One row now holds the record and the others are as they were. -/
structure Puts (s : Table) (run : RunRecord) (s' : Table) : Prop where
  row : ∃ row, s'[run.runId]? = some row ∧ row.Stores run
  others : ∀ id, id ≠ run.runId → s'[id]? = s[id]?

variable {store : PostgresRunStore} {s s' : Table}

theorem loadLocked_eq_ok {k : RunId} {run : RunRecord} :
    store.loadLocked s k = .ok (some run) ↔
      ∃ row, s[k]? = some row ∧ store.readPayload row.payload = .ok run := by
  unfold loadLocked
  cases s[k]? with
  | none => simp
  | some row => simp

theorem loadLocked_eq_ok_none {k : RunId} : store.loadLocked s k = .ok none ↔ s[k]? = none := by
  unfold loadLocked
  cases s[k]? with
  | none => simp
  | some row => simp

theorem insertRow_eq_some {k : RunId} {row : Row} (h : insertRow s k row = some s') :
    s' = s.insert k row := by
  unfold insertRow at h
  split at h
  · cases h
  · exact (Option.some.inj h).symm

theorem puts_insert {run : RunRecord} {row : Row} (stores : row.Stores run) :
    Puts s run (s.insert run.runId row) := by
  refine ⟨⟨row, ?_, stores⟩, fun id other => ?_⟩
  · rw [BTreeMap.getElem?_insert, if_pos rfl]
  · rw [BTreeMap.getElem?_insert, if_neg (Ne.symm other)]

theorem persistLocked_puts {run : RunRecord} {transaction : Int}
    (h : persistLocked s run transaction = .ok s') : Puts s run s' := by
  unfold persistLocked at h
  obtain ⟨revision, fits, h⟩ := Except.bind_eq_ok.mp h
  obtain ⟨leaseExpiresAtMs, expires, h⟩ := Except.bind_eq_ok.mp h
  split at h
  · simp at h
  · split at h
    · obtain rfl := Except.ok.inj h
      exact puts_insert ⟨rfl, fits, expires⟩
    · simp at h

/-- The record may be written: its numbers fit and it is newer than what its row holds. -/
def Persists (s : Table) (run : RunRecord) : Prop :=
  ∃ revision expiry row, toI64 run.revision = .ok revision ∧ run.leaseExpiryMs = .ok expiry ∧
    s[run.runId]? = some row ∧ row.revision < revision

theorem exists_persistLocked (run : RunRecord) (transaction : Int) :
    (∃ s', persistLocked s run transaction = .ok s') ↔ Persists s run := by
  unfold persistLocked
  constructor
  · rintro ⟨s', h⟩
    obtain ⟨revision, fits, h⟩ := Except.bind_eq_ok.mp h
    obtain ⟨expiry, expires, h⟩ := Except.bind_eq_ok.mp h
    split at h
    · simp at h
    next row found =>
      split at h
      next newer => exact ⟨revision, expiry, row, fits, expires, found, newer⟩
      · simp at h
  · rintro ⟨revision, expiry, row, fits, expires, found, newer⟩
    simp only [bind, Except.bind, fits, expires, found, if_pos newer]
    exact ⟨_, rfl⟩

/-- When a transition succeeds. -/
theorem transition_eq_ok {α : Type} {k : RunId} {db : PgClock}
    {act : RunRecord → Except RepositoryError (α × Option RunRecord)} {answer : α} :
    (store.transition s k db act).1 = .ok answer ↔
      ∃ row run written, s[k]? = some row ∧ store.readPayload row.payload = .ok run ∧
        act run = .ok (answer, written) ∧ ∀ run' ∈ written, Persists s run' := by
  unfold transition
  constructor
  · intro h
    split at h
    · simp at h
    · simp at h
    next run loaded =>
      obtain ⟨row, found, decoded⟩ := loadLocked_eq_ok.mp loaded
      split at h
      · simp at h
      next result acted =>
        obtain rfl := Except.ok.inj h
        exact ⟨row, run, none, found, decoded, acted, by simp⟩
      next result run' acted =>
        split at h
        · simp at h
        next s' persisted =>
          obtain rfl := Except.ok.inj h
          refine ⟨row, run, some run', found, decoded, acted, fun _ same => ?_⟩
          obtain rfl := Option.some.inj same
          exact (exists_persistLocked run' db.transaction).mp ⟨s', persisted⟩
  · rintro ⟨row, run, written, found, decoded, acted, persists⟩
    simp only [loadLocked_eq_ok.mpr ⟨row, found, decoded⟩, acted]
    cases written with
    | none => rfl
    | some run' =>
        obtain ⟨s', persisted⟩ := (exists_persistLocked run' db.transaction).mpr (persists run' rfl)
        simp only [persisted]

/-- A row of the later table was there before, or holds the record that was put. -/
theorem Puts.row_cases {run : RunRecord} (puts : Puts s run s') {id : RunId} {row : Row}
    (h : s'[id]? = some row) :
    s[id]? = some row ∨ run.runId = id ∧ row.Stores run := by
  by_cases other : id = run.runId
  · obtain ⟨row', found, stores⟩ := puts.row
    rw [other, found] at h
    obtain rfl := Option.some.inj h
    exact .inr ⟨other.symm, stores⟩
  · rw [puts.others id other] at h
    exact .inl h

/-- A transition leaves the table as it was, or puts what it made of the locked run. -/
theorem transition_cases {α : Type} (s : Table) (k : RunId) (db : PgClock)
    (act : RunRecord → Except RepositoryError (α × Option RunRecord)) :
    (store.transition s k db act).2 = s ∨
      ∃ (row : Row) (run run' : RunRecord), s[k]? = some row ∧
        store.readPayload row.payload = .ok run ∧ (act run).map Prod.snd = .ok (some run') ∧
        Puts s run' (store.transition s k db act).2 := by
  unfold transition
  split
  · exact .inl rfl
  · exact .inl rfl
  next run loaded =>
    obtain ⟨row, found, decoded⟩ := loadLocked_eq_ok.mp loaded
    split
    · exact .inl rfl
    · exact .inl rfl
    next answer run' acted =>
      split
      · exact .inl rfl
      next s' persisted =>
        refine .inr ⟨row, run, run', found, decoded, ?_, persistLocked_puts persisted⟩
        rw [acted]
        rfl

/-- The record that `create_run` writes. -/
theorem appendRunEvent_created {request : RunRequest} {now eventNow : UInt64}
    {envelope : EventEnvelope} {run : RunRecord}
    (h : ({ RunRecord.new request.runId request.workflow request.manifest request.input now with
        status := .running, idempotencyKey := request.idempotencyKey } : RunRecord).appendRunEvent
      (.runStarted request.runId request.workflow.id) eventNow = .ok (envelope, run)) :
    run = .created request now 1 eventNow := by
  obtain ⟨-, -, rfl⟩ := RunRecord.appendRunEvent_eq_ok.mp h
  rfl

/-- A creation leaves the table as it was, or puts the created run. -/
theorem createRun_cases (s : Table) (request : RunRequest) (clock : Clock) (db : PgClock) :
    (store.createRun s request clock db).2 = s ∨
      ∃ run, store.Writes s (.createRun request clock, db) run ∧
        Puts s run (store.createRun s request clock db).2 := by
  unfold createRun
  split
  · exact .inl rfl
  · exact .inl rfl
  next accepted =>
    split
    · exact .inl rfl
    next free =>
      split
      · exact .inl rfl
      · exact .inl rfl
      next absent =>
        simp only []
        split
        · exact .inl rfl
        · exact .inl rfl
        next envelope run expiry appended expires =>
          split
          · exact .inl rfl
          next revision fits =>
            split
            next s' inserted =>
              obtain rfl := appendRunEvent_created appended
              obtain rfl := insertRow_eq_some inserted
              exact .inr ⟨_, .create accepted free (loadLocked_eq_ok_none.mp absent),
                puts_insert ⟨rfl, fits, expires⟩⟩
            · split <;> exact .inl rfl

theorem createRun_row {request : RunRequest} {clock : Clock} {db : PgClock} {id : RunId}
    {row : Row} (h : (store.createRun s request clock db).2[id]? = some row) :
    s[id]? = some row ∨ ∃ run, store.Writes s (.createRun request clock, db) run ∧
      run.runId = id ∧ row.Stores run := by
  obtain same | ⟨run, written, puts⟩ := store.createRun_cases s request clock db
  · rw [same] at h
    exact .inl h
  · obtain old | ⟨own, stores⟩ := puts.row_cases h
    · exact .inl old
    · exact .inr ⟨run, written, own, stores⟩

theorem transition_row {α : Type} {op : PgOp} {k : RunId} {db : PgClock}
    {act : RunRecord → Except RepositoryError (α × Option RunRecord)}
    (target : op.1.target = some k)
    (written : ∀ run, Locked.written run op = (act run).map Prod.snd) {id : RunId} {row : Row}
    (h : (store.transition s k db act).2[id]? = some row) :
    s[id]? = some row ∨ ∃ run, store.Writes s op run ∧ run.runId = id ∧ row.Stores run := by
  obtain same | ⟨old, run, run', found, decoded, acted, puts⟩ := store.transition_cases s k db act
  · rw [same] at h
    exact .inl h
  · obtain unchanged | ⟨own, stores⟩ := puts.row_cases h
    · exact .inl unchanged
    · refine .inr ⟨run', .change (fun id member => ?_) found decoded ((written run).trans acted),
        own, stores⟩
      rw [target] at member
      exact (Option.some.inj member).symm

theorem recoverRows_row {now : UInt64} {clock : Clock} {db : PgClock} {s₀ : Table}
    (reading : toU64 db.now = .ok now) {payloads : List Json.Value}
    (fetched : ∀ payload ∈ payloads, ∃ (k : RunId) (row : Row), s₀[k]? = some row ∧
      row.payload = payload) {expired expired' : List (RunId × StepId)}
    (h : store.recoverRows now clock db s payloads expired = .ok (expired', s')) {id : RunId}
    {row : Row} (hr : s'[id]? = some row) :
    s[id]? = some row ∨ ∃ run, store.Writes s₀ (.recoverExpired clock, db) run ∧
      run.runId = id ∧ row.Stores run := by
  induction payloads generalizing s expired with
  | nil =>
      simp only [recoverRows, Except.ok.injEq, Prod.mk.injEq] at h
      obtain ⟨-, rfl⟩ := h
      exact .inl hr
  | cons payload rest ih =>
      obtain ⟨⟨k, old, found, rfl⟩, others⟩ := List.forall_mem_cons.mp fetched
      unfold recoverRows at h
      obtain ⟨run, decoded, h⟩ := Except.bind_eq_ok.mp h
      obtain ⟨⟨more, written⟩, acted, h⟩ := Except.bind_eq_ok.mp h
      cases written with
      | none => exact ih others h
      | some run' =>
          obtain ⟨middle, persisted, h⟩ := Except.bind_eq_ok.mp h
          obtain unchanged | changed := ih others h
          · obtain unchanged | ⟨own, stores⟩ := (persistLocked_puts persisted).row_cases unchanged
            · exact .inl unchanged
            · refine .inr ⟨run', .change (fun id member => nomatch member) found decoded ?_, own,
                stores⟩
              exact Except.bind_eq_ok.mpr ⟨now, reading, Except.map_eq_ok.mpr ⟨_, acted, rfl⟩⟩
          · exact .inr changed

/-- Rows come in the order of their times, in whatever way texts are collated. -/
theorem sorted_orderBy (store : PostgresRunStore) (time : Row → Int) (rows : List (RunId × Row)) :
    (rows.insertionSort (store.orderBy time)).Pairwise fun a b => time a.2 ≤ time b.2 := by
  apply List.pairwise_insertionSort_key
  · rintro a b (earlier | ⟨same, -⟩)
    · exact Int.le_of_lt earlier
    · exact Int.le_of_eq same
  · intro a b last
    by_contra later
    exact last (.inl (Int.not_le.mp later))

theorem mem_expiredRows {now : Int64} {entry : RunId × Row}
    (h : entry ∈ store.expiredRows s now) : s[entry.1]? = some entry.2 := by
  have member := List.mem_of_mem_take h
  rw [List.mem_insertionSort, List.mem_filter] at member
  exact Std.ExtTreeMap.mem_toList_iff_getElem?_eq_some.mp member.1

/-- A row after a call was there before, or holds a record that the call wrote. -/
theorem next_row {op : PgOp} {id : RunId} {row : Row}
    (h : ((postgres store).next s op)[id]? = some row) :
    s[id]? = some row ∨ ∃ run, store.Writes s op run ∧ run.runId = id ∧ row.Stores run := by
  obtain ⟨op, db⟩ := op
  cases op with
  | createRun request clock => exact createRun_row h
  | claimNextStep runId worker leaseMs clock =>
      exact transition_row rfl (fun _ => rfl) h
  | renewStep claim leaseMs clock =>
      exact transition_row rfl (fun _ => rfl) h
  | completeStep claim completion clock =>
      exact transition_row rfl (fun _ => rfl) h
  | recordEvent runId event clock =>
      exact transition_row rfl (fun _ => rfl) h
  | finishRun runId metrics clock =>
      exact transition_row rfl (fun _ => rfl) h
  | cancelRun runId clock =>
      exact transition_row rfl (fun _ => rfl) h
  | recoverExpired clock =>
      change (store.recoverExpired s clock db).2[id]? = some row at h
      unfold recoverExpired at h
      split at h
      · exact .inl h
      next expired s' recovered =>
        obtain ⟨now, reading, recovered⟩ := Except.bind_eq_ok.mp recovered
        obtain ⟨limit, -, recovered⟩ := Except.bind_eq_ok.mp recovered
        refine recoverRows_row reading ?_ recovered h
        intro payload member
        obtain ⟨entry, fetched, rfl⟩ := List.mem_map.mp member
        exact ⟨entry.1, entry.2, mem_expiredRows fetched, rfl⟩

/-- A row stays in the table. -/
theorem Puts.stays {run : RunRecord} (puts : Puts s run s') {id : RunId} (there : id ∈ s) :
    id ∈ s' := by
  by_cases other : id = run.runId
  · obtain ⟨row, found, -⟩ := puts.row
    rw [other]
    exact Std.ExtTreeMap.mem_iff_isSome_getElem?.mpr (by rw [found]; rfl)
  · rw [Std.ExtTreeMap.mem_iff_isSome_getElem?] at there ⊢
    rwa [puts.others id other]

theorem transition_stays {α : Type} {k : RunId} {db : PgClock}
    {act : RunRecord → Except RepositoryError (α × Option RunRecord)} {id : RunId}
    (there : id ∈ s) : id ∈ (store.transition s k db act).2 := by
  obtain same | ⟨_, _, _, -, -, -, puts⟩ := store.transition_cases s k db act
  · rwa [same]
  · exact puts.stays there

theorem recoverRows_stays {now : UInt64} {clock : Clock} {db : PgClock}
    {payloads : List Json.Value} {expired expired' : List (RunId × StepId)}
    (h : store.recoverRows now clock db s payloads expired = .ok (expired', s')) {id : RunId}
    (there : id ∈ s) : id ∈ s' := by
  induction payloads generalizing s expired with
  | nil =>
      simp only [recoverRows, Except.ok.injEq, Prod.mk.injEq] at h
      obtain ⟨-, rfl⟩ := h
      exact there
  | cons payload rest ih =>
      unfold recoverRows at h
      obtain ⟨run, -, h⟩ := Except.bind_eq_ok.mp h
      obtain ⟨⟨more, written⟩, -, h⟩ := Except.bind_eq_ok.mp h
      cases written with
      | none => exact ih h there
      | some run' =>
          obtain ⟨middle, persisted, h⟩ := Except.bind_eq_ok.mp h
          exact ih h ((persistLocked_puts persisted).stays there)

/-- No call takes a row away. -/
theorem next_stays {id : RunId} (there : id ∈ s) (op : PgOp) : id ∈ (postgres store).next s op := by
  obtain ⟨op, db⟩ := op
  cases op with
  | createRun request clock =>
      change id ∈ (store.createRun s request clock db).2
      obtain same | ⟨_, -, puts⟩ := store.createRun_cases s request clock db
      · rwa [same]
      · exact puts.stays there
  | recoverExpired clock =>
      change id ∈ (store.recoverExpired s clock db).2
      unfold recoverExpired
      split
      · exact there
      next expired s' recovered =>
        obtain ⟨now, -, recovered⟩ := Except.bind_eq_ok.mp recovered
        obtain ⟨limit, -, recovered⟩ := Except.bind_eq_ok.mp recovered
        exact recoverRows_stays recovered there
  | _ => exact transition_stays there

end PostgresRunStore

end Orchestrator
