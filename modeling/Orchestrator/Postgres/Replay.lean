import Orchestrator.Postgres.Session

/-!
# The stages of a call

Whatever other sessions do, a call that has locked a row goes on as the transition of the
model does from the table as it now stands. So the transactions of the repository leave the
records of the table lasting and their keys alone, and none of them waits while it holds a
lock.
-/

namespace Orchestrator

open Json (Value toValue fromValue)

/-- No change of a locked run changes its key. -/
theorem LockedStep.idempotencyKey {action : RunAction} {run run' : RunRecord}
    (h : LockedStep action run run') : run'.idempotencyKey = run.idempotencyKey := by
  cases h with
  | complete => simp [RunRecord.logged, RunRecord.pushEvent, RunRecord.commit,
      RunRecord.noteFailure_eq, RunRecord.setStep, RunRecord.bump]
  | settle => simp [RunRecord.settle_eq, RunRecord.setMetrics, RunRecord.bump]
  | finish =>
      simp [RunRecord.logged, RunRecord.pushEvent, RunRecord.settle_eq, RunRecord.setMetrics,
        RunRecord.bump]
  | recover => simp [RunRecord.logged, RunRecord.pushEvent, RunRecord.noteRecovery_eq,
      RunRecord.setStep]
  | _ => rfl

theorem Turn.idempotencyKey {op : Op} {run run' : RunRecord} (h : Turn op run run') :
    run'.idempotencyKey = run.idempotencyKey :=
  h.preserves (P := fun later => later.idempotencyKey = run.idempotencyKey)
    (fun step same => step.idempotencyKey.trans same) (fun _ same => same) rfl

/-- A property that neither reading a record back nor a turn of a run loses. -/
structure Enduring (P : RunRecord → Prop) : Prop where
  read : ∀ {run run' : RunRecord}, fromValue (toValue run) = some run' → P run → P run'
  turn : ∀ {op : Op} {run run' : RunRecord}, Turn op run run' → P run → P run'

/-- An enduring property that created runs have. -/
structure Lasting (P : RunRecord → Prop) : Prop extends Enduring P where
  created : ∀ request now eventNow, validateRunRequest request = some (.ok ()) →
    P (.created request now 1 eventNow)

/-- The row holds a record of the run, under its key and with the property. -/
def Row.Keeps (P : RunRecord → Prop) (k : RunId) (row : Row) : Prop :=
  ∃ run : RunRecord, run.runId = k ∧ row.Stores run ∧ row.idempotencyKey = run.idempotencyKey ∧
    P run

namespace PostgresRunStore

variable {store : PostgresRunStore} {P : RunRecord → Prop} {s : Table} {past : Nat → Table → Prop}
variable {k : RunId} {row : Row} {run run' : RunRecord} {db : PgClock}

/-- What a row that keeps a record is decoded to. -/
theorem decoded_of_keeps (enduring : Enduring P) (keeps : row.Keeps P k)
    (decoded : store.readPayload row.payload = .ok run) :
    run.runId = k ∧ run.idempotencyKey = row.idempotencyKey ∧ P run := by
  obtain ⟨stored, own, stores, key, holds⟩ := keeps
  rw [stores.payload] at decoded
  have back := (of_readPayload decoded).1
  refine ⟨?_, ?_, enduring.read back holds⟩
  · rw [eq_of_fromValue_runRecord back]
    exact own
  · rw [eq_of_fromValue_runRecord back]
    exact key.symm

/-- The row that is written for a record. -/
def rowOf (run : RunRecord) (transaction : Int) (revision : Int64) (expiry : Option Int64) : Row :=
  { revision, payload := toValue run, idempotencyKey := run.idempotencyKey
    leaseExpiresAtMs := expiry, updatedAt := transaction }

/-- Writing a locked record ends as `persist_locked` does on the rows that the transaction
sees. -/
theorem reaches_persist {transaction : Int} {next : Except RepositoryError Unit → Program}
    {held : List RunId} {writes : List (RunId × Row)} {clock : Nat}
    {stage : Stage RunId Row Response} (locked : run.runId ∈ held)
    (h : store.protocol.Reaches s past ⟨persist run transaction next, held, writes, clock⟩ stage) :
    (∃ revision expiry guard after, toI64 run.revision = .ok revision ∧
      run.leaseExpiryMs = .ok expiry ∧ stage = ⟨.update run.runId guard
        (rowOf run transaction revision expiry) after, held, writes, clock⟩) ∨
    (∃ n error, persistLocked (s.overlay writes) run transaction = .error error ∧
      store.protocol.Reaches s past ⟨next (.error error), held, writes, n⟩ stage) ∨
    ∃ n revision expiry, toI64 run.revision = .ok revision ∧ run.leaseExpiryMs = .ok expiry ∧
      persistLocked (s.overlay writes) run transaction =
        .ok (s.overlay (writes ++ [(run.runId, rowOf run transaction revision expiry)])) ∧
      store.protocol.Reaches s past ⟨next (.ok ()), run.runId :: held,
        writes ++ [(run.runId, rowOf run transaction revision expiry)], n⟩ stage := by
  unfold persist at h
  simp only [persistLocked, bind, Except.bind]
  split at h
  next _ error large =>
    rw [large]
    exact .inr (.inl ⟨clock, error, rfl, h⟩)
  next revision error fits large =>
    rw [fits, large]
    exact .inr (.inl ⟨clock, error, rfl, h⟩)
  next revision expiry fits expires =>
    rw [fits, expires]
    obtain rfl | ⟨n, old, -, seen, passes, after⟩ | ⟨n, moment, -, -, fails, same, after⟩ :=
      h.update
    · exact .inl ⟨revision, expiry, _, _, rfl, rfl, rfl⟩
    · refine .inr (.inr ⟨n, revision, expiry, rfl, rfl, ?_, after⟩)
      simp only [seen, if_pos (of_decide_eq_true passes), BTreeMap.overlay_concat]
      rfl
    · refine .inr (.inl ⟨n, .conflict run.runId, ?_, after⟩)
      simp only [same locked]
      split
      · rfl
      next old seen => simp only [if_neg (of_decide_eq_false (fails old seen))]

/-- Where a transition stands: before its row is locked, after its row was missing, at an end
that the transition of the model has on the table as it now stands, or before its write. -/
inductive Transits (store : PostgresRunStore) (s : Table) (past : Nat → Table → Prop) (k : RunId)
    (db : PgClock) {α : Type} (respond : Except RepositoryError α → Response)
    (act : RunRecord → Except RepositoryError (α × Option RunRecord)) :
    Stage RunId Row Response → Prop where
  | locking (clock : Nat) :
      Transits store s past k db respond act
        ⟨store.transitionProgram k db respond act, [], [], clock⟩
  | missing {n : Nat} {moment : Table} (been : past n moment) (absent : moment[k]? = none) :
      Transits store s past k db respond act
        ⟨.rollback (respond (.error (.runNotFound k))), [], [], n⟩
  | rolled {stage : Stage RunId Row Response} {answer : Except RepositoryError α}
      (rest : stage.rest = .rollback (respond answer))
      (result : store.transition s k db act = (answer, s)) :
      Transits store s past k db respond act stage
  | committed {stage : Stage RunId Row Response} {answer : Except RepositoryError α}
      (rest : stage.rest = .commit (respond answer))
      (result : store.transition s k db act = (answer, stage.view s)) :
      Transits store s past k db respond act stage
  | writing {row : Row} {run run' : RunRecord} {answer : α} {revision : Int64}
      {expiry : Option Int64} {guard : Row → Bool} {next : Bool → Program} {clock : Nat}
      (found : s[k]? = some row) (decoded : store.readPayload row.payload = .ok run)
      (acted : act run = .ok (answer, some run')) (fits : toI64 run'.revision = .ok revision)
      (expires : run'.leaseExpiryMs = .ok expiry) :
      Transits store s past k db respond act
        ⟨.update k guard (rowOf run' db.transaction revision expiry) next, [k], [], clock⟩

theorem reaches_transition {began : Nat} {α : Type}
    {respond : Except RepositoryError α → Response}
    {act : RunRecord → Except RepositoryError (α × Option RunRecord)}
    {stage : Stage RunId Row Response}
    (keeps : ∀ (k : RunId) (row : Row), s[k]? = some row → row.Keeps P k)
    (lasting : Lasting P)
    (own : ∀ {run answer run'}, run.runId = k → act run = .ok (answer, some run') → run'.runId = k)
    (h : store.protocol.Reaches s past ⟨store.transitionProgram k db respond act, [], [], began⟩
      stage) : store.Transits s past k db respond act stage := by
  obtain rfl | ⟨n, k', row, -, found, same, after⟩ | ⟨n, moment, -, been, absent, after⟩ := h.lock
  · exact .locking began
  · obtain rfl : k' = k := by simpa [hasId] using same
    rw [BTreeMap.overlay_nil] at found
    simp only [transitionLocked] at after
    split at after
    next error failed =>
      obtain rfl := after.rollback
      exact .rolled rfl (by simp only [transition, loadLocked, found, failed, Except.map])
    next run decoded =>
      split at after
      next error failed =>
        obtain rfl := after.rollback
        exact .rolled rfl
          (by simp only [transition, loadLocked, found, decoded, Except.map, failed])
      next answer acted =>
        obtain rfl := after.commit
        exact .committed rfl
          (by simp only [transition, loadLocked, found, decoded, Except.map, acted]; rfl)
      next answer run' acted =>
        have stays := own (decoded_of_keeps lasting.toEnduring (keeps _ _ found) decoded).1 acted
        subst stays
        obtain ⟨revision, expiry, guard, next, fits, expires, rfl⟩ | ⟨n, error, failed, after⟩ |
          ⟨n, revision, expiry, fits, expires, persisted, after⟩ :=
            reaches_persist List.mem_cons_self after
        · exact .writing found decoded acted fits expires
        · obtain rfl := after.rollback
          refine .rolled rfl ?_
          simp only [transition, loadLocked, found, decoded, Except.map, acted]
          rw [BTreeMap.overlay_nil] at failed
          rw [failed]
        · obtain rfl := after.commit
          refine .committed rfl ?_
          simp only [transition, loadLocked, found, decoded, Except.map, acted]
          rw [BTreeMap.overlay_nil] at persisted
          rw [persisted]
          rfl
  · obtain rfl := after.rollback
    refine .missing been ?_
    cases there : moment[k]? with
    | none => rfl
    | some row =>
        have other := absent k row there
        simp [hasId] at other

/-- Where the transaction of a recovery stands after its rows were locked: at an end that the
model has on the rows that it sees, or before a write. -/
inductive Recovers (store : PostgresRunStore) (P : RunRecord → Prop) (s : Table) (now : UInt64)
    (clock : Clock) (db : PgClock) (seen : Table) (payloads : List Value)
    (expired : List (RunId × StepId)) :
    Stage RunId Row Response → Prop where
  | rolled {stage : Stage RunId Row Response} {error : RepositoryError}
      (rest : stage.rest = .rollback (.recovered (.error error)))
      (result : store.recoverRows now clock db seen payloads expired = .error error) :
      Recovers store P s now clock db seen payloads expired stage
  | committed {stage : Stage RunId Row Response} {expired' : List (RunId × StepId)}
      (rest : stage.rest = .commit (.recovered (.ok expired')))
      (result : store.recoverRows now clock db seen payloads expired =
        .ok (expired', stage.view s)) :
      Recovers store P s now clock db seen payloads expired stage
  | writing {stage : Stage RunId Row Response} {k : RunId} {row : Row} {run run' : RunRecord}
      {more : List (RunId × StepId)} {revision : Int64} {expiry : Option Int64}
      {guard : Row → Bool} {next : Bool → Program} (found : (stage.view s)[k]? = some row)
      (decoded : store.readPayload row.payload = .ok run) (keeps : row.Keeps P k)
      (acted : Locked.recoverExpired run now clock = .ok (more, some run'))
      (fits : toI64 run'.revision = .ok revision) (expires : run'.leaseExpiryMs = .ok expiry)
      (locked : k ∈ stage.held)
      (rest : stage.rest = .update k guard (rowOf run' db.transaction revision expiry) next) :
      Recovers store P s now clock db seen payloads expired stage

theorem Recovers.congr {now : UInt64} {clock : Clock} {seen seen' : Table}
    {payloads payloads' : List Value} {expired expired' : List (RunId × StepId)}
    {stage : Stage RunId Row Response}
    (h : store.Recovers P s now clock db seen' payloads' expired' stage)
    (same : store.recoverRows now clock db seen payloads expired =
      store.recoverRows now clock db seen' payloads' expired') :
    store.Recovers P s now clock db seen payloads expired stage := by
  cases h with
  | rolled rest result => exact .rolled rest (same.trans result)
  | committed rest result => exact .committed rest (same.trans result)
  | writing found decoded keeps acted fits expires locked rest =>
      exact .writing found decoded keeps acted fits expires locked rest

theorem reaches_recoverRows {now : UInt64} {clock : Clock} {rows : List (RunId × Row)}
    {expired : List (RunId × StepId)} {held : List RunId} {writes : List (RunId × Row)} {n : Nat}
    {stage : Stage RunId Row Response} (lasting : Lasting P)
    (distinct : (rows.map Prod.fst).Nodup)
    (seen : ∀ entry ∈ rows, (s.overlay writes)[entry.1]? = some entry.2 ∧ entry.1 ∈ held ∧
      entry.2.Keeps P entry.1)
    (h : store.protocol.Reaches s past ⟨store.recoverRowsProgram now clock db
      (rows.map fun entry => entry.2.payload) expired, held, writes, n⟩ stage) :
    store.Recovers P s now clock db (s.overlay writes) (rows.map fun entry => entry.2.payload)
      expired stage := by
  induction rows generalizing expired held writes n with
  | nil =>
      obtain rfl := h.commit
      exact .committed rfl rfl
  | cons entry rows ih =>
      obtain ⟨k, row⟩ := entry
      rw [List.map_cons, List.nodup_cons] at distinct
      obtain ⟨⟨found, locked, keeps⟩, others⟩ := List.forall_mem_cons.mp seen
      simp only [List.map_cons, recoverRowsProgram] at h
      split at h
      next error failed =>
        obtain rfl := h.rollback
        exact .rolled rfl (by simp only [List.map_cons, recoverRows, bind, Except.bind, failed])
      next run decoded =>
        obtain own := (decoded_of_keeps lasting.toEnduring keeps decoded).1
        split at h
        next error failed =>
          obtain rfl := h.rollback
          exact .rolled rfl
            (by simp only [List.map_cons, recoverRows, bind, Except.bind, decoded, failed])
        next more acted =>
          refine (ih distinct.2 others h).congr ?_
          simp only [List.map_cons, recoverRows, bind, Except.bind, decoded, acted]
        next more run' acted =>
          have stays : run'.runId = k := (Locked.recoverExpired_turn acted).sameRun.trans own
          subst stays
          obtain ⟨revision, expiry, guard, next, fits, expires, rfl⟩ | ⟨n, error, failed, after⟩ |
            ⟨n, revision, expiry, fits, expires, persisted, after⟩ := reaches_persist locked h
          · exact .writing found decoded keeps acted fits expires locked rfl
          · obtain rfl := after.rollback
            refine .rolled rfl ?_
            simp only [List.map_cons, recoverRows, bind, Except.bind, decoded, acted, failed]
          · refine (ih distinct.2 (fun entry member => ?_) after).congr ?_
            · obtain ⟨found', locked', keeps'⟩ := others entry member
              have apart : run'.runId ≠ entry.1 := by
                intro same
                exact distinct.1 (List.mem_map.mpr ⟨entry, member, same.symm⟩)
              refine ⟨?_, List.mem_cons_of_mem _ locked', keeps'⟩
              rw [BTreeMap.overlay_concat, BTreeMap.getElem?_insert_ne apart]
              exact found'
            · simp only [List.map_cons, recoverRows, bind, Except.bind, decoded, acted, persisted]

/-! Creations. -/

/-- No two rows of the table have one key. -/
def Table.Unique (s : Table) : Prop :=
  ∀ {k k' : RunId} {row row' : Row} {key : IdempotencyKey}, s[k]? = some row → s[k']? = some row' →
    row.idempotencyKey = some key → row'.idempotencyKey = some key → k = k'

theorem findKey_eq_some (unique : Table.Unique s) {key : IdempotencyKey} (found : s[k]? = some row)
    (keyed : row.idempotencyKey = some key) : findKey s key = some row := by
  unfold findKey
  cases located : s.toList.find? fun entry : RunId × Row => entry.2.idempotencyKey == some key with
  | none =>
      have unkeyed := List.find?_eq_none.mp located _
        (Std.ExtTreeMap.mem_toList_iff_getElem?_eq_some.mpr found)
      simp [keyed] at unkeyed
  | some entry =>
      have there := Std.ExtTreeMap.mem_toList_iff_getElem?_eq_some.mp
        (List.mem_of_find?_eq_some located)
      have keyed' : entry.2.idempotencyKey = some key := by simpa using List.find?_some located
      have same := unique found there keyed keyed'
      rw [← same, found] at there
      exact congrArg some (Option.some.inj there).symm

theorem findKey_eq_none {key : IdempotencyKey}
    (unheld : ∀ (k : RunId) (row : Row), s[k]? = some row → row.idempotencyKey ≠ some key) :
    findKey s key = none := by
  unfold findKey
  rw [Option.map_eq_none_iff, List.find?_eq_none]
  intro entry member keyed
  exact unheld entry.1 entry.2 (Std.ExtTreeMap.mem_toList_iff_getElem?_eq_some.mp member)
    (by simpa using keyed)

/-- Later tables have the rows of earlier ones, under the same keys. -/
def Ages (past : Nat → Table → Prop) : Prop :=
  ∀ {n n' : Nat} {t t' : Table} {k : RunId} {row : Row}, past n t → past n' t' → n ≤ n' →
    t[k]? = some row → ∃ row', t'[k]? = some row' ∧ row'.idempotencyKey = row.idempotencyKey

/-- Where a creation stands: before it locks a row, before it inserts its own, at an end that
the model has on the table as it now stands, or where its run id is or was in use. -/
inductive Creates (store : PostgresRunStore) (s : Table) (past : Nat → Table → Prop)
    (request : RunRequest) (clock : Clock) (db : PgClock) : Stage RunId Row Response → Prop where
  | waiting {p : RunId → Row → Bool} {next : Option (RunId × Row) → Program} (n : Nat) :
      Creates store s past request clock db ⟨.lock p next, [], [], n⟩
  | inserting {next : Bool → Program} {n : Nat}
      (accepted : validateRunRequest request = some (.ok ())) :
      Creates store s past request clock db ⟨.insert request.runId
        (rowOf (.created request (clock.call 0) 1 (clock.call 1)) db.transaction 1 none)
        next, [], [], n⟩
  | rolled {stage : Stage RunId Row Response}
      {answer : Option (Except RepositoryError RunRecord)}
      (rest : stage.rest = .rollback (.created answer))
      (result : Table.Unique s → store.createRun s request clock db = (answer, s)) :
      Creates store s past request clock db stage
  | committed {stage : Stage RunId Row Response}
      {answer : Option (Except RepositoryError RunRecord)}
      (rest : stage.rest = .commit (.created answer))
      (result : Table.Unique s → store.createRun s request clock db = (answer, stage.view s)) :
      Creates store s past request clock db stage
  | taken {stage : Stage RunId Row Response} {row : Row}
      (accepted : validateRunRequest request = some (.ok ()))
      (rest : stage.rest = .rollback (.created (some (.error (.conflict request.runId)))))
      (found : s[request.runId]? = some row) : Creates store s past request clock db stage
  | unread {stage : Stage RunId Row Response} {row : Row} {error : RepositoryError}
      (accepted : validateRunRequest request = some (.ok ()))
      (rest : stage.rest = .rollback (.created (some (.error error))))
      (found : s[request.runId]? = some row)
      (failed : store.readPayload row.payload = .error error) :
      Creates store s past request clock db stage
  | wasTaken {stage : Stage RunId Row Response} {n : Nat} {moment : Table}
      (accepted : validateRunRequest request = some (.ok ()))
      (rest : stage.rest = .rollback (.created (some (.error (.conflict request.runId)))))
      (been : past n moment) (found : Ages past → ∃ row, moment[request.runId]? = some row) :
      Creates store s past request clock db stage

section Create

variable {request : RunRequest} {clock : Clock} {stage : Stage RunId Row Response}

/-- A request whose key is in use is answered by the row under it. -/
theorem reaches_existing (accepted : validateRunRequest request = some (.ok ()))
    {key : IdempotencyKey} (keyed : request.idempotencyKey = some key) (found : s[k]? = some row)
    (held : row.idempotencyKey = some key) {locked : List RunId} {n : Nat}
    (h : store.protocol.Reaches s past ⟨store.existingProgram request row, locked, [], n⟩ stage) :
    store.Creates s past request clock db stage := by
  have answered : Table.Unique s →
      store.createRun s request clock db = (some (store.answerExisting request row), s) :=
    fun unique => by simp [createRun, accepted, keyed, findKey_eq_some unique found held]
  unfold existingProgram at h
  split at h
  next error failed =>
    obtain rfl := h.rollback
    exact .rolled rfl (failed ▸ answered)
  next run read =>
    obtain rfl := h.commit
    exact .committed rfl (read ▸ answered)

/-- A row that clashes with that of the request is the row of its run, or stays under its
key. -/
theorem reaches_clash (accepted : validateRunRequest request = some (.ok ())) {n : Nat}
    {moment : Table} (been : past n moment) (there : moment[k]? = some row)
    (clashes : request.runId = k ∨
      ∃ key, request.idempotencyKey = some key ∧ row.idempotencyKey = some key)
    (h : store.protocol.Reaches s past ⟨store.clashProgram request, [], [], n⟩ stage) :
    store.Creates s past request clock db stage := by
  unfold clashProgram at h
  cases keyed : request.idempotencyKey with
  | none =>
      simp only [keyed] at h
      obtain rfl := h.rollback
      obtain rfl | ⟨key, other, -⟩ := clashes
      · exact .wasTaken accepted rfl been fun _ => ⟨row, there⟩
      · rw [keyed] at other
        cases other
  | some key =>
      simp only [keyed] at h
      obtain rfl | ⟨n', k', row', -, found, held, after⟩ |
        ⟨n', later, after, been', absent, rest⟩ := h.lock
      · exact .waiting n
      · exact reaches_existing accepted keyed found (by simpa [hasKey] using held) after
      · obtain rfl := rest.rollback
        refine .wasTaken accepted rfl been fun ages => ?_
        obtain rfl | ⟨key', keyed', held⟩ := clashes
        · exact ⟨row, there⟩
        · obtain ⟨row', there', same⟩ := ages been been' after there
          have unheld := absent k row' there'
          rw [keyed] at keyed'
          obtain rfl := Option.some.inj keyed'
          simp [hasKey, same, held] at unheld

/-- A new run logs its start, and it has no leases and the first revision. -/
theorem start_eq (request : RunRequest) (clock : Clock) :
    (∃ envelope, ({ RunRecord.new request.runId request.workflow request.manifest request.input
        (clock.call 0) with
          status := .running, idempotencyKey := request.idempotencyKey } : RunRecord).appendRunEvent
        (.runStarted request.runId request.workflow.id) (clock.call 1) =
        .ok (envelope, .created request (clock.call 0) 1 (clock.call 1))) ∧
      ({ RunRecord.new request.runId request.workflow request.manifest request.input
        (clock.call 0) with
          status := .running
          idempotencyKey := request.idempotencyKey } : RunRecord).leaseExpiryMs =
        .ok none ∧
      toI64 (RunRecord.created request (clock.call 0) 1 (clock.call 1)).revision = .ok 1 := by
  refine ⟨⟨_, RunRecord.appendRunEvent_eq_ok.mpr ⟨rfl, rfl, rfl⟩⟩, ?_, rfl⟩
  have unstarted : ({ RunRecord.new request.runId request.workflow request.manifest request.input
      (clock.call 0) with
        status := .running
        idempotencyKey := request.idempotencyKey } : RunRecord).steps.toList = [] := rfl
  rw [RunRecord.leaseExpiryMs, unstarted]
  rfl

theorem insertProgram_eq (request : RunRequest) (clock : Clock) (db : PgClock) :
    store.insertProgram request clock db = .insert request.runId
      (rowOf (.created request (clock.call 0) 1 (clock.call 1)) db.transaction 1 none)
      fun
        | true => .commit (.created (some (.ok
            (.created request (clock.call 0) 1 (clock.call 1)))))
        | false => store.clashProgram request := by
  obtain ⟨⟨envelope, appended⟩, unleased, fits⟩ := start_eq request clock
  simp only [RunRecord.new] at appended unleased
  simp only [insertProgram, RunRecord.new, appended, unleased, fits]
  rfl

/-- A request with a free key and a free run id becomes a row. -/
theorem createRun_of_fresh (accepted : validateRunRequest request = some (.ok ()))
    (free : request.idempotencyKey >>= findKey s = none) (fresh : s[request.runId]? = none) :
    store.createRun s request clock db =
      (some (.ok (.created request (clock.call 0) 1 (clock.call 1))), s.insert request.runId
        (rowOf (.created request (clock.call 0) 1 (clock.call 1)) db.transaction 1 none)) := by
  obtain ⟨⟨envelope, appended⟩, unleased, fits⟩ := start_eq request clock
  have absent : s.contains request.runId = false := by
    rw [Bool.eq_false_iff, Ne, BTreeMap.contains_iff]
    rintro ⟨row, found⟩
    rw [fresh] at found
    cases found
  obtain ⟨run, same⟩ : ∃ run, run = RunRecord.created request (clock.call 0) 1 (clock.call 1) :=
    ⟨_, rfl⟩
  have own : run.runId = request.runId := by rw [same]; rfl
  have unheld : (run.idempotencyKey >>= findKey s).isSome = false := by
    rw [same]
    exact congrArg Option.isSome free
  have inserted : insertRow s run.runId ⟨1, toValue run, run.idempotencyKey, none, db.transaction⟩ =
      some (s.insert request.runId (rowOf run db.transaction 1 none)) := by
    rw [insertRow, own, absent, unheld]
    rfl
  rw [← same] at appended fits ⊢
  simp only [RunRecord.new] at appended unleased
  simp only [createRun, accepted, free, loadLocked_eq_ok_none.mpr fresh, RunRecord.new, appended,
    unleased, fits]
  rw [inserted]

theorem reaches_insert (accepted : validateRunRequest request = some (.ok ())) {n : Nat}
    (h : store.protocol.Reaches s past ⟨store.insertProgram request clock db, [], [], n⟩ stage) :
    store.Creates s past request clock db stage := by
  rw [insertProgram_eq] at h
  obtain rfl | ⟨n', -, fits, after⟩ | ⟨n', moment, k, row, -, been, there, clashes, after⟩ :=
    h.insert
  · exact .inserting accepted
  · obtain rfl := after.commit
    rw [BTreeMap.overlay_nil] at fits
    have apart : ∀ (k : RunId) (row : Row), s[k]? = some row → request.runId ≠ k ∧
        ∀ key, request.idempotencyKey = some key → row.idempotencyKey ≠ some key := by
      intro k row found
      have free := fits k row found
      rw [← Bool.not_eq_true, Protocol.clash_iff, not_or] at free
      exact ⟨free.1, fun key keyed held => free.2 ⟨key, keyed, held⟩⟩
    refine .committed rfl fun _ => createRun_of_fresh accepted ?_ ?_
    · cases keyed : request.idempotencyKey with
      | none => rfl
      | some key => exact findKey_eq_none fun k row found => (apart k row found).2 key keyed
    · cases found : s[request.runId]? with
      | none => rfl
      | some row => exact absurd rfl (apart _ row found).1
  · rw [BTreeMap.overlay_nil] at there
    exact reaches_clash accepted been there (Protocol.clash_iff.mp clashes) after

theorem reaches_unkeyed (accepted : validateRunRequest request = some (.ok ())) {n : Nat}
    (h : store.protocol.Reaches s past ⟨store.createUnkeyed request clock db, [], [], n⟩ stage) :
    store.Creates s past request clock db stage := by
  obtain rfl | ⟨n', k, row, -, found, same, after⟩ | ⟨n', moment, -, -, -, after⟩ := h.lock
  · exact .waiting n
  · rw [BTreeMap.overlay_nil] at found
    obtain rfl : k = request.runId := by simpa [hasId] using same
    simp only at after
    split at after
    next error failed =>
      obtain rfl := after.rollback
      exact .unread accepted rfl found failed
    next run decoded =>
      obtain rfl := after.rollback
      exact .taken accepted rfl found
  · exact reaches_insert accepted after

theorem reaches_create {began : Nat}
    (h : store.protocol.Reaches s past ⟨store.createProgram request clock db, [], [], began⟩
      stage) :
    store.Creates s past request clock db stage := by
  unfold createProgram at h
  split at h
  next panics =>
    obtain rfl := h.rollback
    exact .rolled rfl fun _ => by simp only [createRun, panics]
  next error rejected =>
    obtain rfl := h.rollback
    exact .rolled rfl fun _ => by simp only [createRun, rejected]
  next accepted =>
    split at h
    next unkeyed => exact reaches_unkeyed accepted h
    next key keyed =>
      obtain rfl | ⟨n, k, row, -, found, held, after⟩ | ⟨n, moment, -, -, -, after⟩ := h.lock
      · exact .waiting began
      · exact reaches_existing accepted keyed found (by simpa [hasKey] using held) after
      · exact reaches_unkeyed accepted after

end Create

end PostgresRunStore

end Orchestrator
