import Orchestrator.Foundation.Alone
import Orchestrator.Postgres.Replay

/-!
# A session alone

Statement by statement, a call that runs alone does what the model of the repository does in
one step.
-/

namespace Orchestrator

open Json (Value)

namespace PostgresRunStore

variable {store : PostgresRunStore} {s : Table} {writes : List (RunId × Row)}

/-- A row is looked up by its id. -/
theorem find?_hasId (s : Table) (k : RunId) :
    (s.toList.find? fun entry => hasId k entry.1 entry.2) = s[k]?.map fun row => (k, row) := by
  cases found : s[k]? with
  | none =>
      refine List.find?_eq_none.mpr fun entry member same => ?_
      have there := Std.ExtTreeMap.mem_toList_iff_getElem?_eq_some.mp member
      rw [beq_iff_eq.mp same, found] at there
      cases there
  | some row =>
      cases located : s.toList.find? fun entry => hasId k entry.1 entry.2 with
      | none =>
          have absent := List.find?_eq_none.mp located (k, row)
            (Std.ExtTreeMap.mem_toList_iff_getElem?_eq_some.mpr found)
          simp [hasId] at absent
      | some entry =>
          have passes := List.find?_some located
          have same : entry.1 = k := by simpa [hasId] using passes
          have there := Std.ExtTreeMap.mem_toList_iff_getElem?_eq_some.mp
            (List.mem_of_find?_eq_some located)
          rw [same, found] at there
          exact congrArg some (Prod.ext same (Option.some.inj there).symm)

theorem alone_persist (store : PostgresRunStore) (s : Table) (writes : List (RunId × Row))
    (run : RunRecord) (transaction : Int) (next : Except RepositoryError Unit → Program) :
    (∃ error, persistLocked (s.overlay writes) run transaction = .error error ∧
      (persist run transaction next).alone store.protocol s writes =
        (next (.error error)).alone store.protocol s writes) ∨
    ∃ entry, persistLocked (s.overlay writes) run transaction =
        .ok (s.overlay (writes ++ [entry])) ∧
      (persist run transaction next).alone store.protocol s writes =
        (next (.ok ())).alone store.protocol s (writes ++ [entry]) := by
  unfold persist persistLocked
  cases fits : toI64 run.revision with
  | error error => exact .inl ⟨error, rfl, rfl⟩
  | ok revision =>
    cases expires : run.leaseExpiryMs with
    | error error => exact .inl ⟨error, rfl, rfl⟩
    | ok expiry =>
      cases found : (s.overlay writes)[run.runId]? with
      | none =>
          refine .inl ⟨.conflict run.runId, ?_, ?_⟩
          · simp only [bind, Except.bind]
          · simp only [Transaction.alone, found, Option.any_none]
            rfl
      | some row =>
          by_cases newer : row.revision < revision
          · refine .inr ⟨(run.runId, rowOf run transaction revision expiry), ?_, ?_⟩
            · simp only [bind, Except.bind, if_pos newer, BTreeMap.overlay_concat]
              rfl
            · simp only [Transaction.alone, found, Option.any_some, decide_eq_true newer]
              rfl
          · refine .inl ⟨.conflict run.runId, ?_, ?_⟩
            · simp only [bind, Except.bind, if_neg newer]
            · simp only [Transaction.alone, found, Option.any_some, decide_eq_false newer]
              rfl

theorem alone_transition {α : Type} (k : RunId) (db : PgClock)
    (respond : Except RepositoryError α → Response)
    (act : RunRecord → Except RepositoryError (α × Option RunRecord)) :
    (store.transitionProgram k db respond act).alone store.protocol s [] =
      Prod.map respond id (store.transition s k db act) := by
  unfold transitionProgram transition loadLocked
  rw [Transaction.alone, BTreeMap.overlay_nil, find?_hasId]
  cases found : s[k]? with
  | none => rfl
  | some row =>
    simp only [Option.map_some, transitionLocked]
    cases decoded : store.readPayload row.payload with
    | error error => rfl
    | ok run =>
      simp only [Except.map]
      cases acted : act run with
      | error error => rfl
      | ok result =>
        obtain ⟨answer, written⟩ := result
        cases written with
        | none => rfl
        | some run' =>
            obtain ⟨error, failed, same⟩ | ⟨entry, persisted, same⟩ :=
              store.alone_persist s [] run' db.transaction (conclude respond answer)
            · rw [BTreeMap.overlay_nil] at failed
              simp only [failed]
              exact same
            · rw [BTreeMap.overlay_nil] at persisted
              simp only [persisted]
              exact same

/-- The answer to a recovery, with the table that it leaves. -/
def recoverResult (s : Table) :
    Except RepositoryError (List (RunId × StepId) × Table) → Response × Table
  | .error error => (.recovered (.error error), s)
  | .ok (expired, s') => (.recovered (.ok expired), s')

theorem alone_recoverRows (now : UInt64) (clock : Clock) (db : PgClock) (payloads : List Value)
    (expired : List (RunId × StepId)) :
    (store.recoverRowsProgram now clock db payloads expired).alone store.protocol s writes =
      recoverResult s (store.recoverRows now clock db (s.overlay writes) payloads expired) := by
  induction payloads generalizing writes expired with
  | nil => rfl
  | cons payload rest ih =>
      rw [recoverRowsProgram, recoverRows]
      simp only [bind, Except.bind]
      cases decoded : store.readPayload payload with
      | error error => rfl
      | ok run =>
        simp only []
        cases acted : Locked.recoverExpired run now clock with
        | error error => rfl
        | ok result =>
          obtain ⟨more, written⟩ := result
          cases written with
          | none => exact ih (expired ++ more)
          | some run' =>
              simp only []
              obtain ⟨error, failed, same⟩ | ⟨entry, persisted, same⟩ :=
                store.alone_persist s writes run' db.transaction _
              · rw [same, failed]
                rfl
              · rw [same, persisted]
                exact ih (expired ++ more)

theorem alone_recover (clock : Clock) (db : PgClock) :
    (store.recoverProgram clock db).alone store.protocol s [] =
      Prod.map .recovered id (store.recoverExpired s clock db) := by
  unfold recoverProgram recoverExpired
  simp only [bind, Except.bind]
  cases reads : toU64 db.now with
  | error error => rfl
  | ok now =>
    simp only []
    cases fits : toI64 now with
    | error error => rfl
    | ok limit =>
      simp only [Transaction.alone, alone_recoverRows, BTreeMap.overlay_nil]
      change recoverResult s (store.recoverRows now clock db s
        ((store.expiredRows s limit).map fun entry => entry.2.payload) []) = _
      cases store.recoverRows now clock db s
          ((store.expiredRows s limit).map fun entry => entry.2.payload) [] with
      | error error => rfl
      | ok result => rfl

theorem alone_existing (request : RunRequest) (row : Row) :
    (store.existingProgram request row).alone store.protocol s [] =
      (.created (some (store.answerExisting request row)), s) := by
  unfold existingProgram
  cases store.answerExisting request row with
  | error error => rfl
  | ok run => rfl

theorem alone_unkeyed (request : RunRequest) (clock : Clock) (db : PgClock)
    (accepted : validateRunRequest request = some (.ok ()))
    (free : request.idempotencyKey >>= findKey s = none) :
    (store.createUnkeyed request clock db).alone store.protocol s [] =
      Prod.map .created id (store.createRun s request clock db) := by
  rw [createUnkeyed, Transaction.alone, BTreeMap.overlay_nil, find?_hasId]
  cases found : s[request.runId]? with
  | some row =>
      simp only [Option.map_some, createRun, accepted, free, loadLocked, found]
      cases store.readPayload row.payload with
      | error error => rfl
      | ok run => rfl
  | none =>
      rw [createRun_of_fresh accepted free found, Option.map_none]
      simp only [insertProgram_eq]
      have fits : s.toList.any (store.protocol.clash (request.runId, rowOf
          (.created request (clock.call 0) 1 (clock.call 1)) db.transaction 1 none)) = false := by
        rw [List.any_eq_false]
        rintro ⟨k, row⟩ member clashes
        have there := Std.ExtTreeMap.mem_toList_iff_getElem?_eq_some.mp member
        obtain same | ⟨key, keyed, held⟩ := Protocol.clash_iff.mp clashes
        · obtain rfl : request.runId = k := same
          rw [found] at there
          cases there
        · change request.idempotencyKey = some key at keyed
          rw [keyed] at free
          have absent := List.find?_eq_none.mp (Option.map_eq_none_iff.mp free) (k, row) member
          exact absent (beq_iff_eq.mpr held)
      rw [Transaction.alone, BTreeMap.overlay_nil, fits]
      rfl

theorem alone_create (request : RunRequest) (clock : Clock) (db : PgClock) :
    (store.createProgram request clock db).alone store.protocol s [] =
      Prod.map .created id (store.createRun s request clock db) := by
  unfold createProgram
  cases accepted : validateRunRequest request with
  | none =>
      simp only [createRun, accepted]
      rfl
  | some verdict =>
    cases verdict with
    | error error =>
        simp only [createRun, accepted]
        rfl
    | ok =>
      cases keyed : request.idempotencyKey with
      | none => exact alone_unkeyed request clock db accepted (by rw [keyed]; rfl)
      | some key =>
        simp only [Transaction.alone, BTreeMap.overlay_nil]
        cases located : s.toList.find? fun entry => hasKey key entry.1 entry.2 with
        | none =>
            refine alone_unkeyed request clock db accepted ?_
            rw [keyed]
            exact congrArg (Option.map Prod.snd) located
        | some entry =>
            have found : findKey s key = some entry.2 := congrArg (Option.map Prod.snd) located
            simp only [createRun, accepted, keyed, Option.bind_eq_bind, Option.bind_some, found]
            exact alone_existing request entry.2

/-- A call that runs alone does what it does in one step. -/
theorem alone_program (op : PgOp) :
    (store.program op).alone store.protocol s [] = store.step s op := by
  obtain ⟨op, db⟩ := op
  cases op with
  | createRun request clock => exact alone_create request clock db
  | recoverExpired clock => exact alone_recover clock db
  | _ => exact alone_transition _ db _ _

end PostgresRunStore

/-- A call that starts while no other is in progress, and that nobody interrupts, answers as the
model of the repository does and leaves the same table. -/
theorem session_alone (store : PostgresRunStore) (acts : List (SessionEvent PgOp)) (i : Nat)
    (op : PgOp) (idle : ((postgresSessions store).after acts).sessions = ∅) : ∃ n,
    (postgresSessions store).answer
        ((postgresSessions store).after (acts ++ .start i op :: List.replicate n (.proceed i)))
        (.proceed i) =
      some ((postgres store).answer ((postgresSessions store).after acts).table op) ∧
    ((postgresSessions store).after
        (acts ++ .start i op :: List.replicate (n + 1) (.proceed i))).table =
      (postgres store).next ((postgresSessions store).after acts).table op ∧
    ((postgresSessions store).after
        (acts ++ .start i op :: List.replicate (n + 1) (.proceed i))).sessions = ∅ := by
  have same : ∀ s, (store.protocol.program op).alone store.protocol s [] = store.step s op :=
    fun s => PostgresRunStore.alone_program op
  obtain ⟨n, answer, table, sessions⟩ := Database.ends_alone store.protocol op idle
  rw [same] at answer table
  exact ⟨n, answer, table, sessions⟩

/-- A worker that asks for the stored run while no other does is handed a step. -/
theorem session_alone_first :
    ((postgres Sample.storage).answer ((postgresSessions Sample.storage).after Sample.opened).table
      (Sample.ask 0, Sample.database 0)).claim?.isSome = true ∧ ∃ n,
    (postgresSessions Sample.storage).answer ((postgresSessions Sample.storage).after
        (Sample.opened ++ .start 1 (Sample.ask 0, Sample.database 0) ::
          List.replicate n (.proceed 1))) (.proceed 1) =
      some ((postgres Sample.storage).answer
        ((postgresSessions Sample.storage).after Sample.opened).table
        (Sample.ask 0, Sample.database 0)) ∧
    ((postgresSessions Sample.storage).after
        (Sample.opened ++ .start 1 (Sample.ask 0, Sample.database 0) ::
          List.replicate (n + 1) (.proceed 1))).table =
      (postgres Sample.storage).next ((postgresSessions Sample.storage).after Sample.opened).table
        (Sample.ask 0, Sample.database 0) ∧
    ((postgresSessions Sample.storage).after
        (Sample.opened ++ .start 1 (Sample.ask 0, Sample.database 0) ::
          List.replicate (n + 1) (.proceed 1))).sessions = ∅ := by
  have idle : ((postgresSessions Sample.storage).after Sample.opened).sessions = ∅ :=
    Std.ExtTreeMap.isEmpty_iff.mp (by decide +kernel)
  exact ⟨by decide +kernel,
    session_alone Sample.storage Sample.opened 1 (Sample.ask 0, Sample.database 0) idle⟩

end Orchestrator
