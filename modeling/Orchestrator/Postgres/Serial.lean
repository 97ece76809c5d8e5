import Orchestrator.Postgres.Replay
import Orchestrator.Store.Operation

/-!
# One call at a time

Sessions may interleave the statements of their calls in every way. Still each call answers
as it does on the table of one moment while it ran, and what it commits is what it leaves of
the table that it is committed to. A creation may also answer that its run is there, or
that it cannot be read, although its key was meanwhile taken; and a recovery may leave out
rows that others have locked.
-/

namespace Orchestrator

open Json (Value toValue fromValue)

theorem Lasting.trivial : Lasting fun _ => True :=
  ⟨⟨fun _ _ => True.intro, fun _ _ => True.intro⟩, fun _ _ _ _ => True.intro⟩

namespace PostgresRunStore

variable {store : PostgresRunStore} {P : RunRecord → Prop} {s : Table} {past : Nat → Table → Prop}

/-- The row that is written for a record keeps it. -/
theorem keeps_rowOf {run : RunRecord} {transaction : Int} {revision : Int64}
    {expiry : Option Int64} (holds : P run) (fits : toI64 run.revision = .ok revision)
    (expires : run.leaseExpiryMs = .ok expiry) :
    (rowOf run transaction revision expiry).Keeps P run.runId :=
  ⟨run, rfl, ⟨rfl, fits, expires⟩, rfl, holds⟩

/-- What a turn of a kept record writes in its row. -/
theorem keeps_turn (lasting : Lasting P) {op : Op} {k : RunId} {row : Row} {run run' : RunRecord}
    {transaction : Int} {revision : Int64} {expiry : Option Int64} (keeps : row.Keeps P k)
    (decoded : store.readPayload row.payload = .ok run) (turn : Turn op run run')
    (fits : toI64 run'.revision = .ok revision) (expires : run'.leaseExpiryMs = .ok expiry) :
    (rowOf run' transaction revision expiry).Keeps P k ∧
      (rowOf run' transaction revision expiry).idempotencyKey = row.idempotencyKey := by
  obtain ⟨own, keyed, holds⟩ := decoded_of_keeps lasting.toEnduring keeps decoded
  have kept : (rowOf run' transaction revision expiry).Keeps P run'.runId :=
    keeps_rowOf (lasting.turn turn holds) fits expires
  rw [turn.sameRun, own] at kept
  exact ⟨kept, turn.idempotencyKey.trans keyed⟩

/-- A call creates a run, recovers runs, or is a transition of one row. -/
theorem program_cases (store : PostgresRunStore) (op : PgOp) :
    (∃ request clock db, op = (.createRun request clock, db)) ∨
      (∃ clock db, op = (.recoverExpired clock, db)) ∨
      ∃ (k : RunId) (α : Type) (respond : Except RepositoryError α → Response)
        (act : RunRecord → Except RepositoryError (α × Option RunRecord)),
        op.1.target = some k ∧ (∀ error, (respond (.error error)).refused = true) ∧
        store.program op = store.transitionProgram k op.2 respond act ∧
        (∀ run, Locked.written run op = (act run).map Prod.snd) ∧
        ∀ s, store.step s op = Prod.map respond id (store.transition s k op.2 act) := by
  obtain ⟨op, db⟩ := op
  cases op with
  | createRun request clock => exact .inl ⟨request, clock, db, rfl⟩
  | recoverExpired clock => exact .inr (.inl ⟨clock, db, rfl⟩)
  | _ => exact .inr (.inr ⟨_, _, _, _, rfl, fun _ => rfl, rfl, fun _ => rfl, fun _ => rfl⟩)

/-- What a transition makes of a run is a turn of it. -/
theorem turn_of_act {op : PgOp} {k : RunId} {α : Type}
    {act : RunRecord → Except RepositoryError (α × Option RunRecord)}
    (target : op.1.target = some k)
    (written : ∀ run, Locked.written run op = (act run).map Prod.snd) {run run' : RunRecord}
    {answer : α} (own : run.runId = k) (acted : act run = .ok (answer, some run')) :
    Turn op.1 run run' := by
  refine Locked.written_turn ?_ (show Locked.written run op = .ok (some run') from ?_)
  · intro id member
    rw [target] at member
    exact (Option.some.inj member).symm.trans own.symm
  · rw [written, acted]
    rfl

/-! Recoveries. -/

/-- Rows that one recovery may take: at most a hundred whose leases have run out, the
earliest first. -/
structure Batch (s : Table) (limit : Int64) (rows : List (RunId × Row)) : Prop where
  distinct : (rows.map Prod.fst).Nodup
  stored : ∀ entry ∈ rows, s[entry.1]? = some entry.2
  expired : ∀ entry ∈ rows,
    entry.2.leaseExpiresAtMs.any (fun expiry => decide (expiry ≤ limit)) = true
  ordered : rows.Pairwise fun a b =>
    (a.2.leaseExpiresAtMs.getD 0).toInt ≤ (b.2.leaseExpiresAtMs.getD 0).toInt
  few : rows.length ≤ recoveryBatchSize

theorem batch_expiredAmong {limit : Int64} {free : List (RunId × Row)}
    (distinct : (free.map Prod.fst).Nodup)
    (stored : ∀ entry ∈ store.expiredAmong limit free, s[entry.1]? = some entry.2) :
    Batch s limit (store.expiredAmong limit free) where
  distinct := by
    refine List.Nodup.sublist ((List.take_sublist _ _).map Prod.fst) ?_
    refine ((List.perm_insertionSort _ _).map Prod.fst).nodup_iff.mpr ?_
    exact distinct.sublist (List.filter_sublist.map Prod.fst)
  stored := stored
  expired _ member := (store.mem_expiredAmong member).2
  ordered := (store.sorted_orderBy (fun row => (row.leaseExpiresAtMs.getD 0).toInt) _).sublist
    (List.take_sublist _ _)
  few := List.length_take_le _ _

/-- Where a recovery stands: before it locks rows, at an end that it has on every table, or
where it has locked a batch. -/
inductive Sweeps (store : PostgresRunStore) (P : RunRecord → Prop) (s : Table) (clock : Clock)
    (db : PgClock) : Stage RunId Row Response → Prop where
  | waiting {choose : List (RunId × Row) → List (RunId × Row)} {among : ∀ rows, choose rows ⊆ rows}
      {next : List (RunId × Row) → Program} (n : Nat) :
      Sweeps store P s clock db ⟨.lockFree choose among next, [], [], n⟩
  | unreadable {stage : Stage RunId Row Response} {error : RepositoryError}
      (rest : stage.rest = .rollback (.recovered (.error error)))
      (result : store.recoverExpired s clock db = (.error error, s)) :
      Sweeps store P s clock db stage
  | batch {stage : Stage RunId Row Response} {now : UInt64} {limit : Int64}
      {rows : List (RunId × Row)} (reads : toU64 db.now = .ok now) (fits : toI64 now = .ok limit)
      (batch : Batch s limit rows)
      (recovers : store.Recovers P s now clock db s
        (rows.map fun entry => entry.2.payload) [] stage) : Sweeps store P s clock db stage

theorem reaches_recover {clock : Clock} {db : PgClock} {began : Nat}
    {stage : Stage RunId Row Response} (lasting : Lasting P)
    (keeps : ∀ (k : RunId) (row : Row), s[k]? = some row → row.Keeps P k)
    (h : store.protocol.Reaches s past ⟨store.recoverProgram clock db, [], [], began⟩ stage) :
    store.Sweeps P s clock db stage := by
  unfold recoverProgram at h
  split at h
  next error early =>
    obtain rfl := h.rollback
    exact .unreadable rfl (by simp only [recoverExpired, bind, Except.bind, early])
  next now reads =>
    split at h
    next error late =>
      obtain rfl := h.rollback
      exact .unreadable rfl (by simp only [recoverExpired, bind, Except.bind, reads, late])
    next limit fits =>
      obtain rfl | ⟨n, free, -, distinct, seen, after⟩ := h.lockFree
      · exact .waiting began
      · rw [List.append_nil] at after
        have batch := batch_expiredAmong distinct seen
        refine .batch reads fits batch (reaches_recoverRows lasting batch.distinct ?_ after)
        intro entry member
        have found := batch.stored entry member
        exact ⟨found, List.mem_map_of_mem member, keeps _ _ found⟩

/-! Where a call stands. -/

/-- What a call may answer at once on a table, and the table that it leaves. -/
inductive Atomic (store : PostgresRunStore) (s : Table) : PgOp → Response → Table → Prop where
  | call (op : PgOp) :
      Atomic store s op ((postgres store).answer s op) ((postgres store).next s op)
  | taken {request : RunRequest} {clock : Clock} {db : PgClock} {row : Row}
      (accepted : validateRunRequest request = some (.ok ()))
      (found : s[request.runId]? = some row) :
      Atomic store s (.createRun request clock, db)
        (.created (some (.error (.conflict request.runId)))) s
  | unread {request : RunRequest} {clock : Clock} {db : PgClock} {row : Row}
      {error : RepositoryError} (accepted : validateRunRequest request = some (.ok ()))
      (found : s[request.runId]? = some row)
      (failed : store.readPayload row.payload = .error error) :
      Atomic store s (.createRun request clock, db) (.created (some (.error error))) s
  | sweep {clock : Clock} {db : PgClock} {now : UInt64} {limit : Int64}
      {rows : List (RunId × Row)} {expired : List (RunId × StepId)} {s' : Table}
      (reads : toU64 db.now = .ok now) (fits : toI64 now = .ok limit) (batch : Batch s limit rows)
      (recovered : store.recoverRows now clock db s (rows.map fun entry => entry.2.payload) [] =
        .ok (expired, s')) :
      Atomic store s (.recoverExpired clock, db) (.recovered (.ok expired)) s'
  | unswept {clock : Clock} {db : PgClock} {now : UInt64} {limit : Int64}
      {rows : List (RunId × Row)} {error : RepositoryError} (reads : toU64 db.now = .ok now)
      (fits : toI64 now = .ok limit) (batch : Batch s limit rows)
      (failed : store.recoverRows now clock db s (rows.map fun entry => entry.2.payload) [] =
        .error error) :
      Atomic store s (.recoverExpired clock, db) (.recovered (.error error)) s

theorem Atomic.of_step {op : PgOp} {response : Response} {s' : Table}
    (h : store.step s op = (response, s')) : store.Atomic s op response s' := by
  have called : store.Atomic s op _ _ := .call op
  rw [Machine.answer, Machine.next, show (postgres store).step s op = (response, s') from h]
    at called
  exact called

/-- Where a call stands: it waits without a lock, it is about to write the row of a new run or
a row that it has locked, or it is at its end. -/
inductive Stands (store : PostgresRunStore) (P : RunRecord → Prop) (s : Table)
    (past : Nat → Table → Prop) (op : PgOp) (stage : Stage RunId Row Response) : Prop where
  | locking {p : RunId → Row → Bool} {next : Option (RunId × Row) → Program}
      (rest : stage.rest = .lock p next) (unlocked : stage.held = [] ∧ stage.writes = [])
  | lockingFree {choose : List (RunId × Row) → List (RunId × Row)}
      {among : ∀ rows, choose rows ⊆ rows} {next : List (RunId × Row) → Program}
      (rest : stage.rest = .lockFree choose among next)
  | inserting {run : RunRecord} {transaction : Int} {revision : Int64} {expiry : Option Int64}
      {next : Bool → Program} (holds : P run)
      (rest : stage.rest = .insert run.runId (rowOf run transaction revision expiry) next)
      (unlocked : stage.held = [] ∧ stage.writes = [])
      (fits : toI64 run.revision = .ok revision) (expires : run.leaseExpiryMs = .ok expiry)
  | writing {k : RunId} {row : Row} {run run' : RunRecord} {transaction : Int} {revision : Int64}
      {expiry : Option Int64} {guard : Row → Bool} {next : Bool → Program}
      (rest : stage.rest = .update k guard (rowOf run' transaction revision expiry) next)
      (locked : k ∈ stage.held) (found : (stage.view s)[k]? = some row) (keeps : row.Keeps P k)
      (decoded : store.readPayload row.payload = .ok run) (turn : Turn op.1 run run')
      (fits : toI64 run'.revision = .ok revision) (expires : run'.leaseExpiryMs = .ok expiry)
  | committed {response : Response} (rest : stage.rest = .commit response)
      (result : Table.Unique s → store.Atomic s op response (stage.view s))
  | rolled {response : Response} (rest : stage.rest = .rollback response)
      (result : (Table.Unique s → store.Atomic s op response s) ∨
        response.refused = true ∧ ∃ n moment, past n moment ∧
          (Ages past → store.Atomic moment op response moment))

theorem Creates.stands {request : RunRequest} {clock : Clock} {db : PgClock}
    {stage : Stage RunId Row Response} (lasting : Lasting P)
    (h : store.Creates s past request clock db stage) :
    store.Stands P s past (.createRun request clock, db) stage := by
  cases h with
  | waiting n => exact .locking rfl ⟨rfl, rfl⟩
  | inserting accepted =>
      exact .inserting (lasting.created request (clock.call 0) (clock.call 1) accepted) rfl
        ⟨rfl, rfl⟩ rfl (start_eq request clock).2.1
  | rolled rest result =>
      refine .rolled rest (.inl fun unique => .of_step ?_)
      simp only [step, result unique]
      rfl
  | committed rest result =>
      refine .committed rest fun unique => .of_step ?_
      simp only [step, result unique]
      rfl
  | taken accepted rest found => exact .rolled rest (.inl fun _ => .taken accepted found)
  | unread accepted rest found failed =>
      exact .rolled rest (.inl fun _ => .unread accepted found failed)
  | wasTaken accepted rest been found =>
      refine .rolled rest (.inr ⟨rfl, _, _, been, fun ages => ?_⟩)
      obtain ⟨row, there⟩ := found ages
      exact .taken accepted there

theorem Sweeps.stands {clock : Clock} {db : PgClock} {stage : Stage RunId Row Response}
    (h : store.Sweeps P s clock db stage) :
    store.Stands P s past (.recoverExpired clock, db) stage := by
  cases h with
  | waiting n => exact .lockingFree rfl
  | unreadable rest result =>
      refine .rolled rest (.inl fun _ => .of_step ?_)
      simp only [step, result]
      rfl
  | batch reads fits batch recovers =>
    cases recovers with
    | rolled rest result =>
        exact .rolled rest (.inl fun _ => .unswept reads fits batch result)
    | committed rest result =>
        exact .committed rest fun _ => .sweep reads fits batch result
    | writing found decoded keeps acted fits' expires locked rest =>
        exact .writing rest locked found keeps decoded (Locked.recoverExpired_turn acted) fits'
          expires

theorem Transits.stands {op : PgOp} {k : RunId} {α : Type}
    {respond : Except RepositoryError α → Response}
    {act : RunRecord → Except RepositoryError (α × Option RunRecord)}
    {stage : Stage RunId Row Response} (lasting : Lasting P)
    (good : ∀ (k : RunId) (row : Row), s[k]? = some row → row.Keeps P k)
    (target : op.1.target = some k) (refuses : ∀ error, (respond (.error error)).refused = true)
    (written : ∀ run, Locked.written run op = (act run).map Prod.snd)
    (same : ∀ s, store.step s op = Prod.map respond id (store.transition s k op.2 act))
    (h : store.Transits s past k op.2 respond act stage) : store.Stands P s past op stage := by
  cases h with
  | locking clock => exact .locking rfl ⟨rfl, rfl⟩
  | @missing n moment been absent =>
      refine .rolled rfl (.inr ⟨refuses _, n, moment, been, fun _ => .of_step ?_⟩)
      rw [same]
      simp only [transition, loadLocked_eq_ok_none.mpr absent]
      rfl
  | rolled rest result =>
      refine .rolled rest (.inl fun _ => .of_step ?_)
      rw [same, result]
      rfl
  | committed rest result =>
      refine .committed rest fun _ => .of_step ?_
      rw [same, result]
      rfl
  | writing found decoded acted fits expires =>
      have keeps := good _ _ found
      have own := (decoded_of_keeps lasting.toEnduring keeps decoded).1
      exact .writing rfl List.mem_cons_self found keeps decoded
        (turn_of_act target written own acted) fits expires

/-- Whatever the other sessions did, a call stands where it may stand on the table as it is. -/
theorem stands_of_reaches {op : PgOp} {began : Nat} {stage : Stage RunId Row Response}
    (lasting : Lasting P) (good : ∀ (k : RunId) (row : Row), s[k]? = some row → row.Keeps P k)
    (h : store.protocol.Reaches s past (store.protocol.start op began) stage) :
    store.Stands P s past op stage := by
  change store.protocol.Reaches s past ⟨store.program op, [], [], began⟩ stage at h
  obtain ⟨request, clock, db, rfl⟩ | ⟨clock, db, rfl⟩ |
    ⟨k, α, respond, act, target, refuses, program, written, same⟩ := store.program_cases op
  · exact (reaches_create h).stands lasting
  · exact (reaches_recover lasting good h).stands
  · rw [program] at h
    refine (reaches_transition good lasting ?_ h).stands lasting good target refuses written same
    exact fun own acted => (turn_of_act target written own acted).sameRun.trans own

/-- Every transaction writes rows that keep lasting records, under their keys. -/
theorem lawful (store : PostgresRunStore) (lasting : Lasting P) :
    store.protocol.Lawful (Row.Keeps P) where
  update {s past op began stage k guard row old next} good reaches rest seen passes := by
    cases stands_of_reaches lasting good reaches with
    | writing rest' locked found keeps decoded turn fits expires =>
        obtain ⟨rfl, rfl, rfl, rfl⟩ := Transaction.update.inj (rest.symm.trans rest')
        obtain rfl := Option.some.inj (found.symm.trans seen)
        exact keeps_turn lasting keeps decoded turn fits expires
    | _ => simp_all
  insert {s past op began stage k row next} good reaches rest := by
    cases stands_of_reaches lasting good reaches with
    | inserting holds rest' unlocked fits expires =>
        obtain ⟨rfl, rfl, rfl⟩ := Transaction.insert.inj (rest.symm.trans rest')
        exact keeps_rowOf holds fits expires
    | _ => simp_all

/-- No transaction waits for a lock or an insertion while it holds a lock. -/
theorem patient (store : PostgresRunStore) (lasting : Lasting P) :
    store.protocol.Patient (Row.Keeps P) := by
  intro s past op began stage good reaches waits
  cases stands_of_reaches lasting good reaches with
  | locking rest unlocked => exact unlocked
  | inserting holds rest unlocked => exact unlocked
  | writing rest locked =>
      rw [rest] at waits
      exact absurd locked waits
  | lockingFree rest | committed rest | rolled rest =>
      rw [rest] at waits
      exact waits.elim

/-! What holds of every history of sessions. -/

/-- The rows of committed tables keep every lasting property, each under its key. -/
theorem keeps_after (store : PostgresRunStore) (lasting : Lasting P)
    (acts : List (SessionEvent PgOp)) {k : RunId} {row : Row}
    (stored : ((postgresSessions store).after acts).table[k]? = some row) : row.Keeps P k :=
  (Database.sound_after (store.lawful lasting) acts).good k row stored

theorem unique_after (store : PostgresRunStore) (acts : List (SessionEvent PgOp)) :
    Table.Unique ((postgresSessions store).after acts).table := by
  have consistent := (Database.sound_after (store.lawful .trivial) acts).consistent
  intro k k' row row' key stored stored' keyed keyed'
  by_contra different
  have free := consistent.unique stored stored' different
  rw [← Bool.not_eq_true, Protocol.clash_iff, not_or] at free
  exact free.2 ⟨key, keyed, keyed'⟩

theorem ages_been (store : PostgresRunStore) (acts : List (SessionEvent PgOp)) (began : Nat) :
    Ages (Database.Been store.protocol acts began) :=
  fun been been' earlier stored => been.row_stays (store.lawful .trivial) been' earlier stored

/-- The event ends the call, with the response. -/
def Answered (store : PostgresRunStore) (acts : List (SessionEvent PgOp)) (act : SessionEvent PgOp)
    (op : PgOp) (response : Response) : Prop :=
  ∃ (i : Nat) (session : Session RunId Row PgOp Response), act = .proceed i ∧
    ((postgresSessions store).after acts).sessions[i]? = some session ∧ session.call = op ∧
    (postgresSessions store).answer ((postgresSessions store).after acts) act = some response

section Answers

variable {acts : List (SessionEvent PgOp)} {act : SessionEvent PgOp} {op : PgOp}
variable {response : Response}

/-- Where no call ends, nothing is committed. -/
theorem answered_cases (store : PostgresRunStore) (acts : List (SessionEvent PgOp))
    (act : SessionEvent PgOp) :
    (postgresSessions store).answer ((postgresSessions store).after acts) act = none ∧
        ((postgresSessions store).after (acts ++ [act])).table =
          ((postgresSessions store).after acts).table ∨
      ∃ op response, store.Answered acts act op response := by
  rw [Machine.after_concat]
  obtain quiet | ⟨i, session, response, ends, stored, answered, -⟩ :=
    Database.answer_cases store.protocol ((postgresSessions store).after acts) act
  · exact .inl quiet
  · exact .inr ⟨session.call, response, i, session, ends, stored, rfl, answered⟩

/-- The answer is one that the call may get at once on the table as it now stands; a refusal may
be that of a moment since the call started. -/
theorem Answered.atomic (h : store.Answered acts act op response) :
    ∃ i began, act = .proceed i ∧ acts[began]? = some (.start i op) ∧
      (store.Atomic ((postgresSessions store).after acts).table op response
          ((postgresSessions store).after (acts ++ [act])).table ∨
        response.refused = true ∧ ((postgresSessions store).after (acts ++ [act])).table =
            ((postgresSessions store).after acts).table ∧
          ∃ n, began ≤ n ∧ n ≤ acts.length ∧
            store.Atomic ((postgresSessions store).after (acts.take n)).table op response
              ((postgresSessions store).after (acts.take n)).table) := by
  obtain ⟨i, session, rfl, stored, rfl, answered⟩ := h
  have sound := Database.sound_after (store.lawful .trivial) acts
  refine ⟨i, session.began, rfl, sound.started stored, ?_⟩
  have stands := stands_of_reaches .trivial sound.good (sound.reaches stored)
  rw [Machine.after_concat]
  obtain ⟨quiet, -⟩ | ⟨j, other, answer, ends, stored', answered', ended⟩ := Database.answer_cases
    store.protocol ((postgresSessions store).after acts) (.proceed i)
  · rw [answered] at quiet
    cases quiet
  · obtain rfl := SessionEvent.proceed.inj ends
    obtain rfl := Option.some.inj (stored.symm.trans stored')
    obtain rfl := Option.some.inj (answered.symm.trans answered')
    obtain ⟨rest, commits⟩ | ⟨rest, kept⟩ := ended
    · cases stands with
      | committed rest' result =>
          obtain rfl := Transaction.commit.inj (rest.symm.trans rest')
          exact .inl (commits ▸ result (store.unique_after acts))
      | _ => simp_all
    · cases stands with
      | rolled rest' result =>
          obtain rfl := Transaction.rollback.inj (rest.symm.trans rest')
          obtain now | ⟨refused, n, moment, ⟨since, before, rfl⟩, past⟩ := result
          · exact .inl (kept ▸ now (store.unique_after acts))
          · exact .inr ⟨refused, kept, n, since, before,
              past (store.ages_been acts session.began)⟩
      | _ => simp_all

end Answers

end PostgresRunStore

variable (store : PostgresRunStore) (acts : List (SessionEvent PgOp))

/-- Every answer is one that the call may get at once, on the table that it commits to; a refusal
may be that of a moment since the call started. -/
theorem sessions_linearizable (act : SessionEvent PgOp) :
    ((postgresSessions store).answer ((postgresSessions store).after acts) act = none ∧
      ((postgresSessions store).after (acts ++ [act])).table =
        ((postgresSessions store).after acts).table) ∨
    ∃ (i began : Nat) (op : PgOp) (response : Response),
      act = .proceed i ∧ acts[began]? = some (.start i op) ∧
      (postgresSessions store).answer ((postgresSessions store).after acts) act = some response ∧
      (store.Atomic ((postgresSessions store).after acts).table op response
          ((postgresSessions store).after (acts ++ [act])).table ∨
        response.refused = true ∧ ((postgresSessions store).after (acts ++ [act])).table =
            ((postgresSessions store).after acts).table ∧
          ∃ n, began ≤ n ∧ n ≤ acts.length ∧
            store.Atomic ((postgresSessions store).after (acts.take n)).table op response
              ((postgresSessions store).after (acts.take n)).table) := by
  obtain quiet | ⟨op, response, answered⟩ := store.answered_cases acts act
  · exact .inl quiet
  · obtain ⟨i, began, ends, started, atomic⟩ := answered.atomic
    obtain ⟨-, -, -, -, -, answer⟩ := answered
    exact .inr ⟨i, began, op, response, ends, started, answer, atomic⟩

/-- Sessions never wait for each other in a circle: where they go on, every call ends. For none
waits that has locked or written a row. -/
theorem sessions_all_end :
    (∃ more : List Nat,
      ((postgresSessions store).after (acts ++ more.map .proceed)).sessions = ∅) ∧
    ∀ i session, ((postgresSessions store).after acts).sessions[i]? = some session →
      ((postgresSessions store).after acts).Waiting store.protocol i session →
      session.held = [] ∧ session.writes = [] := by
  have lawful := store.lawful .trivial
  have patient : store.protocol.Patient (Row.Keeps fun _ => True) := store.patient .trivial
  refine ⟨Database.exists_all_ended lawful patient acts, fun i session stored waiting => ?_⟩
  exact waiting.idle patient (Database.sound_after lawful acts) stored

namespace Sample

/-- Two workers ask at once. The first one has locked the row, and the second one waits. -/
def raced : List (SessionEvent PgOp) :=
  opened ++ [.start 1 (ask 0, database 0), .start 2 (ask 0, database 0), .proceed 1, .proceed 2,
    .proceed 1]

/-- The next statement locks a row. -/
def locksNext (session : Session RunId Row PgOp Response) : Bool :=
  match session.rest with
  | .lock _ _ => true
  | _ => false

end Sample

/-- The second of the two workers waits, with nothing locked or written. -/
theorem sessions_all_end_raced : ∃ session : Session RunId Row PgOp Response,
    ((postgresSessions Sample.storage).after Sample.raced).sessions[2]? = some session ∧
    ((postgresSessions Sample.storage).after Sample.raced).Waiting Sample.storage.protocol 2
      session ∧ session.held = [] ∧ session.writes = [] := by
  have waits : (((postgresSessions Sample.storage).after Sample.raced).sessions[2]?).any
      (fun session => Sample.locksNext session &&
        (((postgresSessions Sample.storage).after Sample.raced).advance Sample.storage.protocol 2
          session).isNone) = true := by decide +kernel
  simp only [Option.any_eq_true, Bool.and_eq_true, Option.isNone_iff_eq_none] at waits
  obtain ⟨session, stored, locks, stopped⟩ := waits
  have waiting : ((postgresSessions Sample.storage).after Sample.raced).Waiting
      Sample.storage.protocol 2 session := by
    refine ⟨stopped, fun answer => ⟨?_, ?_⟩⟩
    · intro rest
      simp [Sample.locksNext, rest] at locks
    · intro rest
      simp [Sample.locksNext, rest] at locks
  exact ⟨session, stored, waiting,
    (sessions_all_end Sample.storage Sample.raced).2 2 session stored waiting⟩

end Orchestrator
