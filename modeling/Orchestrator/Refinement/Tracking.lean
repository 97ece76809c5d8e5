import Orchestrator.Refinement.Call
import Orchestrator.Refinement.Visit
import Orchestrator.Store.Idempotency

/-!
# Rows that track stored runs

A table tracks a repository when both know the same runs and every row is read as a run
that is alike the stored one. A call that is given to both leaves the table tracking the
repository, provided that what it writes fits its row and is read again.
-/

namespace Orchestrator

open Json (toValue fromValue)

namespace PostgresRunStore

/-- A row can hold the record, and is read as it again. -/
structure Fits (store : PostgresRunStore) (run : RunRecord) : Prop where
  decoded : store.readPayload (toValue run) = .ok run
  revision : ∃ column, toI64 run.revision = .ok column
  expiry : ∃ column, run.leaseExpiryMs = .ok column

/-- The row is read as the record and has its key. -/
structure ReadAs (store : PostgresRunStore) (row : Row) (run : RunRecord) : Prop where
  decoded : store.readPayload row.payload = .ok run
  key : row.idempotencyKey = run.idempotencyKey

variable {store : PostgresRunStore} {t t' : Table} {run run' : RunRecord} {row : Row}

/-- What is read back has finite doubles. -/
theorem Fits.finite (fits : store.Fits run) : run.Finite :=
  ((reads_runRecord run).mp (of_readPayload fits.decoded).1).finite

/-- A record that fits and is newer than what its row holds is written. -/
theorem persistLocked_of_fits (fits : store.Fits run') (found : t[run'.runId]? = some row)
    (stored : toI64 run.revision = .ok row.revision) (newer : run.revision < run'.revision)
    (transaction : Int) :
    ∃ row' t', persistLocked t run' transaction = .ok t' ∧ t'[run'.runId]? = some row' ∧
      store.ReadAs row' run' ∧ ∀ id, id ≠ run'.runId → t'[id]? = t[id]? := by
  obtain ⟨revision, fitsRevision⟩ := fits.revision
  obtain ⟨column, expires⟩ := fits.expiry
  have admitted := (lt_iff_of_toI64 stored fitsRevision).mpr newer
  let row' : Row := ⟨revision, toValue run', run'.idempotencyKey, column, transaction⟩
  refine ⟨row', t.insert run'.runId row', ?_, ?_, ⟨fits.decoded, rfl⟩, fun id other => ?_⟩
  · simp only [persistLocked, bind, Except.bind, fitsRevision, expires, found, if_pos admitted]
    rfl
  · rw [BTreeMap.getElem?_insert, if_pos rfl]
  · rw [BTreeMap.getElem?_insert, if_neg (Ne.symm other)]

/-- A transition that makes a record that fits of what the row is read as writes it. -/
theorem transition_of_fits {α : Type} {k : RunId} (db : PgClock) {b : α}
    {act : RunRecord → Except RepositoryError (α × Option RunRecord)} (there : t[k]? = some row)
    (decodes : store.Decodes k row run) (acted : act run = .ok (b, some run'))
    (fits : store.Fits run') (own : run'.runId = k) (raised : run.Raised run') :
    ∃ row' t', store.transition t k db act = (.ok b, t') ∧ t'[k]? = some row' ∧
      store.ReadAs row' run' ∧ ∀ id, id ≠ k → t'[id]? = t[id]? := by
  have newer := raised.lt ((toI64_eq_ok.mp decodes.revision).1.trans (by decide))
  obtain ⟨row', t', persisted, there', read, others⟩ :=
    persistLocked_of_fits fits (own ▸ there) decodes.revision newer db.transaction
  rw [own] at there' others
  refine ⟨row', t', ?_, there', read, others⟩
  simp only [transition, loadLocked_eq_ok.mpr ⟨row, there, decodes.decoded⟩, acted, persisted]

end PostgresRunStore

/-- The table knows the runs of the repository, and each row is read as a run that is alike
the stored one under the renaming of its run. -/
def Tracks (store : PostgresRunStore) (F : RunId → UInt64 → UInt64) (s : Repository)
    (t : Table) : Prop :=
  ∀ k, s.runs[k]? = none ∧ t[k]? = none ∨
    ∃ (m : RunRecord) (row : Row) (p : RunRecord), s.runs[k]? = some m ∧ t[k]? = some row ∧
      store.ReadAs row p ∧ m.Alike (F k) s.nextLeaseToken p

/-- The renamings rename the tokens of the stored runs alike. -/
def Continues (s : Repository) (F F' : RunId → UInt64 → UInt64) : Prop :=
  ∀ k m, s.runs[k]? = some m → ∀ token, m.Issued token → F' k token = F k token

theorem Continues.put {s : Repository} {F : RunId → UInt64 → UInt64} {k : RunId} {m : RunRecord}
    {ρ : UInt64 → UInt64} (found : s.runs[k]? = some m)
    (agree : ∀ token, m.Issued token → ρ token = F k token) :
    Continues s F (Function.update F k ρ) := by
  intro id other found' token issued
  by_cases same : id = k
  · subst same
    obtain rfl := Option.some.inj (found.symm.trans found')
    rw [Function.update_self]
    exact agree token issued
  · rw [Function.update_of_ne same]

theorem Continues.refl (s : Repository) (F : RunId → UInt64 → UInt64) : Continues s F F :=
  fun _ _ _ _ _ => rfl

/-- What both repositories satisfy whatever calls they are given. -/
structure Upheld (s : Repository) (t : Table) : Prop where
  keyed : s.Keyed
  sound : s.Every RunRecord.Sound
  booked : s.Every RunRecord.Booked
  indexed : s.Indexed
  steady : t.Each RunRecord.Steady

/-- What a call to both repositories comes to: the table tracks the repository again, and the
answers are related. -/
def Continued {α β : Type} (store : PostgresRunStore) (F : RunId → UInt64 → UInt64)
    (R : (RunId → UInt64 → UInt64) → Repository → Table → α → β → Prop) (s : Repository)
    (result : Except RepositoryError α × Repository) (result' : Except RepositoryError β × Table) :
    Prop :=
  ∃ F', Tracks store F' result.2 result'.2 ∧ Continues s F F' ∧
    Except.Rel (R F' result.2 result'.2) result.1 result'.1

/-- The answers are related to the run of the key and to the run that its row is read as. -/
def Located {α β : Type} (store : PostgresRunStore)
    (R : (UInt64 → UInt64) → RunRecord → RunRecord → α → β → Prop) (k : RunId)
    (F : RunId → UInt64 → UInt64) (s : Repository) (t : Table) (a : α) (b : β) : Prop :=
  ∃ (m : RunRecord) (row : Row) (q : RunRecord), s.runs[k]? = some m ∧ t[k]? = some row ∧
    store.ReadAs row q ∧ R (F k) m q a b

/-- Answers that are related whatever the renaming. -/
theorem Located.elim {α β : Type} {R : α → β → Prop} {store : PostgresRunStore}
    {F : RunId → UInt64 → UInt64} {s : Repository} {t : Table} {k : RunId} {a : α} {b : β}
    (located : Located store (fun _ _ _ => R) k F s t a b) : R a b := by
  obtain ⟨_, _, _, -, -, -, related⟩ := located
  exact related

/-- The answered runs are what some run and its row are left as. -/
def Answered (store : PostgresRunStore) (F : RunId → UInt64 → UInt64) (s : Repository)
    (t : Table) (a b : RunRecord) : Prop :=
  ∃ k, Located store SameRun k F s t a b

namespace Tracks

variable {store : PostgresRunStore} {F : RunId → UInt64 → UInt64} {s : Repository} {t : Table}
  {k : RunId} {db : PgClock}

theorem absent (tracks : Tracks store F s t) (missing : s.runs[k]? = none) : t[k]? = none := by
  obtain ⟨-, absent⟩ | ⟨m, _, _, found, -⟩ := tracks k
  · exact absent
  · rw [missing] at found
    cases found

theorem present (tracks : Tracks store F s t) {m : RunRecord} (found : s.runs[k]? = some m) :
    ∃ row p, t[k]? = some row ∧ store.ReadAs row p ∧ m.Alike (F k) s.nextLeaseToken p := by
  obtain ⟨none, -⟩ | ⟨m', row, p, found', there, read, alike⟩ := tracks k
  · rw [none] at found
    cases found
  · obtain rfl := Option.some.inj (found.symm.trans found')
    exact ⟨row, p, there, read, alike⟩

/-- One run and its row are replaced by a run and a row that is read as an alike one. -/
theorem put (tracks : Tracks store F s t) {s' : Repository} {t' : Table} {m p : RunRecord}
    {row : Row} {ρ : UInt64 → UInt64}
    (runs : ∀ id, s'.runs[id]? = if k = id then some m else s.runs[id]?)
    (tokens : s.nextLeaseToken ≤ s'.nextLeaseToken) (there : t'[k]? = some row)
    (others : ∀ id, id ≠ k → t'[id]? = t[id]?) (read : store.ReadAs row p)
    (alike : m.Alike ρ s'.nextLeaseToken p) :
    Tracks store (Function.update F k ρ) s' t' := by
  intro id
  by_cases same : id = k
  · subst same
    refine .inr ⟨m, row, p, (runs id).trans (if_pos rfl), there, read, ?_⟩
    rwa [Function.update_self]
  · rw [runs, if_neg (Ne.symm same), others id same, Function.update_of_ne same]
    obtain missing | ⟨m, row, p, found, there, read, alike⟩ := tracks id
    · exact .inl missing
    · exact .inr ⟨m, row, p, found, there, read, alike.mono tokens⟩

/-- The stored run faces the run that its row is read as. -/
theorem facing (upheld : Upheld s t) {m p : RunRecord} {row : Row}
    (found : s.runs[k]? = some m) (there : t[k]? = some row) (read : store.ReadAs row p)
    (alike : m.Alike (F k) s.nextLeaseToken p) : Facing s k (F k) m p :=
  ⟨upheld.keyed, found, alike, upheld.booked k m found,
    (PostgresRunStore.decodes_of_steady upheld.steady there read.decoded).steady⟩

/-- A call on one run that leaves the runs alike leaves the table tracking the repository. -/
theorem transition {α β : Type}
    {R : (UInt64 → UInt64) → RunRecord → RunRecord → α → β → Prop}
    {result : Except RepositoryError α × Repository}
    {act : RunRecord → Except RepositoryError (β × Option RunRecord)}
    (tracks : Tracks store F s t) (upheld : Upheld s t)
    (missing : s.runs[k]? = none → result = (.error (.runNotFound k), s))
    (together : ∀ m row p, t[k]? = some row → store.readPayload row.payload = .ok p →
      Facing s k (F k) m p → Together R s k (F k) m p result (act p))
    (turn : ∀ row p, t[k]? = some row → store.readPayload row.payload = .ok p → p.runId = k →
      ∀ b p', act p = .ok (b, some p') → store.Fits p' ∧ p'.runId = k ∧ p.Raised p') :
    Continued store F (Located store R k) s result (store.transition t k db act) := by
  obtain ⟨none, none'⟩ | ⟨m, row, p, found, there, read, alike⟩ := tracks k
  · have missed : store.transition t k db act = (.error (.runNotFound k), t) := by
      simp only [PostgresRunStore.transition,
        PostgresRunStore.loadLocked_eq_ok_none.mpr none']
    rw [missing none, missed]
    exact ⟨F, tracks, .refl s F, .error _⟩
  · have loaded := PostgresRunStore.loadLocked_eq_ok.mpr ⟨row, there, read.decoded⟩
    have decodes := PostgresRunStore.decodes_of_steady upheld.steady there read.decoded
    have both := together m row p there read.decoded (facing upheld found there read alike)
    cases acted : act p with
    | error error =>
        rw [acted] at both
        cases both
        simp only [PostgresRunStore.transition, loaded, acted]
        exact ⟨F, tracks, .refl s F, .error _⟩
    | ok answer =>
        obtain ⟨b, written⟩ := answer
        rw [acted] at both
        cases both with
        | @done a _ m' s' _ runs tokens alike =>
            have here : s'.runs[k]? = some m' := (runs k).trans (if_pos rfl)
            cases written with
            | none =>
                obtain ⟨ρ, agree, alike, related⟩ := alike (by simp)
                simp only [PostgresRunStore.transition, loaded, acted]
                refine ⟨Function.update F k ρ,
                  tracks.put runs tokens there (fun _ _ => rfl) read alike, .put found agree,
                  .ok ⟨m', row, p, here, there, read, ?_⟩⟩
                rwa [Function.update_self]
            | some p' =>
                obtain ⟨fits, own, raised⟩ := turn row p there read.decoded decodes.own b p' acted
                obtain ⟨ρ, agree, alike, related⟩ := alike fun _ same => by
                  obtain rfl := Option.some.inj same
                  exact fits.finite
                obtain ⟨row', t', written, there', read', others⟩ :=
                  PostgresRunStore.transition_of_fits db there decodes acted fits own raised
                rw [written]
                refine ⟨Function.update F k ρ, tracks.put runs tokens there' others read' alike,
                  .put found agree, .ok ⟨m', row', p', here, there', read', ?_⟩⟩
                rwa [Function.update_self]

/-- Neither the index nor the rows know the key, or both know its run. -/
theorem findKey (tracks : Tracks store F s t) (indexed : s.Indexed) (key : IdempotencyKey) :
    s.idempotency[key]? = none ∧ PostgresRunStore.findKey t key = none ∨
      ∃ (k : RunId) (m : RunRecord) (row : Row) (p : RunRecord), s.idempotency[key]? = some k ∧
        s.runs[k]? = some m ∧ PostgresRunStore.findKey t key = some row ∧ t[k]? = some row ∧
        store.ReadAs row p ∧ m.Alike (F k) s.nextLeaseToken p := by
  unfold PostgresRunStore.findKey
  cases located : t.toList.find? fun entry => entry.2.idempotencyKey == some key with
  | none =>
      refine .inl ⟨?_, rfl⟩
      cases held : s.idempotency[key]? with
      | none => rfl
      | some k =>
          obtain ⟨m, found, keyed⟩ := (indexed key k).mp held
          obtain ⟨row, p, there, read, alike⟩ := tracks.present found
          have member := Std.ExtTreeMap.mem_toList_iff_getElem?_eq_some.mpr there
          have unkeyed := List.find?_eq_none.mp located _ member
          rw [read.key, alike.same.idempotencyKey, keyed, beq_self_eq_true] at unkeyed
          exact absurd rfl unkeyed
  | some entry =>
      obtain ⟨k, row⟩ := entry
      have there := Std.ExtTreeMap.mem_toList_iff_getElem?_eq_some.mp
        (List.mem_of_find?_eq_some located)
      have keyed : row.idempotencyKey = some key := by simpa using List.find?_some located
      obtain ⟨-, missing⟩ | ⟨m, row', p, found, there', read, alike⟩ := tracks k
      · rw [missing] at there
        cases there
      · obtain rfl := Option.some.inj (there.symm.trans there')
        rw [read.key, alike.same.idempotencyKey] at keyed
        exact .inr ⟨k, m, row, p, (indexed key k).mpr ⟨m, found, keyed⟩, found, rfl, there, read,
          alike⟩

end Tracks

/-- Runs that are created together are alike, whatever number their start gets. -/
theorem RunRecord.alike_created (request : RunRequest) (now sequence sequence' eventNow : UInt64)
    (ρ : UInt64 → UInt64) (top : UInt64) :
    (created request now sequence eventNow).Alike ρ top
      (created request now sequence' eventNow) := by
  have unissued : ∀ token, ¬ (created request now sequence eventNow).Issued token := by
    rintro token ⟨id, member⟩
    simp [RunRecord.tokens, created, RunRecord.new] at member
  refine ⟨?_, ⟨rfl, ?_⟩, fun a b issued => (unissued a issued).elim,
    fun token issued => (unissued token issued).elim⟩
  · exact RunRecord.Matches.logged rfl _ _ _ _
  · rfl

/-- A request with an unheld key and an unused run id becomes a run in memory. -/
theorem Repository.createRun_of_free (s : Repository) {request : RunRequest} (clock : Clock)
    (accepted : validateRunRequest request = some (.ok ()))
    (free : (request.idempotencyKey >>= fun key => s.idempotency[key]?) = none)
    (fresh : s.runs[request.runId]? = none) :
    ∃ sequence s', s.createRun request clock =
        (some (.ok (.created request (clock.call 0) sequence (clock.call 1))), s') ∧
      s.Creates (.created request (clock.call 0) sequence (clock.call 1)) s' := by
  have absent : s.runs.contains request.runId = false := by
    rw [Bool.eq_false_iff, Ne, BTreeMap.contains_iff]
    rintro ⟨run, found⟩
    rw [fresh] at found
    cases found
  cases key : request.idempotencyKey with
  | none =>
      obtain ⟨sequence, s', stored, creation⟩ := stored_creates s clock fresh s rfl rfl
      rw [key] at free stored
      refine ⟨sequence, s', ?_, creation⟩
      simp only [RunRecord.new] at stored
      simp only [createRun, accepted, key, free, absent, RunRecord.new, Bool.false_eq_true,
        if_false, stored]
  | some key' =>
      obtain ⟨sequence, s', stored, creation⟩ := stored_creates s clock fresh
        { s with idempotency := s.idempotency.insert key' request.runId } rfl rfl
      rw [key] at free stored
      refine ⟨sequence, s', ?_, creation⟩
      simp only [RunRecord.new] at stored
      simp only [createRun, accepted, key, free, absent, RunRecord.new, Bool.false_eq_true,
        if_false, stored]

/-- The same request becomes a row. -/
theorem PostgresRunStore.createRun_of_free {store : PostgresRunStore} {t : Table}
    {request : RunRequest} (clock : Clock) (db : PgClock)
    (accepted : validateRunRequest request = some (.ok ()))
    (free : (request.idempotencyKey >>= findKey t) = none) (fresh : t[request.runId]? = none)
    (fits : store.Fits (.created request (clock.call 0) 1 (clock.call 1))) :
    ∃ row t', store.createRun t request clock db =
        (some (.ok (.created request (clock.call 0) 1 (clock.call 1))), t') ∧
      t'[request.runId]? = some row ∧
      store.ReadAs row (.created request (clock.call 0) 1 (clock.call 1)) ∧
      ∀ id, id ≠ request.runId → t'[id]? = t[id]? := by
  obtain ⟨run, same⟩ : ∃ run, run = RunRecord.created request (clock.call 0) 1 (clock.call 1) :=
    ⟨_, rfl⟩
  have own : run.runId = request.runId := by rw [same]; rfl
  have key : run.idempotencyKey = request.idempotencyKey := by rw [same]; rfl
  have appended : ({ RunRecord.new request.runId request.workflow request.manifest request.input
      (clock.call 0) with
        status := .running, idempotencyKey := request.idempotencyKey } : RunRecord).appendRunEvent
      (.runStarted request.runId request.workflow.id) (clock.call 1) = .ok (_, run) :=
    RunRecord.appendRunEvent_eq_ok.mpr ⟨rfl, rfl, same⟩
  rw [← same] at fits ⊢
  obtain ⟨revision, fitsRevision⟩ := fits.revision
  obtain ⟨column, expires⟩ := fits.expiry
  have unleased : ({ RunRecord.new request.runId request.workflow request.manifest request.input
      (clock.call 0) with
        status := .running, idempotencyKey := request.idempotencyKey } : RunRecord).leaseExpiryMs =
      .ok column := by
    rw [same] at expires
    exact expires
  let row : Row := ⟨revision, toValue run, run.idempotencyKey, column, db.transaction⟩
  have absent : t.contains run.runId = false := by
    rw [own, Bool.eq_false_iff, Ne, BTreeMap.contains_iff]
    rintro ⟨row, found⟩
    rw [fresh] at found
    cases found
  have unheld : (run.idempotencyKey >>= findKey t).isSome = false := by
    rw [key, free]
    rfl
  have inserted : insertRow t run.runId row = some (t.insert run.runId row) := by
    rw [insertRow, absent, unheld]
    rfl
  refine ⟨row, t.insert run.runId row, ?_, ?_, ⟨fits.decoded, rfl⟩, fun id other => ?_⟩
  · simp only [RunRecord.new] at appended unleased
    simp only [createRun, accepted, free, loadLocked_eq_ok_none.mpr fresh, RunRecord.new, appended,
      unleased, fitsRevision]
    rw [inserted]
  · rw [BTreeMap.getElem?_insert, if_pos own]
  · rw [BTreeMap.getElem?_insert, own, if_neg (Ne.symm other)]

/-- What a creation makes of a repository and of the table that tracks it. -/
theorem Tracks.create {store : PostgresRunStore} {F : RunId → UInt64 → UInt64} {s : Repository}
    {t : Table} (tracks : Tracks store F s t) (upheld : Upheld s t) (request : RunRequest)
    (clock : Clock) (db : PgClock)
    (fits : validateRunRequest request = some (.ok ()) →
      (request.idempotencyKey >>= PostgresRunStore.findKey t) = none → t[request.runId]? = none →
        store.Fits (.created request (clock.call 0) 1 (clock.call 1))) :
    ∃ F', Tracks store F' (s.createRun request clock).2 (store.createRun t request clock db).2 ∧
      Continues s F F' ∧ Option.Rel (Except.Rel (Answered store F'
        (s.createRun request clock).2 (store.createRun t request clock db).2))
          (s.createRun request clock).1 (store.createRun t request clock db).1 := by
  cases accepted : validateRunRequest request with
  | none =>
      simp only [Repository.createRun, PostgresRunStore.createRun, accepted]
      exact ⟨F, tracks, .refl s F, .none⟩
  | some verdict =>
      cases verdict with
      | error error =>
          simp only [Repository.createRun, PostgresRunStore.createRun, accepted]
          exact ⟨F, tracks, .refl s F, .some (.error _)⟩
      | ok accepting =>
          have keys : (request.idempotencyKey >>= fun key => s.idempotency[key]?) = none ∧
              (request.idempotencyKey >>= PostgresRunStore.findKey t) = none ∨
            ∃ (k : RunId) (m : RunRecord) (row : Row) (p : RunRecord),
              (request.idempotencyKey >>= fun key => s.idempotency[key]?) = some k ∧
              s.runs[k]? = some m ∧
              (request.idempotencyKey >>= PostgresRunStore.findKey t) = some row ∧
              t[k]? = some row ∧ store.ReadAs row p ∧ m.Alike (F k) s.nextLeaseToken p := by
            cases request.idempotencyKey with
            | none => exact .inl ⟨rfl, rfl⟩
            | some key => exact tracks.findKey upheld.indexed key
          obtain ⟨free, free'⟩ | ⟨k, m, row, p, held, found, held', there, read, alike⟩ := keys
          · cases stored : s.runs[request.runId]? with
            | none =>
                have absent := tracks.absent stored
                obtain ⟨sequence, s', created, creation⟩ :=
                  s.createRun_of_free clock accepted free stored
                obtain ⟨row, t', created', there, read, others⟩ :=
                  PostgresRunStore.createRun_of_free clock db accepted free' absent
                    (fits accepted free' absent)
                rw [created, created']
                have tokens : s.nextLeaseToken ≤ s'.nextLeaseToken := by
                  rw [creation.token]
                  exact UInt64.le_refl _
                have alike := RunRecord.alike_created request (clock.call 0) sequence 1
                  (clock.call 1) (F request.runId) s'.nextLeaseToken
                have tracks' : Tracks store (Function.update F request.runId (F request.runId))
                    s' t' := tracks.put creation.runs tokens there others read alike
                rw [Function.update_eq_self] at tracks'
                refine ⟨F, tracks', .refl s F, .some (.ok ⟨request.runId, _, row, _, ?_, there,
                  read, .of_left alike.same alike.metrics⟩)⟩
                exact (creation.runs request.runId).trans (if_pos rfl)
            | some m =>
                obtain ⟨row, p, there, read, -⟩ := tracks.present stored
                have known : s.runs.contains request.runId = true :=
                  BTreeMap.contains_iff.mpr ⟨m, stored⟩
                have loaded := PostgresRunStore.loadLocked_eq_ok.mpr ⟨row, there, read.decoded⟩
                simp only [Repository.createRun, PostgresRunStore.createRun, accepted, free, free',
                  known, loaded, if_true]
                exact ⟨F, tracks, .refl s F, .some (.error _)⟩
          · simp only [Repository.createRun, PostgresRunStore.createRun, accepted, held, held',
              found]
            have decodes := PostgresRunStore.decodes_of_steady upheld.steady there read.decoded
            have answer : store.answerExisting request row =
                if m.workflow == request.workflow && m.manifest == request.manifest &&
                  m.input == request.input then .ok p else .error (.idempotencyConflict k) := by
              simp only [PostgresRunStore.answerExisting, read.decoded, bind, Except.bind,
                decodes.own, alike.same.workflow, alike.same.manifest, alike.same.input]
            rw [answer]
            split
            · exact ⟨F, tracks, .refl s F, .some (.ok ⟨k, m, row, p, found, there, read,
                .of_left alike.same alike.metrics⟩)⟩
            · exact ⟨F, tracks, .refl s F, .some (.error _)⟩

end Orchestrator
