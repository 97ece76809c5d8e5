import Orchestrator.Postgres.Sweep

/-!
# Recovery of all expired leases

A sweep writes back every run that it has fetched, or fails as a whole. So it makes
progress as long as what is left of each expired run fits the columns of its row, and a
run that does not fit stays in the table with its expired lease.
-/

namespace Orchestrator

open Json (toValue fromValue)

namespace PostgresRunStore

section Decoding

variable {store : PostgresRunStore} {k : RunId} {row : Row} {run run' : RunRecord} {now : UInt64}

/-- What is read from a row has the leases of what the row stores. -/
theorem Decodes.read (decodes : store.Decodes k row run') (stores : row.Stores run) :
    fromValue (toValue run) = some run' := by
  rw [← stores.payload]
  exact (of_readPayload decodes.decoded).1

theorem Decodes.lapsed (decodes : store.Decodes k row run') (stores : row.Stores run)
    (id : StepId) : run'.lapsed now id = run.lapsed now id :=
  RunRecord.lapsed_congr (leaseOf_of_read (decodes.read stores) id)

theorem Decodes.expired (decodes : store.Decodes k row run') (stores : row.Stores run) :
    run'.Expired now ↔ run.Expired now := by
  unfold RunRecord.Expired
  simp only [leasedUntil_of_read (decodes.read stores)]

theorem Decodes.sweepable (decodes : store.Decodes k row run') (stores : row.Stores run) :
    run'.Sweepable now ↔ run.Sweepable now := by
  obtain ⟨-, -, revision, steps, -, -⟩ := read_back (decodes.read stores)
  have runId : run'.runId = run.runId := by rw [eq_of_fromValue_runRecord (decodes.read stores)]
  have listed : run'.lapsedSteps now = run.lapsedSteps now := by
    unfold RunRecord.lapsedSteps
    simp only [decodes.lapsed stores, steps, runId]
  constructor
  · rintro ⟨below, expiry⟩
    rw [revision, listed] at below
    simp only [leasedUntil_of_read (decodes.read stores)] at expiry
    exact ⟨below, expiry⟩
  · rintro ⟨below, expiry⟩
    rw [← revision, ← listed] at below
    simp only [← leasedUntil_of_read (decodes.read stores)] at expiry
    exact ⟨below, expiry⟩

end Decoding

variable {store : PostgresRunStore} {s : Table} {now : UInt64} {clock : Clock} {db : PgClock}

/-- Every row with an expired lease is read as a run that fits its row when it is recovered. -/
def Fit (store : PostgresRunStore) (s : Table) (t : Int64) (now : UInt64) : Prop :=
  ∀ (k : RunId) (row : Row), s[k]? = some row → (∃ expiry ∈ row.leaseExpiresAtMs, expiry ≤ t) →
    ∃ run, store.Decodes k row run ∧ run.Sweepable now

/-- The sweep of a table whose expired runs fit. -/
theorem recoverExpired_of_fit (fit : store.Fit s db.now now) (reading : toU64 db.now = .ok now)
    (clock : Clock) : ∃ expired s', store.recoverExpired s clock db = (.ok expired, s') ∧
      expired.Nodup ∧
      (∀ k id, (k, id) ∈ expired ↔ ∃ row run, (k, row) ∈ store.expiredRows s db.now ∧
        store.Decodes k row run ∧ run.lapsed now id = true) ∧
      (∀ entry ∈ store.expiredRows s db.now, ∃ row run, s'[entry.1]? = some row ∧
        run.runId = entry.1 ∧ row.Stores run ∧ ¬ run.Expired now) ∧
      ∀ k, k ∉ (store.expiredRows s db.now).map Prod.fst → s'[k]? = s[k]? := by
  have bound := toI64_of_toU64 reading
  have fetched := earliestExpired store s db.now
  have decodes : ∀ entry ∈ store.expiredRows s db.now, ∃ run,
      store.Decodes entry.1 entry.2 run ∧ run.Expired now ∧ run.Sweepable now := by
    intro entry member
    obtain ⟨found, past⟩ := fetched.expired entry member
    obtain ⟨run, decodes, sweepable⟩ := fit entry.1 entry.2 found past
    exact ⟨run, decodes, (RunRecord.expired_iff decodes.expiry bound).mp past, sweepable⟩
  obtain ⟨expired, s', recovered, nodup, listed, cleared⟩ := recoverRows_eq_ok now clock db
    fetched.distinct (fun entry member => (fetched.expired entry member).1) decodes []
  rw [List.nil_append] at recovered
  refine ⟨expired, s', ?_, nodup, listed, cleared, fun k other => ?_⟩
  · rw [recoverExpired, reading]
    simp only [bind, Except.bind, bound, recovered]
  · refine recoverRows_others (fun entry member run read => ?_) recovered other
    obtain ⟨run', decodes, -⟩ := decodes entry member
    obtain rfl := Except.ok.inj (decodes.decoded.symm.trans read)
    exact decodes.own

/-- A run that does not fit stays in its row, and in the way of every sweep that fetches it. -/
theorem recoverExpired_stuck (each : s.Each RunRecord.Steady) {k : RunId} {row : Row}
    {run : RunRecord} (found : s[k]? = some row) (decodes : store.Decodes k row run)
    (unfit : ¬ run.Sweepable now) (reading : toU64 db.now = .ok now) :
    (store.recoverExpired s clock db).2[k]? = some row := by
  have bound := toI64_of_toU64 reading
  have fetched := earliestExpired store s db.now
  rw [recoverExpired, reading]
  simp only [bind, Except.bind, bound]
  split
  · exact found
  next expired s' recovered =>
    have steady : ∀ entry ∈ store.expiredRows s db.now, ∀ run,
        store.readPayload entry.2.payload = .ok run → store.Decodes entry.1 entry.2 run :=
      fun entry member run read =>
        decodes_of_steady each (fetched.expired entry member).1 read
    have missed : k ∉ (store.expiredRows s db.now).map Prod.fst := by
      intro shown
      obtain ⟨entry, member, rfl⟩ := List.mem_map.mp shown
      obtain ⟨run', decodes', sweepable⟩ := sweepable_of_recoverRows fetched.distinct
        (fun entry member => (fetched.expired entry member).1)
        (fun entry member run read => ⟨steady entry member run read,
          (RunRecord.expired_iff (steady entry member run read).expiry bound).mp
            (fetched.expired entry member).2⟩) recovered entry member
      obtain rfl := Option.some.inj (found.symm.trans (fetched.expired entry member).1)
      obtain rfl := Except.ok.inj (decodes.decoded.symm.trans decodes'.decoded)
      exact unfit sweepable
    rw [recoverRows_others (fun entry member run read => (steady entry member run read).own)
      recovered missed]
    exact found

/-- The rows with an expired lease. -/
def expiredKeys (s : Table) (t : Int64) : List RunId :=
  (s.toList.filter fun entry : RunId × Row =>
    entry.2.leaseExpiresAtMs.any fun expiry => decide (expiry ≤ t)).map Prod.fst

theorem mem_expiredKeys {t : Int64} {k : RunId} : k ∈ expiredKeys s t ↔
    ∃ row, s[k]? = some row ∧ ∃ expiry ∈ row.leaseExpiresAtMs, expiry ≤ t := by
  simp only [expiredKeys, List.mem_map, List.mem_filter, Option.any_eq_true, decide_eq_true_eq]
  constructor
  · rintro ⟨⟨k, row⟩, ⟨found, past⟩, rfl⟩
    exact ⟨row, Std.ExtTreeMap.mem_toList_iff_getElem?_eq_some.mp found, past⟩
  · rintro ⟨row, found, past⟩
    exact ⟨(k, row), ⟨Std.ExtTreeMap.mem_toList_iff_getElem?_eq_some.mpr found, past⟩, rfl⟩

theorem expiredKeys_nodup (s : Table) (t : Int64) : (expiredKeys s t).Nodup :=
  s.keys_nodup.sublist (List.filter_sublist.map _)

/-- The table before each of the sweeps that come one after the other. -/
def sweeps (store : PostgresRunStore) (s : Table) (calls : Nat → Clock × PgClock) : Nat → Table
  | 0 => s
  | n + 1 => (store.recoverExpired (sweeps store s calls n) (calls n).1 (calls n).2).2

/-- A row that is expired after the sweep was not fetched, so it is as before. -/
theorem Fit.kept (fit : store.Fit s db.now now) (reading : toU64 db.now = .ok now)
    {k : RunId} {row : Row} (found : (store.recoverExpired s clock db).2[k]? = some row)
    (past : ∃ expiry ∈ row.leaseExpiresAtMs, expiry ≤ db.now) :
    s[k]? = some row ∧ k ∉ (store.expiredRows s db.now).map Prod.fst := by
  obtain ⟨expired, s', result, -, -, cleared, others⟩ := recoverExpired_of_fit fit reading clock
  rw [result] at found
  have missed : k ∉ (store.expiredRows s db.now).map Prod.fst := by
    intro shown
    obtain ⟨entry, member, rfl⟩ := List.mem_map.mp shown
    obtain ⟨row', run, found', -, stores, lasts⟩ := cleared entry member
    obtain rfl := Option.some.inj (found.symm.trans found')
    exact lasts ((RunRecord.expired_iff stores.leaseExpiresAtMs (toI64_of_toU64 reading)).mp past)
  exact ⟨(others k missed).symm.trans found, missed⟩

theorem Fit.next (fit : store.Fit s db.now now) (reading : toU64 db.now = .ok now)
    (clock : Clock) : store.Fit (store.recoverExpired s clock db).2 db.now now := by
  intro k row found past
  exact fit k row (fit.kept reading found past).1 past

theorem Fit.expiredKeys_subset (fit : store.Fit s db.now now) (reading : toU64 db.now = .ok now)
    (clock : Clock) :
    expiredKeys (store.recoverExpired s clock db).2 db.now ⊆ expiredKeys s db.now := by
  intro k member
  obtain ⟨row, found, past⟩ := mem_expiredKeys.mp member
  exact mem_expiredKeys.mpr ⟨row, (fit.kept reading found past).1, past⟩

/-- A sweep that fetches a row recovers one of its steps, and fewer rows are expired. -/
theorem Fit.fewer (fit : store.Fit s db.now now) (reading : toU64 db.now = .ok now)
    (clock : Clock) {entry : RunId × Row} (member : entry ∈ store.expiredRows s db.now) :
    (store.recoverExpired s clock db).1 ≠ .ok [] ∧
      (expiredKeys (store.recoverExpired s clock db).2 db.now).length <
        (expiredKeys s db.now).length := by
  obtain ⟨found, past⟩ := (earliestExpired store s db.now).expired entry member
  constructor
  · obtain ⟨expired, s', result, -, listed, -⟩ := recoverExpired_of_fit fit reading clock
    obtain ⟨run, decodes, -⟩ := fit entry.1 entry.2 found past
    have due := (RunRecord.expired_iff decodes.expiry (toI64_of_toU64 reading)).mp past
    obtain ⟨⟨k, id⟩, lapsed⟩ :=
      List.exists_mem_of_ne_nil _ (decodes.steady.lapsedSteps_ne_nil.mpr due)
    have recovered := (listed entry.1 id).mpr
      ⟨entry.2, run, member, decodes, (decodes.steady.mem_lapsedSteps.mp lapsed).2⟩
    intro empty
    rw [result] at empty
    rw [Except.ok.inj empty] at recovered
    cases recovered
  · have gone : entry.1 ∉ expiredKeys (store.recoverExpired s clock db).2 db.now := by
      intro still
      obtain ⟨row, found, past⟩ := mem_expiredKeys.mp still
      exact (fit.kept reading found past).2 (List.mem_map_of_mem member)
    have there := mem_expiredKeys.mpr ⟨entry.2, found, past⟩
    have distinct := List.nodup_cons.mpr ⟨gone, expiredKeys_nodup _ db.now⟩
    have more := List.cons_subset.mpr ⟨there, fit.expiredKeys_subset reading clock⟩
    exact (distinct.subperm more).length_le

/-- A sweep answers that nothing was expired, and nothing is, or fewer rows are expired. -/
theorem Fit.progress (fit : store.Fit s db.now now) (reading : toU64 db.now = .ok now)
    (clock : Clock) :
    ((store.recoverExpired s clock db).1 = .ok [] ∧
        expiredKeys (store.recoverExpired s clock db).2 db.now = []) ∨
      (store.recoverExpired s clock db).1 ≠ .ok [] ∧
        (expiredKeys (store.recoverExpired s clock db).2 db.now).length <
          (expiredKeys s db.now).length := by
  have fetched := earliestExpired store s db.now
  obtain ⟨expired, s', result, -, listed, -⟩ := recoverExpired_of_fit fit reading clock
  cases rows : store.expiredRows s db.now with
  | nil =>
      refine .inl ⟨?_, ?_⟩
      · have none : expired = [] := by
          apply List.eq_nil_iff_forall_not_mem.mpr
          rintro ⟨k, id⟩ member
          obtain ⟨row, run, shown, -⟩ := (listed k id).mp member
          rw [rows] at shown
          cases shown
        rw [result, none]
      · apply List.eq_nil_iff_forall_not_mem.mpr
        intro k member
        obtain ⟨row, found, expiry, column, past⟩ :=
          mem_expiredKeys.mp (fit.expiredKeys_subset reading clock member)
        -- Had an expired row been missed, a hundred others would have been fetched.
        have missed : (k, row) ∉ store.expiredRows s db.now := by
          rw [rows]
          exact List.not_mem_nil
        have full := (fetched.earliest k row found expiry column past missed).1
        rw [rows] at full
        cases full
  | cons entry rest =>
      apply Or.inr
      have member : entry ∈ store.expiredRows s db.now := by
        rw [rows]
        exact List.mem_cons_self
      exact fit.fewer reading clock member

/-- Sweeps of a table whose expired runs fit come to an end. -/
theorem Fit.exists_empty {t : Int64} (fit : store.Fit s t now) (reading : toU64 t = .ok now)
    {calls : Nat → Clock × PgClock} (clocks : ∀ n, (calls n).2.now = t) :
    ∃ n, (store.recoverExpired (store.sweeps s calls n) (calls n).1 (calls n).2).1 = .ok [] := by
  by_contra endless
  have busy := not_exists.mp endless
  have counted : ∀ n, store.Fit (store.sweeps s calls n) t now ∧
      (expiredKeys (store.sweeps s calls n) t).length + n ≤ (expiredKeys s t).length := by
    intro n
    induction n with
    | zero => exact ⟨fit, le_refl _⟩
    | succ n ih =>
        obtain ⟨fit, few⟩ := ih
        obtain rfl := clocks n
        obtain ⟨empty, -⟩ | ⟨-, fewer⟩ := fit.progress reading (calls n).1
        · exact absurd empty (busy n)
        · refine ⟨fit.next reading (calls n).1, ?_⟩
          change (expiredKeys (store.recoverExpired _ _ _).2 _).length + (n + 1) ≤ _
          omega
  obtain ⟨-, few⟩ := counted ((expiredKeys s t).length + 1)
  omega

end PostgresRunStore

/-- The expiry column of each row is the least expiry of the leases in its payload. -/
def Table.Columns (s : Table) : Prop :=
  ∀ (k : RunId) (row : Row), s[k]? = some row → ∃ run : RunRecord, run.runId = k ∧
    row.payload = toValue run ∧
    ((row.leaseExpiresAtMs = none ∧ ∀ expiry, ¬ run.LeasedUntil expiry) ∨
      ∃ i expiry, row.leaseExpiresAtMs = some i ∧ i.toInt = UInt64.toNat expiry ∧
        run.LeasedUntil expiry ∧ ∀ other, run.LeasedUntil other → expiry ≤ other)

namespace PostgresRunStore

/-- The sweep recovers the expired steps of the rows that expired first, which have no
expired lease after it, and leaves the other rows alone. -/
def SweepsOnce (store : PostgresRunStore) (s : Table) (now : UInt64) (clock : Clock)
    (db : PgClock) : Prop :=
  ∃ entries expired s', EarliestExpired s db.now entries ∧
    store.recoverExpired s clock db = (.ok expired, s') ∧ expired.Nodup ∧
    (∀ k id, (k, id) ∈ expired ↔ ∃ row run, (k, row) ∈ entries ∧ row.Stores run ∧
      run.lapsed now id = true) ∧
    (∀ entry ∈ entries, ∃ row run, s'[entry.1]? = some row ∧ run.runId = entry.1 ∧
      row.Stores run ∧ ¬ run.Expired now) ∧
    ∀ k, k ∉ entries.map Prod.fst → s'[k]? = s[k]?

/-- Recovery when the clock of the database reads `t` misses no expired lease of the table,
be it in one sweep or by sweeps that go on until one finds nothing. -/
structure RecoversAll (store : PostgresRunStore) (s : Table) (t : Int64) (now : UInt64) : Prop where
  columns : s.Columns
  once : ∀ clock db, db.now = t → store.SweepsOnce s now clock db
  repeated : ∀ calls : Nat → Clock × PgClock, (∀ n, (calls n).2.now = t) →
    (∃ n, (store.recoverExpired (store.sweeps s calls n) (calls n).1 (calls n).2).1 = .ok []) ∧
      ∀ n, (store.recoverExpired (store.sweeps s calls n) (calls n).1 (calls n).2).1 = .ok [] →
        (store.sweeps s calls (n + 1)).Each fun run => ¬ run.Expired now

section Reachable

variable {store : PostgresRunStore} {s : Table} {t : Int64} {now : UInt64}

theorem sweeps_steady (each : s.Each RunRecord.Steady) (calls : Nat → Clock × PgClock) (n : Nat) :
    (store.sweeps s calls n).Each RunRecord.Steady := by
  induction n with
  | zero => exact each
  | succ n ih => exact steady_next ih (.recoverExpired (calls n).1, (calls n).2)

theorem columns_of_steady (each : s.Each RunRecord.Steady) : s.Columns := by
  intro k row found
  obtain ⟨run, own, stores, -⟩ := each k row found
  refine ⟨run, own, stores.payload, ?_⟩
  obtain free | ⟨expiry, i, column, fits, leased, least⟩ :=
    RunRecord.leaseExpiryMs_eq_ok.mp stores.leaseExpiresAtMs
  · exact .inl free
  · exact .inr ⟨i, expiry, column, toInt_of_toI64 fits, leased, least⟩

theorem Fit.sweepsOnce {db : PgClock} (fit : store.Fit s db.now now)
    (each : s.Each RunRecord.Steady) (reading : toU64 db.now = .ok now) (clock : Clock) :
    store.SweepsOnce s now clock db := by
  have fetched := earliestExpired store s db.now
  obtain ⟨expired, s', result, nodup, listed, cleared, others⟩ :=
    recoverExpired_of_fit fit reading clock
  refine ⟨_, expired, s', fetched, result, nodup, fun k id => ?_, cleared, others⟩
  rw [listed]
  constructor
  · rintro ⟨row, run, member, decodes, past⟩
    obtain ⟨stored, -, stores, -⟩ := each k row (fetched.expired _ member).1
    exact ⟨row, stored, member, stores, (decodes.lapsed stores id).symm.trans past⟩
  · rintro ⟨row, stored, member, stores, past⟩
    obtain ⟨found, due⟩ := fetched.expired _ member
    obtain ⟨run, decodes, -⟩ := fit k row found due
    exact ⟨row, run, member, decodes, (decodes.lapsed stores id).trans past⟩

theorem Fit.recoversAll (fit : store.Fit s t now) (each : s.Each RunRecord.Steady)
    (reading : toU64 t = .ok now) : store.RecoversAll s t now := by
  refine ⟨columns_of_steady each, ?_, fun calls clocks => ⟨fit.exists_empty reading clocks, ?_⟩⟩
  · rintro clock db rfl
    exact fit.sweepsOnce each reading clock
  · intro n empty
    have ready : ∀ n, store.Fit (store.sweeps s calls n) t now := by
      intro n
      induction n with
      | zero => exact fit
      | succ n ih =>
          obtain rfl := clocks n
          exact ih.next reading (calls n).1
    obtain rfl := clocks n
    obtain ⟨-, none⟩ | ⟨busy, -⟩ := (ready n).progress reading (calls n).1
    · intro k row found
      obtain ⟨run, own, stores, -⟩ := sweeps_steady each calls (n + 1) k row found
      refine ⟨run, own, stores, fun past => ?_⟩
      have due := (RunRecord.expired_iff stores.leaseExpiresAtMs (toI64_of_toU64 reading)).mpr past
      have member := mem_expiredKeys.mpr ⟨row, found, due⟩
      change k ∈ expiredKeys (store.recoverExpired _ _ _).2 _ at member
      rw [none] at member
      cases member
    · exact absurd empty busy

/-- A run that does not fit keeps its row through all sweeps. -/
theorem sweeps_stuck (each : s.Each RunRecord.Steady) {k : RunId} {row : Row} {run : RunRecord}
    (found : s[k]? = some row) (decodes : store.Decodes k row run) (unfit : ¬ run.Sweepable now)
    (reading : toU64 t = .ok now) {calls : Nat → Clock × PgClock}
    (clocks : ∀ n, (calls n).2.now = t) (n : Nat) : (store.sweeps s calls n)[k]? = some row := by
  induction n with
  | zero => exact found
  | succ n ih =>
      apply recoverExpired_stuck (sweeps_steady each calls n) ih decodes unfit
      rw [clocks]
      exact reading

end Reachable

/-- Recovery misses no expired lease of a reachable table just if every run with an expired
lease fits the columns of its row once it is recovered. -/
theorem recovery_complete_iff (store : PostgresRunStore) (ops : List PgOp) (t : Int64)
    (now : UInt64) (reading : toU64 t = .ok now)
    (undone : ∀ (k : RunId) (row : Row), ((postgres store).after ops)[k]? = some row →
      ∃ run : RunRecord, row.payload = toValue run ∧ store.fetch row.payload = .ok row.payload ∧
        fromValue row.payload = some run) :
    store.RecoversAll ((postgres store).after ops) t now ↔
      ((postgres store).after ops).Each fun run => run.Expired now → run.Sweepable now := by
  have each := steady_after store ops
  have bound := toI64_of_toU64 reading
  have decoded : ∀ (k : RunId) (row : Row), ((postgres store).after ops)[k]? = some row →
      ∃ run, store.Decodes k row run := by
    intro k row found
    obtain ⟨run, -, fetched, back⟩ := undone k row found
    exact ⟨run, decodes_of_steady each found (readPayload_of_read found fetched back)⟩
  constructor
  · intro complete k row found
    obtain ⟨stored, own, stores, -⟩ := each k row found
    obtain ⟨run, decodes⟩ := decoded k row found
    refine ⟨stored, own, stores, fun past => ?_⟩
    by_contra unfit
    obtain ⟨calls, clocks⟩ : ∃ calls : Nat → Clock × PgClock, ∀ n, (calls n).2.now = t :=
      ⟨fun _ => (.at now, ⟨t, fun _ => t, 0⟩), fun _ => rfl⟩
    obtain ⟨⟨n, empty⟩, done⟩ := complete.repeated calls clocks
    obtain ⟨last, -, stores', lasts⟩ := done n empty k row
      (sweeps_stuck each found decodes (fun fits => unfit ((decodes.sweepable stores).mp fits))
        reading clocks (n + 1))
    have due := (RunRecord.expired_iff stores.leaseExpiresAtMs bound).mpr past
    exact lasts ((RunRecord.expired_iff stores'.leaseExpiresAtMs bound).mp due)
  · intro fits
    refine Fit.recoversAll (fun k row found due => ?_) each reading
    obtain ⟨stored, -, stores, sweepable⟩ := fits k row found
    obtain ⟨run, decodes⟩ := decoded k row found
    have past := (RunRecord.expired_iff stores.leaseExpiresAtMs bound).mp due
    exact ⟨run, decodes, (decodes.sweepable stores).mpr (sweepable past)⟩

/-- Where all calls are plain, decoding undoes encoding for the rows of a store that can
fetch all payloads. -/
theorem undone_of_plain {store : PostgresRunStore} {ops : List PgOp}
    (fetches : ∀ payload, store.fetch payload = .ok payload) (plain : ∀ op ∈ ops, op.1.Plain)
    (k : RunId) (row : Row) (found : ((postgres store).after ops)[k]? = some row) :
    ∃ run : RunRecord, row.payload = toValue run ∧ store.fetch row.payload = .ok row.payload ∧
      fromValue row.payload = some run := by
  obtain ⟨run, ready, payload⟩ := readable_after plain k row found
  refine ⟨run, payload, fetches _, ?_⟩
  rw [payload]
  exact (reads_runRecord run).mpr ready

end PostgresRunStore

namespace Sample

/-- A run of two steps, claimed for ten milliseconds and for the given time. -/
def leasedTwice (leaseMs : UInt64) : List PgOp :=
  [(.createRun (request [step "early" 1 false, step "late" 1 false] []) (.at 0), database 0),
    (ask 0, database 0), (.claimNextStep runId worker leaseMs (.at 0), database 0)]

theorem leasedTwice_plain (leaseMs : UInt64) : ∀ op ∈ leasedTwice leaseMs, op.1.Plain := by
  refine List.forall_mem_cons.mpr ⟨⟨?_, ?_⟩, List.forall_mem_cons.mpr ⟨trivial, ?_⟩⟩
  · exact fun gate listed => (List.not_mem_nil listed).elim
  · exact fun gate listed => (List.not_mem_nil listed).elim
  · exact List.forall_mem_singleton.mpr trivial

end Sample

namespace PostgresRunStore

/-- At 20 the first lease has run out and the second, until 100, has not. -/
theorem recovery_complete_iff_leasedTwice :
    Sample.storage.RecoversAll
      ((postgres Sample.storage).after (Sample.leasedTwice 100)) 20 20 := by
  refine (recovery_complete_iff Sample.storage (Sample.leasedTwice 100) 20 20 rfl
    (undone_of_plain (fun _ => rfl) (Sample.leasedTwice_plain 100))).mpr fun k row found => ?_
  have keys : ((postgres Sample.storage).after (Sample.leasedTwice 100)).keys = [Sample.runId] := by
    decide +kernel
  have small : ((postgres Sample.storage).after (Sample.leasedTwice 100))[Sample.runId]?.any
      (fun row => (Sample.storage.readPayload row.payload).any fun run =>
        decide (run.revision.toNat + (run.lapsedSteps 20).length + 1 < 2 ^ 63) &&
          (run.steps.toList.filterMap fun entry => entry.2.lease.map StepLease.expiresAtMs).all
            fun expiry => decide (expiry.toNat < 2 ^ 63)) = true := by decide +kernel
  have each := steady_after Sample.storage (Sample.leasedTwice 100)
  obtain ⟨stored, own, stores, -⟩ := each k row found
  refine ⟨stored, own, stores, fun _ => ?_⟩
  have key : k = Sample.runId := by
    have listed : k ∈ ((postgres Sample.storage).after (Sample.leasedTwice 100)).keys :=
      Std.ExtTreeMap.mem_keys.mpr (Std.ExtTreeMap.mem_iff_isSome_getElem?.mpr (by rw [found]; rfl))
    rw [keys] at listed
    exact List.mem_singleton.mp listed
  subst key
  simp only [found, Option.any_some, Except.any_eq_true, Bool.and_eq_true, decide_eq_true_eq,
    List.all_eq_true] at small
  obtain ⟨run, decoded, below, expiries⟩ := small
  refine ((decodes_of_steady each found decoded).sweepable stores).mp ⟨below, ?_⟩
  rintro ⟨expiry, leased, lasts⟩
  exact ⟨expiry, leased, lasts, expiries expiry (RunRecord.mem_expiries.mpr leased)⟩

/-- A lease for the longest time is claimed next to a shorter one; when that has run out,
what is left of the run has no expiry that fits its column, and no sweep succeeds. -/
theorem lapsed_lease_stuck :
    (∀ (k : RunId) (row : Row),
      ((postgres Sample.storage).after (Sample.leasedTwice 18446744073709551615))[k]? = some row →
        ∃ run : RunRecord, row.payload = toValue run ∧
          Sample.storage.fetch row.payload = .ok row.payload ∧
          fromValue row.payload = some run) ∧
    ¬ Sample.storage.RecoversAll
      ((postgres Sample.storage).after (Sample.leasedTwice 18446744073709551615)) 20 20 := by
  refine ⟨undone_of_plain (fun _ => rfl) (Sample.leasedTwice_plain _), fun complete => ?_⟩
  have refused : ((Sample.storage.recoverExpired ((postgres Sample.storage).after
      (Sample.leasedTwice 18446744073709551615)) (.at 20) (Sample.database 20)).1.any
        fun _ => true) = false := by decide +kernel
  obtain ⟨entries, expired, s', -, result, -⟩ := complete.once (.at 20) (Sample.database 20) rfl
  rw [result] at refused
  cases refused

end PostgresRunStore

end Orchestrator
