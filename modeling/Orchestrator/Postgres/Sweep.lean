import Orchestrator.Postgres.Steady

/-!
# One sweep over the table

`recover_expired` fetches the rows whose column says that a lease has run out and visits
the steps of each fetched run. A visit takes away the lease of its own step where that
has run out, and no other. So a sweep leaves the leases of a run that still last, and the
run can be written back just if what is left fits its columns.
-/

namespace Orchestrator

namespace RunRecord

/-- The lease of a step. -/
def leaseOf (run : RunRecord) (id : StepId) : Option StepLease :=
  run.steps[id]? >>= StepRecord.lease

/-- The step holds a lease that has run out. -/
def lapsed (run : RunRecord) (now : UInt64) (id : StepId) : Bool :=
  (run.leaseOf id).any fun lease => decide (lease.expiresAtMs ≤ now)

/-- The steps of the workflow that hold a lease that has run out. -/
def lapsedSteps (run : RunRecord) (now : UInt64) : List (RunId × StepId) :=
  (run.workflow.steps.filter fun step => run.lapsed now step.id).map fun step =>
    (run.runId, step.id)

variable {run run' : RunRecord} {now : UInt64} {id : StepId}

theorem leasedUntil_iff {expiry : UInt64} :
    run.LeasedUntil expiry ↔
      ∃ id lease, run.leaseOf id = some lease ∧ lease.expiresAtMs = expiry := by
  constructor
  · rintro ⟨id, record, lease, found, leased, ends⟩
    exact ⟨id, lease, by rw [leaseOf, found]; exact leased, ends⟩
  · rintro ⟨id, lease, held, ends⟩
    obtain ⟨record, found, leased⟩ := Option.bind_eq_some_iff.mp held
    exact ⟨id, record, lease, found, leased, ends⟩

theorem lapsed_iff :
    run.lapsed now id = true ↔ ∃ lease, run.leaseOf id = some lease ∧ lease.expiresAtMs ≤ now := by
  simp [lapsed, Option.any_eq_true]

theorem lapsed_congr (same : run'.leaseOf id = run.leaseOf id) :
    run'.lapsed now id = run.lapsed now id := by
  rw [lapsed, same, lapsed]

/-- A step is in the list just if it holds a lease that has run out. -/
theorem Steady.mem_lapsedSteps (steady : run.Steady) {k : RunId} :
    (k, id) ∈ run.lapsedSteps now ↔ k = run.runId ∧ run.lapsed now id = true := by
  simp only [lapsedSteps, List.mem_map, List.mem_filter, Prod.mk.injEq]
  constructor
  · rintro ⟨step, ⟨-, past⟩, rfl, rfl⟩
    exact ⟨rfl, past⟩
  · rintro ⟨rfl, past⟩
    obtain ⟨lease, held, -⟩ := lapsed_iff.mp past
    obtain ⟨record, found, leased⟩ := Option.bind_eq_some_iff.mp held
    obtain ⟨-, step, listed, rfl⟩ := steady.leased id record found (by rw [leased]; rfl)
    exact ⟨step, ⟨listed, past⟩, rfl, rfl⟩

theorem Steady.lapsedSteps_nodup (steady : run.Steady) (now : UInt64) :
    (run.lapsedSteps now).Nodup := by
  have distinct : ((run.workflow.steps.filter fun step => run.lapsed now step.id).map
      StepSpec.id).Nodup := steady.distinct.sublist (List.filter_sublist.map _)
  refine List.Nodup.of_map Prod.snd ?_
  rw [lapsedSteps, List.map_map]
  exact distinct

/-- Steps are listed just if a lease of the run has run out. -/
theorem Steady.lapsedSteps_ne_nil (steady : run.Steady) :
    run.lapsedSteps now ≠ [] ↔ run.Expired now := by
  constructor
  · intro some
    obtain ⟨⟨k, id⟩, listed⟩ := List.exists_mem_of_ne_nil _ some
    obtain ⟨lease, held, past⟩ := lapsed_iff.mp (steady.mem_lapsedSteps.mp listed).2
    exact ⟨_, leasedUntil_iff.mpr ⟨id, lease, held, rfl⟩, past⟩
  · rintro ⟨expiry, leased, past⟩
    obtain ⟨id, lease, held, rfl⟩ := leasedUntil_iff.mp leased
    have listed := steady.mem_lapsedSteps.mpr ⟨rfl, lapsed_iff.mpr ⟨lease, held, past⟩⟩
    exact List.ne_nil_of_mem listed

end RunRecord

namespace Locked

open RunRecord

variable {run run' : RunRecord} {now : UInt64}

/-- A visit recovers its step just if the step holds a lease that has run out. -/
theorem recoverStep_cases (run : RunRecord) (now : UInt64) (clock : Clock) (step : StepSpec) :
    run.lapsed now step.id = false ∧ recoverStep run now clock step = .ok none ∨
      run.lapsed now step.id = true ∧ ∃ record run',
        recoverStep run now clock step = .ok (some run') ∧ run.SameRequest run' ∧
        run'.revision = run.revision.saturatingAdd 1 ∧
        run'.steps = run.steps.insert step.id record ∧ record.lease = none := by
  unfold recoverStep
  split
  next kept =>
    refine .inl ⟨?_, rfl⟩
    rw [← Bool.not_eq_true, lapsed_iff]
    rintro ⟨lease, held, past⟩
    obtain ⟨record, found, leased⟩ := Option.bind_eq_some_iff.mp held
    simp [found, recoverExpiredStep, leased, UInt64.not_lt.mpr past] at kept
  next record event recovered =>
    obtain ⟨old, found, expired⟩ := Option.bind_eq_some_iff.mp recovered
    obtain ⟨⟨lease, leased, past⟩, recovers⟩ := recoverExpiredStep_eq_some expired
    have held : run.leaseOf step.id = some lease := by
      rw [leaseOf, found]
      exact leased
    have own : event.runId = run.runId := by cases recovers <;> rfl
    have changed : run.SameRequest ((run.setStep step.id record).noteRecovery record) :=
      (SameRequest.setStep _ _).trans (.noteRecovery _)
    refine .inr ⟨lapsed_iff.mpr ⟨lease, held, UInt64.not_lt.mp past⟩, record,
      ((run.setStep step.id record).noteRecovery record).logged event
        ((run.setStep step.id record).noteRecovery record).nextSequence
        (clock.step run.runId step.id), ?_, .logged _ _ _ changed, ?_, ?_, ?_⟩
    · refine Except.map_eq_ok.mpr ⟨_, appendRunEvent_eq_ok.mpr ⟨?_, rfl, rfl⟩, rfl⟩
      rw [changed.runId]
      exact own
    · rw [logged_revision, noteRecovery_revision]
      rfl
    · rw [logged_steps, noteRecovery_steps, setStep_steps]
    · cases recovers <;> rfl

theorem leaseOf_of_inserted {record : StepRecord} {id : StepId}
    (steps : run'.steps = run.steps.insert id record) (other : StepId) :
    run'.leaseOf other = if id = other then record.lease else run.leaseOf other := by
  rw [leaseOf, steps, BTreeMap.getElem?_insert]
  split
  · rfl
  · rfl

/-- What a sweep over the steps leaves of a run: their leases that have run out are gone,
and each counts as a revision. -/
structure SweptTo (run : RunRecord) (now : UInt64) (steps : List StepSpec) (run' : RunRecord) :
    Prop where
  sameRequest : run.SameRequest run'
  revision : run'.revision.toNat =
    min (run.revision.toNat + (steps.filter fun step => run.lapsed now step.id).length)
      UInt64.maxNat
  leases : ∀ id, run'.leaseOf id =
    if run.lapsed now id = true ∧ ∃ step ∈ steps, step.id = id then none else run.leaseOf id

theorem recoverSteps_eq (now : UInt64) (clock : Clock) {steps : List StepSpec}
    (distinct : (steps.map StepSpec.id).Nodup) (run : RunRecord) (expired : List (RunId × StepId)) :
    ∃ run', recoverSteps now clock run steps expired = .ok (run', expired ++
        (steps.filter fun step => run.lapsed now step.id).map fun step => (run.runId, step.id)) ∧
      SweptTo run now steps run' := by
  induction steps generalizing run expired with
  | nil =>
      refine ⟨run, by simp [recoverSteps], .refl run, ?_, fun id => by simp⟩
      have top := run.revision.toNat_le_maxNat
      simpa using top
  | cons step rest ih =>
      obtain ⟨apart, distinct⟩ := List.nodup_cons.mp distinct
      obtain ⟨kept, quiet⟩ | ⟨past, record, middle, recovered, same, revision, steps, unleased⟩ :=
        recoverStep_cases run now clock step
      · have tail : ((step :: rest).filter fun step => run.lapsed now step.id) =
            rest.filter fun step => run.lapsed now step.id :=
          List.filter_cons_of_neg (by simp [kept])
        obtain ⟨run', later, swept⟩ := ih distinct run expired
        refine ⟨run', ?_, swept.sameRequest, ?_, fun id => ?_⟩
        · rw [recoverSteps, quiet, tail]
          exact later
        · rw [tail]
          exact swept.revision
        · rw [swept.leases]
          refine if_congr (and_congr_right fun past => ?_) rfl rfl
          have other : step.id ≠ id := by
            rintro rfl
            rw [kept] at past
            cases past
          simp [other]
      · have head : ((step :: rest).filter fun step => run.lapsed now step.id) =
            step :: rest.filter fun step => run.lapsed now step.id :=
          List.filter_cons_of_pos past
        have leases := leaseOf_of_inserted steps
        have others : ∀ id, step.id ≠ id → middle.lapsed now id = run.lapsed now id :=
          fun id other => lapsed_congr ((leases id).trans (if_neg other))
        have filtered : (rest.filter fun step => middle.lapsed now step.id) =
            rest.filter fun step => run.lapsed now step.id := by
          refine List.filter_congr fun other member => others other.id fun own => apart ?_
          rw [own]
          exact List.mem_map_of_mem member
        obtain ⟨run', later, swept⟩ := ih distinct middle (expired ++ [(middle.runId, step.id)])
        refine ⟨run', ?_, same.trans swept.sameRequest, ?_, fun id => ?_⟩
        · rw [recoverSteps, recovered, head]
          simp only []
          rw [later, filtered, same.runId, List.map_cons, List.append_assoc]
          rfl
        · rw [swept.revision, filtered, revision, head, UInt64.toNat_saturatingAdd,
            UInt64.toNat_one, List.length_cons]
          omega
        · rw [swept.leases, leases]
          by_cases own : step.id = id
          · subst own
            rw [if_pos rfl, unleased, ite_self, if_pos ⟨past, step, List.mem_cons_self, rfl⟩]
          · rw [if_neg own, others id own]
            simp [own]

/-- A run with a lease that has run out is recovered, and keeps the leases that last. -/
theorem recoverExpired_cases (steady : run.Steady) (now : UInt64) (clock : Clock) :
    run.lapsedSteps now = [] ∧ recoverExpired run now clock = .ok ([], none) ∨
      run.lapsedSteps now ≠ [] ∧ ∃ run',
        recoverExpired run now clock = .ok (run.lapsedSteps now, some run') ∧
        run'.runId = run.runId ∧
        run'.revision.toNat =
          min (run.revision.toNat + (run.lapsedSteps now).length + 1) UInt64.maxNat ∧
        ∀ expiry, run'.LeasedUntil expiry ↔ run.LeasedUntil expiry ∧ now < expiry := by
  obtain ⟨last, recovered, swept⟩ := recoverSteps_eq now clock steady.distinct run []
  rw [List.nil_append] at recovered
  change recoverSteps now clock run run.workflow.steps [] = .ok (last, run.lapsedSteps now)
    at recovered
  rw [recoverExpired, recovered, Except.map]
  by_cases none : run.lapsedSteps now = []
  · refine .inl ⟨none, ?_⟩
    rw [none]
    rfl
  · refine .inr ⟨none, last.bump, ?_, swept.sameRequest.runId, ?_, fun expiry => ?_⟩
    · simp [none]
    · change (last.revision.saturatingAdd 1).toNat = _
      rw [UInt64.toNat_saturatingAdd, swept.revision, UInt64.toNat_one, lapsedSteps,
        List.length_map]
      omega
    · rw [leasedUntil_iff, leasedUntil_iff]
      -- A lease that has run out is one of a listed step, so the sweep took it away.
      have kept : ∀ id lease, last.leaseOf id = some lease ↔
          run.leaseOf id = some lease ∧ now < lease.expiresAtMs := by
        intro id lease
        rw [swept.leases]
        split
        next gone =>
          obtain ⟨other, held, past⟩ := lapsed_iff.mp gone.1
          constructor
          · intro same
            cases same
          · rintro ⟨same, lasts⟩
            obtain rfl := Option.some.inj (held.symm.trans same)
            exact absurd lasts (UInt64.not_lt.mpr past)
        next stays =>
          refine (and_iff_left_of_imp fun held => UInt64.not_le.mp fun past => stays ?_).symm
          have gone := lapsed_iff.mpr ⟨lease, held, past⟩
          have member := steady.mem_lapsedSteps.mpr ⟨rfl, gone⟩
          obtain ⟨step, listed, same⟩ := List.mem_map.mp member
          exact ⟨gone, step, List.mem_of_mem_filter listed, (Prod.mk.inj same).2⟩
      constructor
      · rintro ⟨id, lease, held, rfl⟩
        obtain ⟨held, lasts⟩ := (kept id lease).mp held
        exact ⟨⟨id, lease, held, rfl⟩, lasts⟩
      · rintro ⟨⟨id, lease, held, rfl⟩, lasts⟩
        exact ⟨id, lease, (kept id lease).mpr ⟨held, lasts⟩, rfl⟩

end Locked

/-- What recovery leaves of the run fits the columns of its row: the revision, and the
earliest expiry where a lease lasts. -/
structure RunRecord.Sweepable (run : RunRecord) (now : UInt64) : Prop where
  revision : run.revision.toNat + (run.lapsedSteps now).length + 1 < 2 ^ 63
  expiry : (∃ expiry, run.LeasedUntil expiry ∧ now < expiry) →
    ∃ expiry, run.LeasedUntil expiry ∧ now < expiry ∧ expiry.toNat < 2 ^ 63

namespace PostgresRunStore

variable {s : Table} {run run' : RunRecord} {now : UInt64}

/-- The recovered run is written just if what is left of the run fits. -/
theorem persists_iff_sweepable {row : Row} (found : s[run.runId]? = some row)
    (stored : toI64 run.revision = .ok row.revision) (own : run'.runId = run.runId)
    (revision : run'.revision.toNat =
      min (run.revision.toNat + (run.lapsedSteps now).length + 1) UInt64.maxNat)
    (leases : ∀ expiry, run'.LeasedUntil expiry ↔ run.LeasedUntil expiry ∧ now < expiry) :
    Persists s run' ↔ run.Sweepable now := by
  have top : 2 ^ 63 ≤ UInt64.maxNat := by decide
  have computed : (∃ column, run'.leaseExpiryMs = .ok column) ↔
      ((∃ expiry, run.LeasedUntil expiry ∧ now < expiry) →
        ∃ expiry, run.LeasedUntil expiry ∧ now < expiry ∧ expiry.toNat < 2 ^ 63) := by
    rw [RunRecord.exists_leaseExpiryMs_iff]
    simp only [leases, and_assoc]
  constructor
  · rintro ⟨i, column, row', fits, expires, -, -⟩
    have below := (toI64_eq_ok.mp fits).1
    exact ⟨by omega, computed.mp ⟨column, expires⟩⟩
  · rintro ⟨below, expiry⟩
    obtain ⟨column, expires⟩ := computed.mpr expiry
    obtain ⟨i, fits⟩ := exists_toI64.mpr (show run'.revision.toNat < 2 ^ 63 by omega)
    refine ⟨i, column, row, fits, expires, own ▸ found, (lt_iff_of_toI64 stored fits).mpr ?_⟩
    rw [UInt64.lt_iff_toNat_lt]
    omega

/-- The row is read as a steady record of the run, which its columns describe. -/
structure Decodes (store : PostgresRunStore) (k : RunId) (row : Row) (run : RunRecord) : Prop where
  decoded : store.readPayload row.payload = .ok run
  own : run.runId = k
  revision : toI64 run.revision = .ok row.revision
  expiry : run.leaseExpiryMs = .ok row.leaseExpiresAtMs
  steady : run.Steady

variable {store : PostgresRunStore} {s' : Table} {k : RunId} {row : Row} {clock : Clock}
  {db : PgClock} {entries : List (RunId × Row)} {expired expired' : List (RunId × StepId)}

/-- Reading a record back loses no lease. -/
theorem leaseOf_of_read (read : Json.fromValue (Json.toValue run) = some run') (id : StepId) :
    run'.leaseOf id = run.leaseOf id := by
  obtain ⟨-, -, -, -, back, forth⟩ := read_back read
  rw [RunRecord.leaseOf, RunRecord.leaseOf]
  cases found : run.steps[id]? with
  | none =>
      cases found' : run'.steps[id]? with
      | none => rfl
      | some record' =>
          obtain ⟨record, stored, -⟩ := back id record' found'
          rw [found] at stored
          cases stored
  | some record =>
      obtain ⟨record', found', same⟩ := forth id record found
      rw [found', same]
      rfl

theorem leasedUntil_of_read (read : Json.fromValue (Json.toValue run) = some run')
    {expiry : UInt64} : run'.LeasedUntil expiry ↔ run.LeasedUntil expiry := by
  rw [RunRecord.leasedUntil_iff, RunRecord.leasedUntil_iff]
  simp only [leaseOf_of_read read]

theorem decodes_of_steady (each : s.Each RunRecord.Steady) (found : s[k]? = some row)
    (decoded : store.readPayload row.payload = .ok run) : store.Decodes k row run := by
  obtain ⟨own, revision, steady⟩ := each_decoded each (fun read steady => steady.read read) found
    decoded
  refine ⟨decoded, own, revision, ?_, steady⟩
  obtain ⟨stored, -, stores, -⟩ := each k row found
  rw [stores.payload] at decoded
  have same : ∀ expiry, run.LeasedUntil expiry ↔ stored.LeasedUntil expiry :=
    fun expiry => leasedUntil_of_read (of_readPayload decoded).1
  have column := RunRecord.leaseExpiryMs_eq_ok.mp stores.leaseExpiresAtMs
  apply RunRecord.leaseExpiryMs_eq_ok.mpr
  simp only [same]
  exact column

/-- A fetched run whose lease has run out is recovered just if what is left of it fits. -/
theorem recoverRows_cons (clock : Clock) (db : PgClock)
    (decodes : store.Decodes k row run) (found : s[k]? = some row)
    (past : run.Expired now) (payloads : List Json.Value)
    (expired : List (RunId × StepId)) :
    (¬ run.Sweepable now ∧ ∀ result,
        store.recoverRows now clock db s (row.payload :: payloads) expired ≠ .ok result) ∨
      run.Sweepable now ∧ ∃ run' middle,
        store.recoverRows now clock db s (row.payload :: payloads) expired =
          store.recoverRows now clock db middle payloads (expired ++ run.lapsedSteps now) ∧
        Puts s run' middle ∧ run'.runId = k ∧ ¬ run'.Expired now := by
  obtain ⟨none, -⟩ | ⟨-, run', recovered, own, revision, leases⟩ :=
    Locked.recoverExpired_cases decodes.steady now clock
  · exact absurd none (decodes.steady.lapsedSteps_ne_nil.mpr past)
  · have there : s[run.runId]? = some row := decodes.own ▸ found
    have persists := persists_iff_sweepable there decodes.revision own revision leases
    rw [recoverRows, decodes.decoded]
    simp only [bind, Except.bind, recovered]
    by_cases sweepable : run.Sweepable now
    · obtain ⟨middle, persisted⟩ :=
        (exists_persistLocked run' db.transaction).mpr (persists.mpr sweepable)
      refine .inr ⟨sweepable, run', middle, ?_, persistLocked_puts persisted,
        own.trans decodes.own, ?_⟩
      · rw [persisted]
      · rintro ⟨expiry, leased, past⟩
        exact UInt64.not_lt.mpr past ((leases expiry).mp leased).2
    · refine .inl ⟨sweepable, fun result same => ?_⟩
      obtain ⟨middle, persisted, -⟩ := Except.bind_eq_ok.mp same
      exact sweepable (persists.mp ((exists_persistLocked run' db.transaction).mp
        ⟨middle, persisted⟩))

/-- Rows that were not fetched are left as they are. -/
theorem recoverRows_others
    (own : ∀ entry ∈ entries, ∀ run, store.readPayload entry.2.payload = .ok run →
      run.runId = entry.1)
    (h : store.recoverRows now clock db s (entries.map fun entry => entry.2.payload) expired =
      .ok (expired', s')) (other : k ∉ entries.map Prod.fst) : s'[k]? = s[k]? := by
  induction entries generalizing s expired with
  | nil =>
      simp only [List.map_nil, recoverRows, Except.ok.injEq, Prod.mk.injEq] at h
      rw [h.2]
  | cons entry rest ih =>
      obtain ⟨apart, other⟩ := not_or.mp fun either => other (List.mem_cons.mpr either)
      rw [List.map_cons, recoverRows] at h
      obtain ⟨run, decoded, h⟩ := Except.bind_eq_ok.mp h
      obtain ⟨⟨more, written⟩, acted, h⟩ := Except.bind_eq_ok.mp h
      have ownRest := fun entry member => own entry (List.mem_cons_of_mem _ member)
      cases written with
      | none => exact ih ownRest h other
      | some run' =>
          obtain ⟨middle, persisted, h⟩ := Except.bind_eq_ok.mp h
          have key : run'.runId = entry.1 := (Locked.recoverExpired_turn acted).sameRun.trans
            (own entry List.mem_cons_self run decoded)
          rw [ih ownRest h other]
          exact (persistLocked_puts persisted).others k (key ▸ apart)

/-- Where the fetched runs fit, each is recovered, and the list has their expired steps. -/
theorem recoverRows_eq_ok (now : UInt64) (clock : Clock) (db : PgClock)
    (distinct : (entries.map Prod.fst).Nodup)
    (there : ∀ entry ∈ entries, s[entry.1]? = some entry.2)
    (decodes : ∀ entry ∈ entries, ∃ run, store.Decodes entry.1 entry.2 run ∧
      run.Expired now ∧ run.Sweepable now) (expired : List (RunId × StepId)) :
    ∃ more s', store.recoverRows now clock db s (entries.map fun entry => entry.2.payload) expired =
        .ok (expired ++ more, s') ∧ more.Nodup ∧
      (∀ k id, (k, id) ∈ more ↔ ∃ row run, (k, row) ∈ entries ∧ store.Decodes k row run ∧
        run.lapsed now id = true) ∧
      ∀ entry ∈ entries, ∃ row run, s'[entry.1]? = some row ∧ run.runId = entry.1 ∧
        row.Stores run ∧ ¬ run.Expired now := by
  induction entries generalizing s expired with
  | nil => exact ⟨[], s, by rw [List.append_nil]; rfl, .nil, by simp, by simp⟩
  | cons entry rest ih =>
      obtain ⟨apart, distinct⟩ := List.nodup_cons.mp distinct
      obtain ⟨⟨run, decoded, past, sweepable⟩, decodesRest⟩ := List.forall_mem_cons.mp decodes
      obtain ⟨found, thereRest⟩ := List.forall_mem_cons.mp there
      obtain ⟨unfit, -⟩ | ⟨-, run', middle, recovered, puts, own, lasts⟩ :=
        recoverRows_cons clock db decoded found past (rest.map fun entry => entry.2.payload) expired
      · exact absurd sweepable unfit
      · have other : ∀ later ∈ rest, later.1 ≠ entry.1 := by
          intro later member same
          exact apart (same ▸ List.mem_map_of_mem member)
        obtain ⟨more, s', result, nodup, listed, cleared⟩ := ih distinct (fun later member =>
          (puts.others later.1 (own ▸ other later member)).trans (thereRest later member))
          decodesRest (expired ++ run.lapsedSteps now)
        refine ⟨run.lapsedSteps now ++ more, s', ?_, ?_, fun k' id => ?_, ?_⟩
        · rw [List.map_cons, recovered, result, List.append_assoc]
        · refine (decoded.steady.lapsedSteps_nodup now).append nodup ?_
          rintro ⟨k', id⟩ first later
          obtain ⟨row', _, member, -⟩ := (listed k' id).mp later
          refine other (k', row') member ?_
          rw [← decoded.own]
          exact (decoded.steady.mem_lapsedSteps.mp first).1
        · rw [List.mem_append, decoded.steady.mem_lapsedSteps, decoded.own, listed]
          constructor
          · rintro (⟨rfl, past⟩ | ⟨row', run, member, later⟩)
            · exact ⟨entry.2, run, List.mem_cons_self, decoded, past⟩
            · exact ⟨row', run, List.mem_cons_of_mem _ member, later⟩
          · rintro ⟨row', run', member, decoded', past⟩
            obtain rfl | later := List.mem_cons.mp member
            · obtain rfl := Except.ok.inj (decoded.decoded.symm.trans decoded'.decoded)
              exact .inl ⟨rfl, past⟩
            · exact .inr ⟨row', run', later, decoded', past⟩
        · refine List.forall_mem_cons.mpr ⟨?_, cleared⟩
          obtain ⟨row', found', stores⟩ := puts.row
          have kept : s'[entry.1]? = middle[entry.1]? := by
            refine recoverRows_others (fun later member run' decoded => ?_) result apart
            obtain ⟨run, decodes, -⟩ := decodesRest later member
            obtain rfl := Except.ok.inj (decodes.decoded.symm.trans decoded)
            exact decodes.own
          exact ⟨row', run', kept.trans (own ▸ found'), own, stores, lasts⟩

/-- Fetched rows that are all recovered fit. -/
theorem sweepable_of_recoverRows (distinct : (entries.map Prod.fst).Nodup)
    (there : ∀ entry ∈ entries, s[entry.1]? = some entry.2)
    (decodes : ∀ entry ∈ entries, ∀ run, store.readPayload entry.2.payload = .ok run →
      store.Decodes entry.1 entry.2 run ∧ run.Expired now)
    (h : store.recoverRows now clock db s (entries.map fun entry => entry.2.payload) expired =
      .ok (expired', s')) :
    ∀ entry ∈ entries, ∃ run, store.Decodes entry.1 entry.2 run ∧ run.Sweepable now := by
  induction entries generalizing s expired with
  | nil =>
      intro entry member
      cases member
  | cons entry rest ih =>
      obtain ⟨apart, distinct⟩ := List.nodup_cons.mp distinct
      obtain ⟨decodes, decodesRest⟩ := List.forall_mem_cons.mp decodes
      obtain ⟨found, thereRest⟩ := List.forall_mem_cons.mp there
      obtain ⟨run, read, -⟩ := Except.bind_eq_ok.mp h
      obtain ⟨decoded, past⟩ := decodes run read
      obtain ⟨-, fails⟩ | ⟨sweepable, run', middle, recovered, puts, own, -⟩ :=
        recoverRows_cons clock db decoded found past (rest.map fun entry => entry.2.payload) expired
      · exact absurd h (fails _)
      · rw [List.map_cons, recovered] at h
        refine List.forall_mem_cons.mpr ⟨⟨run, decoded, sweepable⟩, ?_⟩
        refine ih distinct (fun later member => ?_) decodesRest h
        have other : later.1 ≠ entry.1 := by
          intro same
          exact apart (same ▸ List.mem_map_of_mem member)
        exact (puts.others later.1 (own ▸ other)).trans (thereRest later member)

/-- The listed rows are those with an expired lease, or the hundred that expired first. -/
structure EarliestExpired (s : Table) (now : Int64) (entries : List (RunId × Row)) : Prop where
  distinct : (entries.map Prod.fst).Nodup
  expired : ∀ entry ∈ entries, s[entry.1]? = some entry.2 ∧
    ∃ expiry ∈ entry.2.leaseExpiresAtMs, expiry ≤ now
  atMost : entries.length ≤ 100
  earliest : ∀ (k : RunId) (row : Row), s[k]? = some row →
    ∀ expiry ∈ row.leaseExpiresAtMs, expiry ≤ now → (k, row) ∉ entries →
      entries.length = 100 ∧
        ∀ entry ∈ entries, ∃ first ∈ entry.2.leaseExpiresAtMs, first ≤ expiry

theorem earliestExpired (store : PostgresRunStore) (s : Table) (now : Int64) :
    EarliestExpired s now (store.expiredRows s now) := by
  have sorted := sorted_orderBy store (fun row => (row.leaseExpiresAtMs.getD 0).toInt)
    (s.toList.filter fun entry => entry.2.leaseExpiresAtMs.any fun expiry => decide (expiry ≤ now))
  have distinct : ((s.toList.filter fun entry : RunId × Row =>
      entry.2.leaseExpiresAtMs.any fun expiry => decide (expiry ≤ now)).map Prod.fst).Nodup :=
    s.keys_nodup.sublist (List.filter_sublist.map _)
  rw [← ((List.perm_insertionSort (store.orderBy fun row =>
    (row.leaseExpiresAtMs.getD 0).toInt) _).map Prod.fst).nodup_iff] at distinct
  have member : ∀ entry, entry ∈ (s.toList.filter fun entry : RunId × Row =>
      entry.2.leaseExpiresAtMs.any fun expiry => decide (expiry ≤ now)).insertionSort
        (store.orderBy fun row => (row.leaseExpiresAtMs.getD 0).toInt) ↔
      s[entry.1]? = some entry.2 ∧ ∃ expiry ∈ entry.2.leaseExpiresAtMs, expiry ≤ now := by
    intro entry
    rw [List.mem_insertionSort, List.mem_filter, Std.ExtTreeMap.mem_toList_iff_getElem?_eq_some,
      Option.any_eq_true]
    simp
  rw [expiredRows]
  generalize (s.toList.filter fun entry : RunId × Row =>
    entry.2.leaseExpiresAtMs.any fun expiry => decide (expiry ≤ now)).insertionSort
      (store.orderBy fun row => (row.leaseExpiresAtMs.getD 0).toInt) = rows
    at sorted distinct member
  refine ⟨distinct.sublist ((List.take_sublist _ _).map _),
    fun entry fetched => (member entry).mp (List.mem_of_mem_take fetched),
    List.length_take_le _ _, fun k row found expiry column past missed => ?_⟩
  -- A row that is not among the first hundred comes after them.
  have listed := (member (k, row)).mpr ⟨found, expiry, column, past⟩
  have cut := List.take_append_drop recoveryBatchSize rows
  rw [← cut] at listed sorted
  have later := (List.mem_append.mp listed).resolve_left missed
  constructor
  · have long : recoveryBatchSize < rows.length := by
      by_contra short
      rw [List.drop_eq_nil_of_le (Nat.not_lt.mp short)] at later
      cases later
    rw [List.length_take, Nat.min_eq_left (Nat.le_of_lt long)]
    rfl
  · intro entry fetched
    obtain ⟨-, first, holds, -⟩ := (member entry).mp (List.mem_of_mem_take fetched)
    refine ⟨first, holds, Int64.le_iff_toInt_le.mpr ?_⟩
    have order := (List.pairwise_append.mp sorted).2.2 entry fetched (k, row) later
    rw [Option.mem_def.mp holds, Option.mem_def.mp column] at order
    exact order

end PostgresRunStore

end Orchestrator
