import Orchestrator.Foundation.Fallible
import Orchestrator.Model.Postgres

/-!
# The columns of a row

The columns of a row are signed words. A number below 2 ^ 63 fits and keeps its place on
the number line; the expiry column is the earliest expiry of the run's leases, and is
there just if the run holds one.
-/

namespace Orchestrator

theorem toI64_eq_ok {n : UInt64} {i : Int64} :
    toI64 n = .ok i ↔ n.toNat < 2 ^ 63 ∧ i = n.toInt64 := by
  unfold toI64
  split
  next fits =>
    constructor
    · intro same
      exact ⟨fits, (Except.ok.inj same).symm⟩
    · rintro ⟨-, rfl⟩
      rfl
  next large =>
    constructor
    · intro same
      cases same
    · rintro ⟨fits, -⟩
      exact absurd fits large

/-- A number that fits keeps its place on the number line. -/
theorem toInt_of_toI64 {n : UInt64} {i : Int64} (fits : toI64 n = .ok i) : i.toInt = n.toNat := by
  obtain ⟨below, rfl⟩ := toI64_eq_ok.mp fits
  have same : n.toInt64 = Int64.ofNat n.toNat := by
    rw [← UInt64.toInt64_ofNat', UInt64.ofNat_toNat]
  rw [same, Int64.toInt_ofNat_of_lt below]

theorem lt_iff_of_toI64 {n m : UInt64} {i j : Int64} (fitsN : toI64 n = .ok i)
    (fitsM : toI64 m = .ok j) : i < j ↔ n < m := by
  rw [Int64.lt_iff_toInt_lt, toInt_of_toI64 fitsN, toInt_of_toI64 fitsM, Int.ofNat_lt,
    UInt64.lt_iff_toNat_lt]

theorem le_iff_of_toI64 {n m : UInt64} {i j : Int64} (fitsN : toI64 n = .ok i)
    (fitsM : toI64 m = .ok j) : i ≤ j ↔ n ≤ m := by
  rw [Int64.le_iff_toInt_le, toInt_of_toI64 fitsN, toInt_of_toI64 fitsM, Int.ofNat_le,
    UInt64.le_iff_toNat_le]

/-- A reading of the clock of the database fits its columns. -/
theorem toI64_of_toU64 {t : Int64} {now : UInt64} (reading : toU64 t = .ok now) :
    toI64 now = .ok t := by
  unfold toU64 at reading
  split at reading
  next positive =>
    obtain rfl := Except.ok.inj reading
    refine toI64_eq_ok.mpr ⟨?_, (Int64.toInt64_toUInt64 t).symm⟩
    rw [Int64.toNat_toUInt64_of_le positive]
    exact t.toNatClampNeg_lt
  next negative => cases reading

/-- A number that does not fit is an error of the storage. -/
theorem toI64_eq_error {n : UInt64} {error : RepositoryError} (h : toI64 n = .error error) :
    error = .storage tryFromIntError := by
  unfold toI64 at h
  split at h
  · cases h
  · exact (Except.error.inj h).symm

theorem exists_toI64 {n : UInt64} : (∃ i, toI64 n = .ok i) ↔ n.toNat < 2 ^ 63 := by
  constructor
  · rintro ⟨i, fits⟩
    exact (toI64_eq_ok.mp fits).1
  · exact fun below => ⟨n.toInt64, toI64_eq_ok.mpr ⟨below, rfl⟩⟩

/-- Some lease of the run expires at the time. -/
def RunRecord.LeasedUntil (run : RunRecord) (expiry : UInt64) : Prop :=
  ∃ (id : StepId) (record : StepRecord) (lease : StepLease), run.steps[id]? = some record ∧
    record.lease = some lease ∧ lease.expiresAtMs = expiry

/-- Some lease of the run has run out. -/
def RunRecord.Expired (run : RunRecord) (now : UInt64) : Prop :=
  ∃ expiry, run.LeasedUntil expiry ∧ expiry ≤ now

namespace RunRecord

variable {run : RunRecord}

/-- The expiries of the leases, as the column is computed from them. -/
theorem mem_expiries {expiry : UInt64} :
    expiry ∈ run.steps.toList.filterMap (fun entry => entry.2.lease.map StepLease.expiresAtMs) ↔
      run.LeasedUntil expiry := by
  rw [List.mem_filterMap]
  constructor
  · rintro ⟨⟨id, record⟩, inside, leased⟩
    obtain ⟨lease, held, rfl⟩ := Option.map_eq_some_iff.mp leased
    exact ⟨id, record, lease, Std.ExtTreeMap.mem_toList_iff_getElem?_eq_some.mp inside, held, rfl⟩
  · rintro ⟨id, record, lease, found, held, rfl⟩
    exact ⟨(id, record), Std.ExtTreeMap.mem_toList_iff_getElem?_eq_some.mpr found,
      Option.map_eq_some_iff.mpr ⟨lease, held, rfl⟩⟩

/-- The column holds the least expiry of the run's leases, and nothing where there is none. -/
theorem leaseExpiryMs_eq_ok {column : Option Int64} : run.leaseExpiryMs = .ok column ↔
    (column = none ∧ ∀ expiry, ¬ run.LeasedUntil expiry) ∨
      ∃ expiry i, column = some i ∧ toI64 expiry = .ok i ∧ run.LeasedUntil expiry ∧
        ∀ other, run.LeasedUntil other → expiry ≤ other := by
  unfold leaseExpiryMs
  split
  next expiry least =>
    obtain ⟨member, below⟩ := List.min?_eq_some_iff.mp least
    have leased := mem_expiries.mp member
    rw [Except.map_eq_ok]
    constructor
    · rintro ⟨i, fits, rfl⟩
      exact .inr ⟨expiry, i, rfl, fits, leased,
        fun other held => below other (mem_expiries.mpr held)⟩
    · rintro (⟨-, unleased⟩ | ⟨other, i, rfl, fits, held, first⟩)
      · exact absurd leased (unleased expiry)
      · have same : other = expiry :=
          UInt64.le_antisymm (first expiry leased) (below other (mem_expiries.mpr held))
        exact ⟨i, same ▸ fits, rfl⟩
  next none =>
    have unleased : ∀ expiry, ¬ run.LeasedUntil expiry := by
      intro expiry leased
      have member := mem_expiries.mpr leased
      rw [List.min?_eq_none_iff.mp none] at member
      cases member
    constructor
    · intro same
      exact .inl ⟨(Except.ok.inj same).symm, unleased⟩
    · rintro (⟨rfl, -⟩ | ⟨expiry, i, -, -, leased, -⟩)
      · rfl
      · exact absurd leased (unleased expiry)

theorem leaseExpiryMs_eq_error {error : RepositoryError} (h : run.leaseExpiryMs = .error error) :
    error = .storage tryFromIntError := by
  unfold leaseExpiryMs at h
  split at h
  next expiry least =>
    cases fits : toI64 expiry with
    | error refused =>
        rw [fits] at h
        obtain rfl := Except.error.inj h
        exact toI64_eq_error fits
    | ok i =>
        rw [fits] at h
        cases h
  · cases h

/-- The column can be computed just if no lease is there or the earliest expiry fits. -/
theorem exists_leaseExpiryMs_iff : (∃ column, run.leaseExpiryMs = .ok column) ↔
    ((∃ expiry, run.LeasedUntil expiry) →
      ∃ expiry, run.LeasedUntil expiry ∧ expiry.toNat < 2 ^ 63) := by
  constructor
  · rintro ⟨column, computed⟩ ⟨expiry, leased⟩
    obtain ⟨-, unleased⟩ | ⟨least, i, -, fits, held, -⟩ := leaseExpiryMs_eq_ok.mp computed
    · exact absurd leased (unleased expiry)
    · exact ⟨least, held, (toI64_eq_ok.mp fits).1⟩
  · intro fit
    cases least : (run.steps.toList.filterMap fun entry =>
        entry.2.lease.map StepLease.expiresAtMs).min? with
    | none => exact ⟨none, by rw [leaseExpiryMs, least]⟩
    | some expiry =>
        obtain ⟨member, below⟩ := List.min?_eq_some_iff.mp least
        obtain ⟨other, leased, small⟩ := fit ⟨expiry, mem_expiries.mp member⟩
        have first := UInt64.le_iff_toNat_le.mp (below other (mem_expiries.mpr leased))
        obtain ⟨i, fits⟩ := exists_toI64.mpr (Nat.lt_of_le_of_lt first small)
        refine ⟨some i, ?_⟩
        rw [leaseExpiryMs, least]
        exact Except.map_eq_ok.mpr ⟨i, fits, rfl⟩

/-- The column tells whether a lease of the run has run out. -/
theorem expired_iff {column : Option Int64} {now : UInt64} {limit : Int64}
    (computed : run.leaseExpiryMs = .ok column) (bound : toI64 now = .ok limit) :
    (∃ expiry ∈ column, expiry ≤ limit) ↔ run.Expired now := by
  obtain ⟨rfl, unleased⟩ | ⟨least, i, rfl, fits, leased, first⟩ := leaseExpiryMs_eq_ok.mp computed
  · constructor
    · rintro ⟨_, inside, -⟩
      cases inside
    · rintro ⟨expiry, leased, -⟩
      exact absurd leased (unleased expiry)
  · constructor
    · rintro ⟨_, inside, past⟩
      obtain rfl := Option.some.inj inside
      exact ⟨least, leased, (le_iff_of_toI64 fits bound).mp past⟩
    · rintro ⟨expiry, held, past⟩
      have past := UInt64.le_trans (first expiry held) past
      exact ⟨i, rfl, (le_iff_of_toI64 fits bound).mpr past⟩

/-- Leases that run out in time have an earliest expiry that fits. -/
theorem exists_leaseExpiryMs
    (leases : ∀ (id : StepId) (record : StepRecord) (lease : StepLease),
      run.steps[id]? = some record → record.lease = some lease →
        lease.expiresAtMs.toNat < 2 ^ 63) :
    ∃ expiry, run.leaseExpiryMs = .ok expiry := by
  apply exists_leaseExpiryMs_iff.mpr
  rintro ⟨expiry, leased⟩
  obtain ⟨id, record, lease, found, held, rfl⟩ := leased
  exact ⟨_, ⟨id, record, lease, found, held, rfl⟩, leases id record lease found held⟩

end RunRecord

end Orchestrator
