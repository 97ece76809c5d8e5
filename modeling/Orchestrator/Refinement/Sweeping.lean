import Orchestrator.Refinement.Tracking
import Orchestrator.Repository.Sweep

/-!
# A recovery over stored runs and rows
-/

namespace Orchestrator

open Json (toValue fromValue)

namespace PostgresRunStore

variable {store : PostgresRunStore} {t : Table} {now : UInt64} {clock : Clock} {db : PgClock}

/-- The fetched rows are read as runs whose steps have been visited, and the others stay. -/
theorem recoverRows_visits (now : UInt64) (clock : Clock) (db : PgClock)
    {entries : List (RunId × Row)} (distinct : (entries.map Prod.fst).Nodup)
    (there : ∀ entry ∈ entries, t[entry.1]? = some entry.2)
    (decodes : ∀ entry ∈ entries, ∃ p, store.Decodes entry.1 entry.2 p ∧ p.Expired now)
    (fits : ∀ entry ∈ entries, ∀ p more p', store.readPayload entry.2.payload = .ok p →
      Locked.recoverExpired p now clock = .ok (more, some p') → store.Fits p')
    (expired : List (RunId × StepId)) :
    ∃ expired' t', store.recoverRows now clock db t (entries.map fun entry => entry.2.payload)
        expired = .ok (expired', t') ∧
      (∀ k, k ∉ entries.map Prod.fst → t'[k]? = t[k]?) ∧
      ∀ entry ∈ entries, ∃ p p' row', store.readPayload entry.2.payload = .ok p ∧
        p.Visits now clock p.workflow.steps p' ∧ t'[entry.1]? = some row' ∧
        store.ReadAs row' p'.bump := by
  induction entries generalizing t expired with
  | nil => exact ⟨expired, t, rfl, fun _ _ => rfl, by simp⟩
  | cons entry rest ih =>
      obtain ⟨apart, distinct⟩ := List.nodup_cons.mp distinct
      obtain ⟨found, thereRest⟩ := List.forall_mem_cons.mp there
      obtain ⟨⟨p, read, past⟩, decodesRest⟩ := List.forall_mem_cons.mp decodes
      obtain ⟨fitsFirst, fitsRest⟩ := List.forall_mem_cons.mp fits
      obtain ⟨more, p', recovered, visits⟩ :=
        Locked.recoverExpired_of_expired read.steady past clock
      have turn := Locked.recoverExpired_turn recovered
      have own : p'.bump.runId = entry.1 := turn.sameRun.trans read.own
      have newer := turn.raised.lt ((toI64_eq_ok.mp read.revision).1.trans (by decide))
      obtain ⟨row', middle, persisted, stored, readAs, others⟩ := persistLocked_of_fits
        (fitsFirst p more p'.bump read.decoded recovered) (own ▸ found) read.revision newer
        db.transaction
      rw [own] at stored others
      have kept : ∀ other ∈ rest, middle[other.1]? = some other.2 := by
        intro other member
        rw [others other.1, thereRest other member]
        intro same
        exact apart (same ▸ List.mem_map_of_mem member)
      obtain ⟨expired', t', result, outside, visited⟩ :=
        ih distinct kept decodesRest fitsRest (expired ++ more)
      refine ⟨expired', t', ?_, fun k beyond => ?_, List.forall_mem_cons.mpr ⟨?_, visited⟩⟩
      · rw [List.map_cons, recoverRows, read.decoded]
        simp only [bind, Except.bind, recovered, persisted]
        exact result
      · obtain ⟨other, beyond⟩ := not_or.mp fun either => beyond (List.mem_cons.mpr either)
        rw [outside k beyond, others k other]
      · exact ⟨p, p', row', read.decoded, visits, (outside entry.1 apart).trans stored, readAs⟩

/-- The fetched rows are all rows with an expired lease, where there are at most a hundred. -/
theorem mem_expiredRows_iff {limit : Int64} (few : (t.toList.filter fun entry : RunId × Row =>
      entry.2.leaseExpiresAtMs.any fun expiry => decide (expiry ≤ limit)).length ≤
        recoveryBatchSize) {entry : RunId × Row} :
    entry ∈ store.expiredRows t limit ↔
      t[entry.1]? = some entry.2 ∧ ∃ expiry ∈ entry.2.leaseExpiresAtMs, expiry ≤ limit := by
  rw [expiredRows, List.take_of_length_le (by rwa [List.length_insertionSort]),
    List.mem_insertionSort, List.mem_filter, Std.ExtTreeMap.mem_toList_iff_getElem?_eq_some,
    Option.any_eq_true]
  simp

end PostgresRunStore

/-- Matching runs have the same steps with a lease that has run out. -/
theorem RunRecord.Matches.lapsed {ρ : UInt64 → UInt64} {m p : RunRecord} (same : m.Matches ρ p)
    (now : UInt64) (id : StepId) : p.lapsed now id = m.lapsed now id := by
  rw [RunRecord.lapsed, RunRecord.lapsed, RunRecord.leaseOf, RunRecord.leaseOf]
  obtain ⟨none, none'⟩ | ⟨record, record', found, found', matching⟩ := same.record_cases id
  · rw [none, none']
  · rw [found, found']
    change record'.lease.any _ = record.lease.any _
    rw [matching.lease, Option.any_map]
    rfl

theorem Repository.expired_iff {s : Repository} {k : RunId} {id : StepId} {now : UInt64}
    {m : RunRecord} (found : s.runs[k]? = some m) :
    s.Expired k id now ↔ m.lapsed now id = true := by
  rw [RunRecord.lapsed_iff]
  constructor
  · rintro ⟨run, record, lease, found', foundStep, leased, past⟩
    obtain rfl := Option.some.inj (found.symm.trans found')
    exact ⟨lease, by rw [RunRecord.leaseOf, foundStep]; exact leased, past⟩
  · rintro ⟨lease, held, past⟩
    obtain ⟨record, foundStep, leased⟩ := Option.bind_eq_some_iff.mp held
    exact ⟨m, record, lease, found, foundStep, leased, past⟩

/-- Both sweeps recover the same steps, each once. -/
theorem Tracks.perm_recovered {store : PostgresRunStore} {F : RunId → UInt64 → UInt64}
    {s : Repository} {t : Table} {now : UInt64} {limit : Int64} {clock : Clock} {db : PgClock}
    (tracks : Tracks store F s t) (upheld : Upheld s t) (bound : toI64 now = .ok limit)
    (few : (t.toList.filter fun entry : RunId × Row =>
      entry.2.leaseExpiresAtMs.any fun expiry => decide (expiry ≤ limit)).length ≤
        recoveryBatchSize)
    {expired expired' : List (RunId × StepId)} {s' : Repository} {t' : Table}
    (recovered : s.recoverExpired (.at now) = (.ok expired, s'))
    (swept : store.recoverRows now clock db t
      ((store.expiredRows t limit).map fun entry => entry.2.payload) [] = .ok (expired', t')) :
    expired.Perm expired' := by
  have fetched := PostgresRunStore.earliestExpired store t limit
  have decodes : ∀ entry ∈ store.expiredRows t limit, ∀ p,
      store.readPayload entry.2.payload = .ok p →
        store.Decodes entry.1 entry.2 p ∧ p.Expired now := by
    intro entry member p read
    obtain ⟨there, past⟩ := fetched.expired entry member
    have decodes := PostgresRunStore.decodes_of_steady upheld.steady there read
    exact ⟨decodes, (RunRecord.expired_iff decodes.expiry bound).mp past⟩
  have there := fun entry member => (fetched.expired entry member).1
  have fit := PostgresRunStore.sweepable_of_recoverRows fetched.distinct there decodes swept
  obtain ⟨more, t'', swept', nodup', listed', -⟩ := PostgresRunStore.recoverRows_eq_ok now clock db
    fetched.distinct there (fun entry member => by
      obtain ⟨p, decoded, sweepable⟩ := fit entry member
      exact ⟨p, decoded, (decodes entry member p decoded.decoded).2, sweepable⟩) []
  rw [swept, List.nil_append] at swept'
  obtain ⟨rfl, -⟩ := Prod.mk.inj (Except.ok.inj swept')
  obtain ⟨listed, s'', recovered', recovery, all⟩ :=
    Repository.recoverExpired_listed upheld.keyed upheld.sound (.at now)
  rw [recovered] at recovered'
  obtain ⟨same, -⟩ := Prod.mk.inj recovered'
  obtain rfl := Except.ok.inj same
  refine (List.perm_ext_iff_of_nodup recovery.nodup nodup').mpr fun entry => ?_
  obtain ⟨k, id⟩ := entry
  rw [all k id, listed' k id]
  obtain ⟨missing, missing'⟩ | ⟨m, row, p, found, foundRow, read, alike⟩ := tracks k
  · constructor
    · rintro ⟨run, _, _, found, -⟩
      rw [missing] at found
      cases found
    · rintro ⟨row, p, member, -⟩
      have found := there (k, row) member
      rw [missing'] at found
      cases found
  · have lapsed := alike.same.lapsed now id
    rw [show (Clock.at now).call 0 = now from rfl, Repository.expired_iff found, ← lapsed]
    constructor
    · intro past
      have decoded := PostgresRunStore.decodes_of_steady upheld.steady foundRow read.decoded
      have expired := decoded.steady.lapsedSteps_ne_nil.mp
        (List.ne_nil_of_mem (decoded.steady.mem_lapsedSteps.mpr ⟨rfl, past⟩))
      have member : (k, row) ∈ store.expiredRows t limit :=
        (PostgresRunStore.mem_expiredRows_iff few).mpr
          ⟨foundRow, (RunRecord.expired_iff decoded.expiry bound).mpr expired⟩
      exact ⟨row, p, member, decoded, past⟩
    · rintro ⟨row', p', member, decoded, past⟩
      obtain rfl := Option.some.inj (foundRow.symm.trans (there (k, row') member))
      obtain rfl := Except.ok.inj (read.decoded.symm.trans decoded.decoded)
      exact past

/-- What a recovery makes of a repository and of the table that tracks it. -/
theorem Tracks.recover {store : PostgresRunStore} {F : RunId → UInt64 → UInt64} {s : Repository}
    {t : Table} {now : UInt64} {db : PgClock} {limit : Int64} (tracks : Tracks store F s t)
    (upheld : Upheld s t) (reading : toU64 db.now = .ok now) (bound : toI64 now = .ok limit)
    (few : (t.toList.filter fun entry : RunId × Row =>
      entry.2.leaseExpiresAtMs.any fun expiry => decide (expiry ≤ limit)).length ≤
        recoveryBatchSize)
    (fits : ∀ (k : RunId) (row : Row) (p : RunRecord) more p', t[k]? = some row →
      store.readPayload row.payload = .ok p →
      Locked.recoverExpired p now (.at now) = .ok (more, some p') → store.Fits p') :
    ∃ expired s' expired' t', s.recoverExpired (.at now) = (.ok expired, s') ∧
      store.recoverExpired t (.at now) db = (.ok expired', t') ∧ expired.Perm expired' ∧
      Tracks store F s' t' := by
  obtain ⟨expired, s', result, token, outside, visited⟩ :=
    Repository.recoverRuns_visits now (.at now) s.runs.nodup_keys upheld.keyed
      (fun k member => BTreeMap.mem_keys_iff.mp member) []
  have listed : ∀ entry : RunId × Row, entry ∈ store.expiredRows t limit ↔
      t[entry.1]? = some entry.2 ∧ ∃ expiry ∈ entry.2.leaseExpiresAtMs, expiry ≤ limit :=
    fun entry => PostgresRunStore.mem_expiredRows_iff few
  have read : ∀ (k : RunId) (row : Row), t[k]? = some row → ∃ p, store.ReadAs row p ∧
      store.Decodes k row p ∧
      (p.Expired now ↔ ∃ expiry ∈ row.leaseExpiresAtMs, expiry ≤ limit) := by
    intro k row there
    obtain ⟨-, missing⟩ | ⟨m, row', p, found, there', read, alike⟩ := tracks k
    · rw [missing] at there
      cases there
    · obtain rfl := Option.some.inj (there.symm.trans there')
      have decodes := PostgresRunStore.decodes_of_steady upheld.steady there read.decoded
      exact ⟨p, read, decodes, (RunRecord.expired_iff decodes.expiry bound).symm⟩
  obtain ⟨expired', t', result', outside', visited'⟩ :=
    PostgresRunStore.recoverRows_visits now (.at now) db
      (PostgresRunStore.earliestExpired store t limit).distinct
      (fun entry member => ((listed entry).mp member).1)
      (fun entry member => by
        obtain ⟨there, past⟩ := (listed entry).mp member
        obtain ⟨p, -, decodes, expired⟩ := read entry.1 entry.2 there
        exact ⟨p, decodes, expired.mpr past⟩)
      (fun entry member p more p' => fits entry.1 entry.2 p more p' ((listed entry).mp member).1) []
  refine ⟨expired, s', expired', t', result, ?_,
    tracks.perm_recovered upheld bound few result result', fun k => ?_⟩
  · simp only [PostgresRunStore.recoverExpired, reading, bound, bind, Except.bind, result']
  · obtain ⟨missing, missing'⟩ | ⟨m, row, p, found, there, readAs, alike⟩ := tracks k
    · refine .inl ⟨?_, ?_⟩
      · rw [outside k, missing]
        intro member
        obtain ⟨run, found⟩ := BTreeMap.mem_keys_iff.mp member
        rw [missing] at found
        cases found
      · rw [outside' k, missing']
        intro member
        obtain ⟨entry, fetched, rfl⟩ := List.mem_map.mp member
        rw [((listed entry).mp fetched).1] at missing'
        cases missing'
    · obtain ⟨m', found', visits⟩ := visited k (BTreeMap.mem_keys_iff.mpr ⟨m, found⟩) m found
      have visited : ∀ p', p.Visits now (.at now) p.workflow.steps p' →
          m'.Alike (F k) s'.nextLeaseToken p' := by
        intro p' visits'
        rw [alike.same.workflow] at visits'
        rw [token]
        exact alike.plain (fun _ issued => visits.issued (List.Subset.refl _) issued)
          (visits.matches visits' alike.same) (visits.sameMetrics visits' alike.metrics)
      -- A row whose leases last is not fetched, and there is nothing to visit in it.
      by_cases past : ∃ expiry ∈ row.leaseExpiresAtMs, expiry ≤ limit
      · obtain ⟨p₁, p', row', decoded, visits', stored, read'⟩ :=
          visited' (k, row) ((listed (k, row)).mpr ⟨there, past⟩)
        obtain rfl := Except.ok.inj (readAs.decoded.symm.trans decoded)
        exact .inr ⟨m', row', p'.bump, found', stored, read', (visited p' visits').bump_right⟩
      · obtain ⟨p₁, read₁, -, expired⟩ := read k row there
        obtain rfl := Except.ok.inj (readAs.decoded.symm.trans read₁.decoded)
        refine .inr ⟨m', row, p, found', ?_, readAs,
          visited p (RunRecord.visits_of_unexpired (mt expired.mp past) _ _)⟩
        rw [outside' k, there]
        intro member
        obtain ⟨entry, fetched, rfl⟩ := List.mem_map.mp member
        obtain ⟨there', past'⟩ := (listed entry).mp fetched
        obtain rfl := Option.some.inj (there.symm.trans there')
        exact past past'

end Orchestrator
