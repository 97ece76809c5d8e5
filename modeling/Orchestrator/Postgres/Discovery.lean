import Mathlib.Data.String.Basic
import Std.Data.String.ToNat
import Orchestrator.Postgres.Persistence

/-!
# Which runs a worker is offered

A worker that asks for a step of any run is shown the first hundred running rows,
those that were written longest ago. It comes away empty-handed just if each of
these has nothing for it. Rows behind them are not looked at, so a run among them
that has a step for the worker is passed over.
-/

namespace Orchestrator

open Json (toValue fromValue)

theorem Locked.claimNextStep_cases {run : RunRecord} {runId : RunId} {worker : WorkerProfile}
    {leaseMs : UInt64} {db : PgClock} {answer : Option StepClaim} {written : Option RunRecord}
    (h : claimNextStep run runId worker leaseMs db = .ok (answer, written)) :
    answer = none ∧ written = none ∨ run.status = .running ∧ answer.isSome ∧ written.isSome := by
  unfold claimNextStep at h
  split at h
  · simp only [Except.ok.injEq, Prod.mk.injEq] at h
    exact .inl ⟨h.1.symm, h.2.symm⟩
  next running =>
    obtain ⟨now, -, h⟩ := Except.bind_eq_ok.mp h
    split at h
    · simp only [Except.ok.injEq, Prod.mk.injEq] at h
      exact .inl ⟨h.1.symm, h.2.symm⟩
    · split at h
      · simp at h
      · simp only [Except.ok.injEq, Prod.mk.injEq] at h
        obtain ⟨rfl, rfl⟩ := h
        exact .inr ⟨not_not.mp running, rfl, rfl⟩

namespace PostgresRunStore

variable (store : PostgresRunStore) (s : Table) (worker : WorkerProfile) (leaseMs : UInt64)
  (db : PgClock)

/-- What the worker is told when the scan comes to the run. -/
def offer (runId : RunId) : Except RepositoryError (Option StepClaim) :=
  (store.claimNextStep s runId worker leaseMs { db with now := db.candidate runId }).1

/-- The run has a step for the worker. -/
def Offers (runId : RunId) : Prop :=
  ∃ claim, store.offer s worker leaseMs db runId = .ok (some claim)

/-- The scan goes past the run: its id is no blank text and it has nothing for the
worker, without an error. -/
def Passes (runId : RunId) : Prop :=
  isBlank runId.value = false ∧ store.offer s worker leaseMs db runId = .ok none

variable {store s worker leaseMs db}

/-- A claim that hands out nothing writes nothing. -/
theorem claimNextStep_none {runId : RunId}
    (h : (store.claimNextStep s runId worker leaseMs db).1 = .ok none) :
    store.claimNextStep s runId worker leaseMs db = (.ok none, s) := by
  obtain ⟨row, run, written, found, decoded, acted, -⟩ := transition_eq_ok.mp h
  obtain ⟨-, rfl⟩ | ⟨-, handed, -⟩ := Locked.claimNextStep_cases acted
  · simp only [claimNextStep, transition, loadLocked_eq_ok.mpr ⟨row, found, decoded⟩, acted]
  · cases handed

theorem claimFrom_none_iff (ids : List RunId) :
    (store.claimFrom worker leaseMs db s ids).1 = .ok none ↔
      ∀ id ∈ ids, store.Passes s worker leaseMs db id := by
  induction ids with
  | nil => simp [claimFrom]
  | cons id rest ih =>
      rw [List.forall_mem_cons, ← ih, claimFrom]
      unfold Id.new
      split
      next error blank =>
        split at blank
        next isBlank => simp [Passes, isBlank]
        · cases blank
      next runId valid =>
        split at valid
        · cases valid
        next visible =>
          obtain rfl := Except.ok.inj valid
          rw [Passes, offer]
          split
          next s' nothing =>
            have quiet := claimNextStep_none (congrArg Prod.fst nothing)
            obtain rfl : s' = s := congrArg Prod.snd (nothing.symm.trans quiet)
            simp [nothing, visible]
          next result s' other given =>
            constructor
            · exact fun h => (other h).elim
            · rintro ⟨⟨-, h⟩, -⟩
              exact (other ((congrArg Prod.fst given).symm.trans h)).elim

/-- The status of a run is found in the payload of its row. -/
theorem fieldText_status (run : RunRecord) :
    fieldText (toValue run) "status" =
      match toValue run.status with
      | .string text => some text
      | _ => none := by
  change fieldText (RunRecord.toValue run) "status" = _
  simp [fieldText, RunRecord.toValue, List.lookup_cons]
  cases toValue run.status <;> rfl

/-- A run that has a step for a worker is running, and its row says so. -/
theorem Offers.mem_runningRows (recorded : s.Recorded) {runId : RunId}
    (h : store.Offers s worker leaseMs db runId) :
    ∃ row, (runId, row) ∈ store.runningRows s := by
  obtain ⟨claim, given⟩ := h
  obtain ⟨row, run, written, found, decoded, acted, -⟩ := transition_eq_ok.mp given
  obtain ⟨impossible, -⟩ | ⟨running, -⟩ := Locked.claimNextStep_cases acted
  · cases impossible
  · obtain ⟨stored, -, payload⟩ := recorded runId row found
    rw [payload] at decoded
    rw [eq_of_fromValue_runRecord (of_readPayload decoded).1] at running
    refine ⟨row, (List.mem_insertionSort _).mpr (List.mem_filter.mpr ⟨?_, ?_⟩)⟩
    · exact Std.ExtTreeMap.mem_toList_iff_getElem?_eq_some.mpr found
    · rw [payload, fieldText_status, show stored.status = .running from running]
      rfl

variable (store s worker leaseMs db)

/-- A worker comes away empty-handed just where no run has a step for it, if and only
if the scan stops at one of the first hundred running rows or no later one has a step
for the worker. -/
theorem discovery_complete_iff (recorded : s.Recorded) :
    ((store.claimNextRunnableStep s worker leaseMs db).1 = .ok none →
        ∀ runId, ¬ store.Offers s worker leaseMs db runId) ↔
      (∃ entry ∈ (store.runningRows s).take recoveryBatchSize,
        ¬ store.Passes s worker leaseMs db entry.1) ∨
      ∀ entry ∈ (store.runningRows s).drop recoveryBatchSize,
        ¬ store.Offers s worker leaseMs db entry.1 := by
  have scan : (store.claimNextRunnableStep s worker leaseMs db).1 = .ok none ↔
      ∀ entry ∈ (store.runningRows s).take recoveryBatchSize,
        store.Passes s worker leaseMs db entry.1 := by
    rw [claimNextRunnableStep, claimFrom_none_iff, List.forall_mem_map]
  rw [scan]
  constructor
  · intro complete
    by_cases passed : ∀ entry ∈ (store.runningRows s).take recoveryBatchSize,
        store.Passes s worker leaseMs db entry.1
    · exact .inr fun entry _ => complete passed entry.1
    · push Not at passed
      exact .inl passed
  · rintro (⟨entry, shown, stops⟩ | hidden) passed runId offers
    · exact stops (passed entry shown)
    · obtain ⟨row, listed⟩ := offers.mem_runningRows recorded
      rw [← List.take_append_drop recoveryBatchSize (store.runningRows s)] at listed
      obtain shown | later := List.mem_append.mp listed
      · obtain ⟨claim, given⟩ := offers
        have nothing := (passed _ shown).2.symm.trans given
        cases nothing
      · exact hidden _ later offers

/-- The run of one step that a worker has claimed is the only row, so the scan sees it. -/
theorem discovery_complete_iff_claimedOnce :
    Table.Recorded ((postgres Sample.storage).after Sample.claimedOnce) ∧
      ((Sample.storage.claimNextRunnableStep ((postgres Sample.storage).after Sample.claimedOnce)
          Sample.worker 10 (Sample.database 1)).1 = .ok none →
        ∀ runId, ¬ Sample.storage.Offers ((postgres Sample.storage).after Sample.claimedOnce)
          Sample.worker 10 (Sample.database 1) runId) := by
  have recorded := recorded_after Sample.storage Sample.claimedOnce
  refine ⟨recorded, (discovery_complete_iff _ _ _ _ _ recorded).mpr ?_⟩
  have few : (Sample.storage.runningRows ((postgres Sample.storage).after
      Sample.claimedOnce)).length ≤ recoveryBatchSize := by decide +kernel
  rw [List.drop_of_length_le few]
  exact .inr fun entry listed => (List.not_mem_nil listed).elim

end PostgresRunStore

/-! A hundred runs whose steps are at work, and a new run behind them. -/

namespace Sample

def numbered (n : Nat) : RunId := ⟨"run-" ++ n.repr⟩

/-- A new run of one step. -/
def waiting (n : Nat) : RunRecord :=
  .created { request [step "only" 1 false] [] with runId := numbered n } 0 1 0

/-- A run of one step, which a worker holds until the time 1000. -/
def occupied (n : Nat) : RunRecord :=
  ((waiting n).setStep ⟨"only"⟩
    ((waiting n).claimed ⟨"only"⟩ ⟨"work"⟩ ⟨"worker"⟩ 1 0 1000)).bump

/-- The row of a record that was written at the given time. -/
def row (run : RunRecord) (written : Int) : Row :=
  ⟨run.revision.toInt64, toValue run, none, run.leaseExpiryMs.toOption.join, written⟩

/-- A run that was created last, and as many occupied runs as told. -/
def crowd : Nat → Table
  | 0 => (∅ : Table).insert (numbered 0) (row (waiting 0) 1)
  | n + 1 => (crowd n).insert (numbered (n + 1)) (row (occupied (n + 1)) 0)

theorem numbered_injective : Function.Injective numbered := by
  intro m n same
  have digits : m.repr = n.repr := by simpa [numbered] using congrArg Id.value same
  exact Nat.repr_injective digits

theorem getElem?_crowd {n : Nat} {k : RunId} {r : Row} (h : (crowd n)[k]? = some r) :
    k = numbered 0 ∧ r = row (waiting 0) 1 ∨
      ∃ m < n, k = numbered (m + 1) ∧ r = row (occupied (m + 1)) 0 := by
  induction n with
  | zero =>
      rw [crowd, BTreeMap.getElem?_insert] at h
      split at h
      next same => exact .inl ⟨same.symm, (Option.some.inj h).symm⟩
      · simp at h
  | succ n ih =>
      rw [crowd, BTreeMap.getElem?_insert] at h
      split at h
      next same => exact .inr ⟨n, n.lt_succ_self, same.symm, (Option.some.inj h).symm⟩
      · exact (ih h).imp_right fun ⟨m, below, same⟩ => ⟨m, Nat.lt_succ_of_lt below, same⟩

theorem crowd_waiting (n : Nat) : (crowd n)[numbered 0]? = some (row (waiting 0) 1) := by
  induction n with
  | zero => rw [crowd, BTreeMap.getElem?_insert, if_pos rfl]
  | succ n ih =>
      rw [crowd, BTreeMap.getElem?_insert, if_neg, ih]
      intro same
      simpa using numbered_injective same

theorem size_crowd (n : Nat) : (crowd n).size = n + 1 := by
  induction n with
  | zero => decide +kernel
  | succ n ih =>
      have fresh : numbered (n + 1) ∉ crowd n := by
        intro member
        obtain ⟨r, found⟩ := Option.isSome_iff_exists.mp
          (Std.ExtTreeMap.mem_iff_isSome_getElem?.mp member)
        obtain ⟨same, -⟩ | ⟨m, below, same, -⟩ := getElem?_crowd found
        · simpa using numbered_injective same
        · have := numbered_injective same
          omega
      rw [crowd, Std.ExtTreeMap.size_insert, if_neg, ih]
      simpa [Std.ExtTreeMap.contains_iff_mem] using fresh

theorem recorded_crowd (n : Nat) : (crowd n).Recorded := by
  intro k r found
  obtain ⟨rfl, rfl⟩ | ⟨m, -, rfl, rfl⟩ := getElem?_crowd found
  · exact ⟨waiting 0, rfl, rfl⟩
  · exact ⟨occupied (m + 1), rfl, rfl⟩

theorem readable_waiting (n : Nat) : (waiting n).Readable := by
  refine .created (.at 0) ⟨?_, ?_⟩ _ _ _
  · exact fun gate listed => (List.not_mem_nil listed).elim
  · exact fun gate listed => (List.not_mem_nil listed).elim

theorem supported_waiting (n : Nat) : (waiting n).Supported := by
  refine ⟨rfl, rfl, fun envelope member => ?_⟩
  obtain rfl := List.mem_singleton.mp member
  rfl

theorem readable_occupied (n : Nat) : (occupied n).Readable := by
  obtain ⟨⟨workflow, manifest, metrics, decisions⟩, outputs⟩ := readable_waiting n
  refine ⟨⟨workflow, manifest, metrics, decisions⟩, fun id record found => ?_⟩
  rw [occupied, RunRecord.bump_steps, RunRecord.setStep_steps, BTreeMap.getElem?_insert] at found
  split at found
  · obtain rfl := Option.some.inj found
    simp [RunRecord.claimed, RunRecord.entry, waiting, RunRecord.created, RunRecord.new,
      StepRecord.claim, StepRecord.new]
  · exact outputs id record found

theorem supported_occupied (n : Nat) : (occupied n).Supported := by
  obtain ⟨schema, manifest, events⟩ := supported_waiting n
  exact ⟨schema, manifest, events⟩

/-- A readable record is read from its row as it is. -/
theorem readPayload_row {run : RunRecord} (supported : run.Supported) (readable : run.Readable)
    (written : Int) : storage.readPayload (row run written).payload = .ok run :=
  (PostgresRunStore.readPayload_of_fetch rfl).trans
    ((PostgresRunStore.decodePayload_toValue supported).mpr readable)

/-- A worker cannot claim the step of an occupied run. -/
theorem candidate_occupied (m : Nat) (now : UInt64) :
    (occupied m).workflow.steps.findSome? (claimCandidate (occupied m) worker now) = none := by
  refine List.findSome?_eq_none_iff.mpr fun step listed => ?_
  obtain rfl := List.mem_singleton.mp listed
  refine Option.eq_none_iff_forall_ne_some.mpr fun found candidate => ?_
  obtain ⟨step, taskId, dependencies⟩ := found
  obtain ⟨-, -, -, -, -, available⟩ := Repository.claimCandidate_eq_some.mp candidate
  have stored : (occupied m).steps[(⟨"only"⟩ : StepId)]? =
      some ((waiting m).claimed ⟨"only"⟩ ⟨"work"⟩ ⟨"worker"⟩ 1 0 1000) := by
    rw [occupied, RunRecord.bump_steps, RunRecord.setStep_steps, BTreeMap.getElem?_insert,
      if_pos rfl]
  simp [stepAvailable, Sample.step, stored, RunRecord.claimed, StepRecord.claim] at available

/-- The scan goes past an occupied run before its lease runs out. -/
theorem passes_occupied {n m : Nat}
    (found : (crowd n)[numbered m]? = some (row (occupied m) 0)) :
    storage.Passes (crowd n) worker 10 (database 1) (numbered m) := by
  refine ⟨?_, PostgresRunStore.transition_eq_ok.mpr ⟨_, occupied m, none, found, ?_, ?_, by simp⟩⟩
  · simp [isBlank, numbered, isWhiteSpace]
  · exact readPayload_row (supported_occupied m) (readable_occupied m) 0
  · have running : (occupied m).status = .running := rfl
    have reading : toU64 ((database 1).candidate (numbered m)) = .ok 1 := rfl
    simp [Locked.claimNextStep, running, reading, candidate_occupied]

theorem offers_waiting (n : Nat) :
    storage.Offers (crowd n) worker 10 (database 1) (numbered 0) := by
  have handed : (Locked.claimNextStep (waiting 0) (numbered 0) worker 10 (database 1)).any
      (fun result => result.1.isSome && result.2.any fun run' =>
        (toI64 run'.revision).any (fun revision => decide ((row (waiting 0) 1).revision < revision))
          && run'.leaseExpiryMs.any fun _ => true) = true := by decide +kernel
  simp only [Except.any_eq_true, Bool.and_eq_true, Option.any_eq_true, Option.isSome_iff_exists,
    decide_eq_true_eq] at handed
  obtain ⟨⟨_, _⟩, acted, ⟨claim, rfl⟩, run', rfl, ⟨revision, fits, newer⟩, expiry, expires, -⟩ :=
    handed
  obtain ⟨_, -, taken⟩ := Locked.claimNextStep_step rfl acted
  refine ⟨claim, PostgresRunStore.transition_eq_ok.mpr
    ⟨_, waiting 0, some run', crowd_waiting n, ?_, acted, fun written same => ?_⟩⟩
  · exact readPayload_row (supported_waiting 0) (readable_waiting 0) 1
  · obtain rfl := Option.some.inj same
    refine ⟨revision, expiry, _, fits, expires, ?_, newer⟩
    rw [taken.sameRequest.runId]
    exact crowd_waiting n

theorem mem_runningRows_crowd {n : Nat} {entry : RunId × Row} :
    entry ∈ storage.runningRows (crowd n) ↔ (crowd n)[entry.1]? = some entry.2 := by
  rw [PostgresRunStore.runningRows, List.mem_insertionSort, List.mem_filter,
    Std.ExtTreeMap.mem_toList_iff_getElem?_eq_some]
  refine and_iff_left_of_imp fun found => ?_
  obtain ⟨-, same⟩ | ⟨m, -, -, same⟩ := getElem?_crowd found
  · simp only [same, row, PostgresRunStore.fieldText_status]
    rfl
  · simp only [same, row, PostgresRunStore.fieldText_status]
    rfl

theorem nodup_runningRows (s : Table) : (storage.runningRows s).Nodup :=
  (List.perm_insertionSort _ _).nodup_iff.mpr ((List.Nodup.of_map _ s.keys_nodup).filter _)

theorem length_runningRows_crowd (n : Nat) : (storage.runningRows (crowd n)).length = n + 1 := by
  rw [← size_crowd, ← Std.ExtTreeMap.length_toList]
  refine ((List.perm_ext_iff_of_nodup (nodup_runningRows _)
    (List.Nodup.of_map _ (BTreeMap.keys_nodup _))).mpr fun entry => ?_).length_eq
  rw [mem_runningRows_crowd, Std.ExtTreeMap.mem_toList_iff_getElem?_eq_some]

/-- The new run is not among the first hundred of the running rows. -/
theorem take_runningRows_crowd {entry : RunId × Row}
    (shown : entry ∈ (storage.runningRows (crowd 100)).take 100) : entry.2.updatedAt = 0 := by
  have rows := List.take_append_drop 100 (storage.runningRows (crowd 100))
  have length := length_runningRows_crowd 100
  obtain ⟨last, rest⟩ := List.length_eq_one_iff.mp
    (show ((storage.runningRows (crowd 100)).drop 100).length = 1 by simp [length])
  have sorted : (storage.runningRows (crowd 100)).Pairwise fun a b =>
      a.2.updatedAt ≤ b.2.updatedAt := PostgresRunStore.sorted_orderBy storage Row.updatedAt _
  have nodup := nodup_runningRows (crowd 100)
  rw [← rows, rest] at sorted nodup
  have earlier := (List.pairwise_append.mp sorted).2.2 entry shown last List.mem_cons_self
  have other := (List.pairwise_append.mp nodup).2.2 entry shown last List.mem_cons_self
  have found := mem_runningRows_crowd.mp (List.mem_of_mem_take shown)
  have foundLast := mem_runningRows_crowd.mp (List.mem_of_mem_drop (rest ▸ List.mem_cons_self))
  obtain ⟨key, new⟩ | ⟨m, -, -, old⟩ := getElem?_crowd found
  · obtain ⟨keyLast, newLast⟩ | ⟨m, -, -, old⟩ := getElem?_crowd foundLast
    · exact (other (Prod.ext (key.trans keyLast.symm) (new.trans newLast.symm))).elim
    · rw [new, old] at earlier
      simp [row] at earlier
  · rw [old]
    rfl

end Sample

/-- The step of the new run is not offered while a hundred older runs are occupied. -/
theorem PostgresRunStore.crowded_out :
    ¬ ∀ (store : PostgresRunStore) (s : Table) (worker : WorkerProfile) (leaseMs : UInt64)
      (db : PgClock), s.Recorded → (store.claimNextRunnableStep s worker leaseMs db).1 = .ok none →
        ∀ runId, ¬ store.Offers s worker leaseMs db runId := by
  intro claim
  refine claim Sample.storage (Sample.crowd 100) Sample.worker 10 (Sample.database 1)
    (Sample.recorded_crowd 100) ?_ (Sample.numbered 0) (Sample.offers_waiting 100)
  rw [claimNextRunnableStep, claimFrom_none_iff, List.forall_mem_map]
  intro entry shown
  have found := Sample.mem_runningRows_crowd.mp (List.mem_of_mem_take shown)
  obtain ⟨-, new⟩ | ⟨m, -, key, old⟩ := Sample.getElem?_crowd found
  · have written := Sample.take_runningRows_crowd shown
    rw [new] at written
    simp [Sample.row] at written
  · rw [key, old] at found
    rw [key]
    exact Sample.passes_occupied found

end Orchestrator
