import Orchestrator.Refinement.Simulation
import Orchestrator.Repository.Saturation

/-!
# Histories of both repositories

The calls of a flood are given to both repositories. Each writes a record that fits its
row, so that the histories are paired.
-/

namespace Orchestrator

namespace PostgresRunStore

/-- The row of the key is read as the record. -/
def Keeps (store : PostgresRunStore) (t : Table) (k : RunId) (run : RunRecord) : Prop :=
  ∃ row, t[k]? = some row ∧ store.ReadAs row run

variable {store : PostgresRunStore} {ops : List PgOp} {op : Op} {db : PgClock} {k : RunId}
  {t : Table} {run run' : RunRecord}

/-- A call on a known record writes what it makes of it. -/
theorem Keeps.writes (holds : store.Keeps t k run) (target : op.target = some k)
    (written : Locked.written run (op, db) = .ok (some run')) {other : RunRecord}
    (writes : store.Writes t (op, db) other) : other = run' := by
  obtain ⟨row, found, read⟩ := holds
  cases writes with
  | create accepted free absent =>
      cases target
      rw [absent] at found
      cases found
  | change target' found' decoded written' =>
      obtain rfl := target' k target
      obtain rfl := Option.some.inj (found.symm.trans found')
      obtain rfl := Except.ok.inj (read.decoded.symm.trans decoded)
      exact Option.some.inj (Except.ok.inj (written'.symm.trans written))

/-- A creation writes the created record only. -/
theorem writes_created {request : RunRequest} {clock : Clock} {other : RunRecord}
    (writes : store.Writes t (.createRun request clock, db) other) :
    other = .created request (clock.call 0) 1 (clock.call 1) := by
  cases writes with
  | create => rfl
  | change target found decoded written => cases written

/-- A transition of a known record leaves its row with what it makes of it. -/
theorem Keeps.transition {α : Type} {b : α}
    {act : RunRecord → Except RepositoryError (α × Option RunRecord)}
    (holds : store.Keeps ((postgres store).after ops) k run)
    (acted : act run = .ok (b, some run')) (fits : store.Fits run') (own : run'.runId = k)
    (raised : run.Raised run') :
    store.Keeps (store.transition ((postgres store).after ops) k db act).2 k run' := by
  obtain ⟨row, there, read⟩ := holds
  have decodes := decodes_of_steady (steady_after store ops) there read.decoded
  obtain ⟨row', t', written, there', read', -⟩ :=
    transition_of_fits db there decodes acted fits own raised
  rw [written]
  exact ⟨row', there', read'⟩

/-- A call on one run leaves the other rows. -/
theorem next_absent (target : op.target = some k) {other : RunId} (apart : other ≠ k)
    (absent : ((postgres store).after ops)[other]? = none) :
    ((postgres store).next ((postgres store).after ops) (op, db))[other]? = none := by
  rw [Option.eq_none_iff_forall_not_mem]
  intro row found
  obtain before | ⟨run, written, own, -⟩ := next_row found
  · rw [absent] at before
    cases before
  · have same : run.runId = k := by
      cases written with
      | create =>
          cases target
          rfl
      | change target' found' decoded written =>
          obtain rfl := target' k target
          have own' := runId_of_decoded (recorded_after store ops) found' decoded
          exact (Locked.written_turn (fun id member => (target' id member).trans own'.symm)
            written).sameRun.trans own'
    exact apart (own.symm.trans same)

end PostgresRunStore

namespace Sample

/-- The calls for both repositories, all at the time zero. -/
def paired (ops : List Op) : List (Op × PgOp) := ops.map fun op => (op, op, database 0)

/-- The table after the calls. -/
def rows (ops : List Op) : Table :=
  (postgres storage).after (ops.map fun op => (op, database 0))

theorem map_fst_paired (ops : List Op) : (paired ops).map Prod.fst = ops := by
  simp [paired, Function.comp_def]

theorem map_snd_paired (ops : List Op) :
    (paired ops).map Prod.snd = ops.map fun op => (op, database 0) := by
  simp [paired, Function.comp_def]

/-- The histories are paired: what the calls write fits. -/
def Paired (ops : List Op) : Prop :=
  (repository.both (postgres storage)).Along (Orchestrator.Paired storage) (paired ops)

theorem rows_concat (ops : List Op) (op : Op) :
    rows (ops ++ [op]) = (postgres storage).next (rows ops) (op, database 0) := by
  rw [rows, List.map_append, List.map_singleton, Machine.after_concat, rows]

theorem rows_absent {ops : List Op} (op : Op) {k other : RunId} (target : op.target = some k)
    (apart : other ≠ k) (absent : (rows ops)[other]? = none) :
    (rows (ops ++ [op]))[other]? = none := by
  rw [rows_concat]
  exact PostgresRunStore.next_absent target apart absent

/-- Calls that bring finite doubles and an output other than null. -/
def Plain (ops : List Op) : Prop := ∀ op ∈ ops, op.Plain

/-- A plain call that writes small numbers writes what fits its row. -/
theorem fits_of_plain {ops : List Op} (before : Plain ops) {op : Op} (plain : op.Plain)
    {run : RunRecord} (written : storage.Writes (rows ops) (op, database 0) run)
    (columns : ((toI64 run.revision).any fun _ => run.leaseExpiryMs.any fun _ => true) = true) :
    storage.Fits run := by
  simp only [Except.any_eq_true] at columns
  obtain ⟨revision, fits, expiry, expires, -⟩ := columns
  refine ⟨?_, ⟨revision, fits⟩, ⟨expiry, expires⟩⟩
  rw [PostgresRunStore.readPayload_of_fetch rfl]
  refine written.reads_back_iff.mpr ?_
  refine written.readable (PostgresRunStore.recorded_after storage _)
    (PostgresRunStore.readable_after ?_) plain
  intro call member
  obtain ⟨op, listed, rfl⟩ := List.mem_map.mp member
  exact before op listed

theorem Paired.concat {ops : List Op} {op : Op} (paired : Paired ops)
    (same : SameCall storage (repository.after ops) (rows ops) 0 (database 0) op op)
    (fits : ∀ run, storage.Writes (rows ops) (op, database 0) run → storage.Fits run) :
    Paired (ops ++ [op]) := by
  unfold Paired Sample.paired at paired ⊢
  rw [List.map_append, List.map_singleton]
  refine Machine.Along.concat paired ?_
  rw [Machine.after_both]
  change Orchestrator.Paired storage (repository.after ((Sample.paired ops).map Prod.fst),
    (postgres storage).after ((Sample.paired ops).map Prod.snd)) _
  rw [map_fst_paired, map_snd_paired]
  exact ⟨⟨0, rfl, same⟩, fits⟩

/-- A run is created in both repositories. -/
theorem Paired.create {ops : List Op} (paired : Paired ops) (plain : Plain ops)
    {request : RunRequest} (finite : (Op.createRun request (.at 0)).Plain)
    (accepted : validateRunRequest request = some (.ok ()))
    (unkeyed : request.idempotencyKey = none) (absent : (rows ops)[request.runId]? = none) :
    Paired (ops ++ [.createRun request (.at 0)]) ∧
      storage.Keeps (rows (ops ++ [.createRun request (.at 0)])) request.runId
        (.created request 0 1 0) := by
  have fits : ∀ run, storage.Writes (rows ops) (.createRun request (.at 0), database 0) run →
      storage.Fits run := by
    intro run writes
    refine fits_of_plain plain finite writes ?_
    obtain rfl := PostgresRunStore.writes_created writes
    rfl
  refine ⟨paired.concat (.createRun request) fits, ?_⟩
  have free : (request.idempotencyKey >>= PostgresRunStore.findKey (rows ops)) = none := by
    rw [unkeyed]
    rfl
  obtain ⟨row, t', created, there, read, -⟩ :=
    PostgresRunStore.createRun_of_free (.at 0) (database 0) accepted free absent
      (fits _ (.create accepted free absent))
  rw [rows_concat]
  refine ⟨row, ?_, read⟩
  change (storage.createRun (rows ops) request (.at 0) (database 0)).2[request.runId]? = some row
  rw [created]
  exact there

/-- A call changes a run in both repositories. -/
theorem Paired.change {ops : List Op} {op : Op} {k : RunId} {run run' : RunRecord}
    (paired : Paired ops) (plain : Plain ops) (finite : op.Plain)
    (same : SameCall storage (repository.after ops) (rows ops) 0 (database 0) op op)
    (target : op.target = some k) (keeps : storage.Keeps (rows ops) k run)
    (written : Locked.written run (op, database 0) = .ok (some run'))
    (columns : ((toI64 run'.revision).any fun _ => run'.leaseExpiryMs.any fun _ => true) = true) :
    Paired (ops ++ [op]) ∧ storage.Fits run' ∧ run'.runId = k ∧ run.Raised run' := by
  have fits : ∀ other, storage.Writes (rows ops) (op, database 0) other → storage.Fits other := by
    intro other writes
    refine fits_of_plain plain finite writes ?_
    obtain rfl := keeps.writes target written writes
    exact columns
  have only : ∀ id ∈ op.target, id = k := by
    intro id member
    rw [target] at member
    exact (Option.some.inj member).symm
  obtain ⟨row, found, read⟩ := keeps
  have own := PostgresRunStore.runId_of_decoded (PostgresRunStore.recorded_after storage _) found
    read.decoded
  have turn := Locked.written_turn (fun id member => (only id member).trans own.symm) written
  exact ⟨paired.concat same fits, fits _ (.change only found read.decoded written),
    turn.sameRun.trans own, turn.raised⟩

/-- A step is claimed in both repositories. -/
theorem Paired.claim {ops : List Op} {k : RunId} {run run' : RunRecord}
    {claim : Option StepClaim} (paired : Paired ops) (plain : Plain ops)
    (keeps : storage.Keeps (rows ops) k run)
    (claimed : Locked.claimNextStep run k worker 10 (database 0) = .ok (claim, some run'))
    (columns : ((toI64 run'.revision).any fun _ => run'.leaseExpiryMs.any fun _ => true) = true) :
    Paired (ops ++ [.claimNextStep k worker 10 (.at 0)]) ∧
      storage.Keeps (rows (ops ++ [.claimNextStep k worker 10 (.at 0)])) k run' := by
  have written : Locked.written run (.claimNextStep k worker 10 (.at 0), database 0) =
      .ok (some run') := Except.map_eq_ok.mpr ⟨_, claimed, rfl⟩
  obtain ⟨paired', fits, own, raised⟩ :=
    paired.change plain (show (Op.claimNextStep k worker 10 (.at 0)).Plain from trivial)
      (.claimNextStep k worker 10) rfl keeps written columns
  rw [rows_concat]
  exact ⟨paired', keeps.transition claimed fits own raised⟩

/-- A run that has not ended is cancelled in both repositories. -/
theorem Paired.cancel {ops : List Op} {k : RunId} {run run' answer : RunRecord}
    (paired : Paired ops) (plain : Plain ops) (keeps : storage.Keeps (rows ops) k run)
    (cancelled : Locked.cancelRun run k (.at 0) (database 0) = .ok (answer, some run'))
    (columns : ((toI64 run'.revision).any fun _ => run'.leaseExpiryMs.any fun _ => true) = true) :
    Paired (ops ++ [.cancelRun k (.at 0)]) ∧
      storage.Keeps (rows (ops ++ [.cancelRun k (.at 0)])) k run' := by
  have written : Locked.written run (.cancelRun k (.at 0), database 0) = .ok (some run') :=
    Except.map_eq_ok.mpr ⟨_, cancelled, rfl⟩
  obtain ⟨paired', fits, own, raised⟩ :=
    paired.change plain (show (Op.cancelRun k (.at 0)).Plain from trivial) (.cancelRun k) rfl keeps
      written columns
  rw [rows_concat]
  exact ⟨paired', keeps.transition cancelled fits own raised⟩

/-- The run that a start creates and claims, as its row holds it. -/
def underway (k : RunId) : RunRecord :=
  ((RunRecord.created (single k) 0 1 0).setStep ⟨"only"⟩
    { (RunRecord.created (single k) 0 1 0).claimed ⟨"only"⟩ ⟨"work"⟩ worker.id
      (RunRecord.created (single k) 0 1 0).nextLeaseToken 0 10 with nextAttemptAtMs := none }).bump

theorem underway_columns (k : RunId) : ((toI64 (underway k).revision).any fun _ =>
    (underway k).leaseExpiryMs.any fun _ => true) = true := by
  have revision : (underway k).revision = (underway runId).revision := rfl
  have expiry : (underway k).leaseExpiryMs = (underway runId).leaseExpiryMs := rfl
  rw [revision, expiry]
  decide +kernel

theorem start_plain (k : RunId) : Plain (start k) := by
  intro op member
  obtain rfl | rfl : op = .createRun (single k) (.at 0) ∨
      op = .claimNextStep k worker 10 (.at 0) := by simpa [start] using member
  · exact ⟨fun gate listed => (List.not_mem_nil listed).elim,
      fun gate listed => (List.not_mem_nil listed).elim⟩
  · trivial

theorem flood_plain (n : Nat) : Plain (flood n) := by
  intro op member
  obtain ⟨i, -, member⟩ := List.mem_flatMap.mp member
  exact start_plain _ op member

theorem Plain.append {ops more : List Op} (plain : Plain ops) (plain' : Plain more) :
    Plain (ops ++ more) := List.forall_mem_append.mpr ⟨plain, plain'⟩

/-- A start in both repositories. -/
theorem Paired.start {ops : List Op} (paired : Paired ops) (plain : Plain ops) {k : RunId}
    (absent : (rows ops)[k]? = none) : Paired (ops ++ start k) := by
  obtain ⟨finite, -⟩ := List.forall_mem_cons.mp (start_plain k)
  obtain ⟨created, keeps⟩ := paired.create plain finite (single_accepted k) rfl absent
  have chosen : (RunRecord.created (single k) 0 1 0).workflow.steps.findSome?
      (claimCandidate (.created (single k) 0 1 0) worker 0) =
        some (step "only" 1 true, ⟨"work"⟩, ∅) := by
    change List.findSome? _ [step "only" 1 true] = _
    rw [List.findSome?_cons, Repository.claimCandidate_created _ _ _ _ rfl (single_task k)
      (by decide +kernel)]
    rfl
  obtain ⟨record, rfl, claimed⟩ := Locked.claimNextStep_of_candidate (database 0) 10 rfl rfl
    chosen (single_task k)
  have started := (created.claim (plain.append (List.forall_mem_singleton.mpr finite)) keeps
    claimed (underway_columns k)).1
  rwa [List.append_assoc] at started

/-- A flood in both repositories, which stores its own runs only. -/
theorem paired_flood (n : Nat) : Paired (flood n) ∧
    ∀ id, (∀ i < n, nthRun i ≠ id) → (rows (flood n))[id]? = none := by
  induction n with
  | zero => exact ⟨Machine.along_nil, fun id _ => by simp [flood, rows, postgres]⟩
  | succ n ih =>
      obtain ⟨paired, absent⟩ := ih
      have next : flood (n + 1) = flood n ++ start (nthRun n) := by
        rw [flood, List.range_succ, List.flatMap_append]
        exact congrArg _ (List.flatMap_singleton _ _)
      have fresh := absent (nthRun n) fun i less same => Nat.ne_of_lt less (nthRun_injective same)
      rw [next]
      refine ⟨paired.start (flood_plain n) fresh, fun id apart => ?_⟩
      have other : id ≠ nthRun n := (apart n (Nat.lt_succ_self n)).symm
      have before := absent id fun i less => apart i (Nat.lt_succ_of_lt less)
      have created := rows_absent (.createRun (single (nthRun n)) (.at 0)) rfl other before
      have claimed := rows_absent (.claimNextStep (nthRun n) worker 10 (.at 0)) rfl other created
      rwa [List.append_assoc] at claimed

end Sample

end Orchestrator
