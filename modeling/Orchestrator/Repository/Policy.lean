import Orchestrator.Repository.Budget
import Orchestrator.Repository.Recorded
import Orchestrator.Store.Operation

/-!
# The policy that a completion is checked against

A claim carries a copy of its step, its attempt number and its fallback flag, and comes back
from the worker. A completion is checked against this copy alone, and the stored record is
written. So what the stored policy says is enforced just as far as the copy is no laxer.
-/

namespace Orchestrator

open Json (Value)

/-- The attempt number of an event. -/
def ExecutionEvent.attempt? : ExecutionEvent → Option UInt32
  | .stepStarted _ _ _ attempt | .stepRetrying _ _ attempt _ | .stepSucceeded _ _ attempt
  | .stepFailed _ _ attempt _ => some attempt
  | .runStarted .. | .stepFallbackSelected .. | .runFinished .. => none

/-- The completion is one that the stored record and the stored policy allow. -/
structure StepCompletion.AllowedBy (completion : StepCompletion) (record : StepRecord)
    (policy : ExecutionPolicy) : Prop where
  attempt : ∀ attempt ∈ completion.event.attempt?, attempt = record.attempts
  retrying : ∀ runId id attempt error, completion.event = .stepRetrying runId id attempt error →
    record.attempts < policy.retry.budget
  fallback : ∀ runId id task, completion.event = .stepFallbackSelected runId id task →
    policy.fallbackTask = some task ∧ record.fallbackUsed = false
  failed : ∀ runId id attempt error, completion.event = .stepFailed runId id attempt error →
    record.fallbackUsed = true ∨ policy.fallbackTask = none

/-- What the claim says of its step allows no more than the stored record and policy do. -/
structure StepClaim.NoLaxer (claim : StepClaim) (manifest : RunManifest) (record : StepRecord)
    (policy : ExecutionPolicy) : Prop where
  attempt : claim.attempt = record.attempts
  retrying : claim.attempt < claim.step.policy.retry.budget → record.attempts < policy.retry.budget
  fallback : claim.fallbackUsed = false → ∀ task, claim.step.policy.fallbackTask = some task →
    manifest.tasks.contains task = true →
      policy.fallbackTask = some task ∧ record.fallbackUsed = false
  failed : claim.fallbackUsed = true ∨ claim.step.policy.fallbackTask = none →
    record.fallbackUsed = true ∨ policy.fallbackTask = none

section Checks

variable {claim : StepClaim} {manifest : RunManifest} {record : StepRecord}
  {policy : ExecutionPolicy}

/-- All completions that pass the check of the claim are allowed just if it is no laxer. -/
theorem StepClaim.noLaxer_iff : claim.NoLaxer manifest record policy ↔
    ∀ completion, Commits claim manifest completion → completion.AllowedBy record policy := by
  constructor
  · intro strict completion commits
    cases commits with
    | retrying error artifacts retryAfterMs below =>
        refine ⟨?_, ?_, nofun, nofun⟩
        · rintro attempt same
          exact (Option.some.inj same).symm.trans strict.attempt
        · exact fun _ _ _ _ _ => strict.retrying below
    | fallback task error artifacts unused selected known =>
        refine ⟨nofun, nofun, ?_, nofun⟩
        rintro runId id other same
        cases same
        exact strict.fallback unused task selected known
    | succeeded output artifacts =>
        refine ⟨?_, nofun, nofun, nofun⟩
        rintro attempt same
        exact (Option.some.inj same).symm.trans strict.attempt
    | failed error artifacts spent =>
        refine ⟨?_, nofun, nofun, ?_⟩
        · rintro attempt same
          exact (Option.some.inj same).symm.trans strict.attempt
        · exact fun _ _ _ _ _ => strict.failed spent
  · intro allowed
    refine ⟨?_, fun below => ?_, fun unused task selected known => ?_, fun spent => ?_⟩
    · exact (allowed _ (.succeeded .null [])).attempt _ rfl
    · exact (allowed _ (.retrying "" [] none below)).retrying _ _ _ _ rfl
    · exact (allowed _ (.fallback task "" [] unused selected known)).fallback _ _ _ rfl
    · exact (allowed _ (.failed "" [] spent)).failed _ _ _ _ rfl

/-- A claim that describes the record as it stands is no laxer than the stored policy. -/
theorem Mirrors.noLaxer {run : RunRecord} (mirrors : Mirrors claim run record) :
    claim.NoLaxer manifest record claim.step.policy := by
  refine ⟨mirrors.attempt, fun below => ?_, fun unused task selected _ => ?_, fun spent => ?_⟩
  · rw [← mirrors.attempt]
    exact below
  · exact ⟨selected, mirrors.fallbackUsed ▸ unused⟩
  · rw [← mirrors.fallbackUsed]
    exact spent

end Checks

/-- After every history with snapshots, a claim that holds a live lease commits only completions
that the stored record and policy allow exactly where the claim is no laxer than these. -/
theorem stored_policy_enforced_iff (ops : List StoreOp) (claim : StepClaim) (clock : Clock)
    (run : RunRecord) (record : StepRecord) (lease : StepLease) (step : StepSpec)
    (found : (store.after ops).runs[claim.runId]? = some run)
    (_ : step ∈ run.workflow.steps) (own : step.id = claim.step.id)
    (foundStep : run.steps[step.id]? = some record) (leased : record.lease = some lease)
    (live : lease.validFor claim (clock.call 0) = true) :
    (∀ completion run', ((store.after ops).completeStep claim completion clock).1 = .ok run' →
        completion.AllowedBy record step.policy) ↔
      claim.NoLaxer run.manifest record step.policy := by
  rw [own] at foundStep
  rw [StepClaim.noLaxer_iff]
  constructor
  · intro enforced completion commits
    obtain ⟨_, run', s', -, completed, -⟩ := Repository.completeStep_of_lease _
      (store_keyed_after ops) claim completion clock found foundStep leased live
      (completionMatchesClaim_iff.mpr commits)
    exact enforced completion run' (congrArg Prod.fst completed)
  · intro allowed completion run' completed
    obtain ⟨other, record', lease', found', -, -, -, accepted⟩ :=
      Repository.completeStep_ok completed
    obtain rfl := Option.some.inj (found.symm.trans found')
    exact allowed completion (completionMatchesClaim_iff.mp accepted)

/-- With fewer than 2 ^ 64 claims, a claim as it was handed out is no laxer than the stored
policy. -/
theorem noLaxer_of_issued {ops : List Op} (genuine : Genuine ops)
    (few : (issued ops).length < 2 ^ 64) {claim : StepClaim} (handed : claim ∈ issued ops)
    {run : RunRecord} {record : StepRecord} {lease : StepLease}
    (found : (repository.after ops).runs[claim.runId]? = some run)
    (foundStep : run.steps[claim.step.id]? = some record) (leased : record.lease = some lease)
    (token : lease.token = claim.leaseToken) :
    claim.step ∈ run.workflow.steps ∧
      claim.NoLaxer run.manifest record claim.step.policy := by
  have mirrors := (tracked_after genuine).mirrored (Nat.le_of_lt_succ few) claim handed run record
    lease found foundStep leased token
  exact ⟨mirrors.listed, mirrors.noLaxer⟩

namespace Sample

/-- The history in which the one step of a run, without retries, is claimed, and the claim
that comes back with the given limit. -/
def claimedSingle : List Op := [.createRun (request [step "only" 1 false] []) (.at 0), ask 0]

def altered (maxAttempts : UInt32) : StepClaim := claim (step "only" maxAttempts false) 1

/-- The records of the claimed step. -/
theorem claimedSingle_records : ∃ run record lease,
    (repository.after claimedSingle).runs[runId]? = some run ∧
      run.workflow.steps = [step "only" 1 false] ∧
      run.steps[(⟨"only"⟩ : StepId)]? = some record ∧ record.lease = some lease ∧
      lease = ⟨⟨"worker"⟩, 1, 10⟩ ∧ record.attempts = 1 ∧ record.fallbackUsed = false := by
  have stored : (((repository.after claimedSingle).runs[runId]?).bind fun run =>
      (run.steps[(⟨"only"⟩ : StepId)]?).map fun record =>
        (run.workflow.steps, record.lease, record.attempts, record.fallbackUsed)) =
      some ([step "only" 1 false], some ⟨⟨"worker"⟩, 1, 10⟩, 1, false) := by
    decide +kernel
  obtain ⟨run, found, fields⟩ := Option.bind_eq_some_iff.mp stored
  obtain ⟨record, foundStep, fields⟩ := Option.map_eq_some_iff.mp fields
  simp only [Prod.mk.injEq] at fields
  exact ⟨run, record, _, found, fields.1, foundStep, fields.2.1, rfl, fields.2.2⟩

end Sample

/-- The claim as it was handed out commits what the stored policy allows. -/
theorem stored_policy_enforced_iff_unaltered : ∃ run record,
    (store.after (Sample.claimedSingle.map .call)).runs[Sample.runId]? = some run ∧
      run.steps[(⟨"only"⟩ : StepId)]? = some record ∧
      ∀ completion run', ((store.after (Sample.claimedSingle.map .call)).completeStep
        (Sample.altered 1) completion (.at 1)).1 = .ok run' →
          completion.AllowedBy record (Sample.step "only" 1 false).policy := by
  obtain ⟨run, record, lease, found, steps, foundStep, leased, rfl, attempts, unused⟩ :=
    Sample.claimedSingle_records
  rw [← store_after_calls] at found
  refine ⟨run, record, found, foundStep, ?_⟩
  refine (stored_policy_enforced_iff (Sample.claimedSingle.map .call) (Sample.altered 1) (.at 1)
    run record _ (Sample.step "only" 1 false) found (by rw [steps]; exact List.mem_cons_self) rfl
    foundStep leased (by decide)).mpr
      ⟨attempts.symm, fun below => ?_, fun _ => nofun, fun _ => .inr rfl⟩
  exact absurd below (by decide)

/-- A claim that comes back with a higher limit has its retry committed, and the step waits
for an attempt beyond its limit. -/
theorem altered_limit_committed :
    ((repository.after Sample.claimedSingle).completeStep (Sample.altered 9)
        (.retrying Sample.runId ⟨"only"⟩ 1 "busy") (.at 1)).1.isOk = true ∧
      ∃ record, (repository.after Sample.claimedSingle).record Sample.runId ⟨"only"⟩ =
          some record ∧
        ¬ (StepCompletion.retrying Sample.runId ⟨"only"⟩ 1 "busy").AllowedBy record
          (Sample.step "only" 1 false).policy := by
  obtain ⟨run, record, lease, found, -, foundStep, -, -, attempts, -⟩ :=
    Sample.claimedSingle_records
  refine ⟨by decide +kernel, record, Repository.record_eq_some.mpr ⟨run, found, foundStep⟩, ?_⟩
  intro allowed
  have below := allowed.retrying _ _ _ _ rfl
  rw [attempts] at below
  exact absurd below (by decide)

end Orchestrator
