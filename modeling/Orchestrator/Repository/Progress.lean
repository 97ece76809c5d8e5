import Orchestrator.Repository.Saturation

/-!
# Runs that can go on

An active run without a failed step always has a step to do. Among its steps that
have not succeeded one has all its dependencies done, since the workflow has an
order; its record is leased, waits for a retry, or lets it be claimed, since a
record that awaits a retry has an attempt left.
-/

namespace Orchestrator

/-- The worker may execute every task of the manifest under every step's policy. -/
def SupportsAll (worker : WorkerProfile) (run : RunRecord) : Prop :=
  ∀ step ∈ run.workflow.steps, ∀ (id : TaskId) (task : TaskSpec),
    run.manifest.tasks[id]? = some task → worker.supportsTask task step.policy = true

/-- The step of the run has succeeded. -/
def RunRecord.Done (run : RunRecord) (id : StepId) : Prop :=
  ∃ record, run.steps[id]? = some record ∧ record.status = .succeeded

/-- A step of the run holds a lease, or waits for its next attempt as the worker's
clock reads it, or is handed to the worker. -/
inductive GoesOn (s : Repository) (k : RunId) (run : RunRecord) (worker : WorkerProfile)
    (leaseMs : UInt64) (clock : Clock) : Prop where
  | leased {step : StepSpec} {record : StepRecord} {lease : StepLease}
      (listed : step ∈ run.workflow.steps) (found : run.steps[step.id]? = some record)
      (leased : record.lease = some lease)
  | waits {step : StepSpec} {record : StepRecord} {next : UInt64}
      (listed : step ∈ run.workflow.steps) (found : run.steps[step.id]? = some record)
      (retrying : record.status = .retrying) (scheduled : record.nextAttemptAtMs = some next)
      (early : clock.step k step.id < next)
  | claimed {claim : StepClaim}
      (handed : (s.claimNextStep k worker leaseMs clock).1 = .ok (some claim))

/-- No active run without a failed step is stuck before all its steps succeeded,
and no record awaits an attempt that claims refuse. -/
def NoDeadlock (ops : List Op) : Prop :=
  ∀ (k : RunId) (run : RunRecord), (repository.after ops).runs[k]? = some run →
    (run.status = .running → run.hasFailed = false →
      (∃ step ∈ run.workflow.steps, ¬ run.Done step.id) →
      ∀ worker, SupportsAll worker run → ∀ leaseMs clock,
        GoesOn (repository.after ops) k run worker leaseMs clock) ∧
    ∀ step ∈ run.workflow.steps, ∀ record, run.steps[step.id]? = some record →
      record.status = .retrying → record.attempts < step.policy.retry.budget ∨
        record.fallbackUsed = true ∧ record.attempts = step.policy.retry.budget

/-- A record that awaits a retry has an attempt that claims grant. -/
theorem StepRecord.Budgeted.granted {record : StepRecord} {budget : UInt32}
    (h : record.Budgeted budget.toNat)
    (counted : record.attempts.toNat = min record.history.length UInt32.maxNat)
    (retrying : record.status = .retrying) :
    record.attempts < budget ∨ record.fallbackUsed = true ∧ record.attempts = budget := by
  have bound := budget.toNat_le_maxNat
  obtain below | ⟨full, used⟩ := h.waiting retrying
  · left
    rw [UInt32.lt_iff_toNat_lt]
    omega
  · right
    refine ⟨used, UInt32.toNat_inj.mp ?_⟩
    omega

/-- A step whose dependencies are done and that has not ended is leased, waits, or
may be claimed. -/
theorem ready_step {run : RunRecord} (sound : run.Sound) (phased : run.Phased)
    (running : run.status = .running) (unfailed : run.hasFailed = false)
    {worker : WorkerProfile} (supports : SupportsAll worker run) {step : StepSpec}
    (listed : step ∈ run.workflow.steps)
    (granted : ∀ record, run.steps[step.id]? = some record → record.status = .retrying →
      record.attempts < step.policy.retry.budget ∨
        record.fallbackUsed = true ∧ record.attempts = step.policy.retry.budget)
    (undone : ¬ run.Done step.id)
    (ready : ∀ dependency ∈ step.dependsOn, run.Done dependency) (now : UInt64) :
    (∃ record lease, run.steps[step.id]? = some record ∧ record.lease = some lease) ∨
    (∃ record next, run.steps[step.id]? = some record ∧ record.status = .retrying ∧
      record.nextAttemptAtMs = some next ∧ now < next) ∨
    ∃ candidate, claimCandidate run worker now step = some candidate := by
  have dependencies : dependenciesSucceeded run step = true := by
    simp only [dependenciesSucceeded, List.all_eq_true, Option.any_eq_true, beq_iff_eq]
    exact ready
  have chosen : stepAvailable run.steps[step.id]? step now = true →
      ∃ candidate, claimCandidate run worker now step = some candidate := by
    intro available
    have known : ∃ task, run.manifest.tasks[selectedTask run step]? = some task := by
      rw [selectedTask]
      cases found : run.steps[step.id]? with
      | none => exact sound.accepted.tasks step listed
      | some record => exact (sound.records _ _ found).known
    obtain ⟨task, known⟩ := known
    exact ⟨_, Repository.claimCandidate_eq_some.mpr
      ⟨rfl, rfl, rfl, ⟨task, known, supports step listed _ _ known⟩, dependencies, available⟩⟩
  cases found : run.steps[step.id]? with
  | none =>
      rw [found] at chosen
      exact .inr (.inr (chosen rfl))
  | some record =>
      have safe := sound.records _ _ found
      cases status : record.status with
      | pending => exact absurd status safe.started.1
      | claimed => exact absurd status safe.started.2
      | running =>
          obtain ⟨lease, leased⟩ := Option.isSome_iff_exists.mp (safe.leased.mpr status)
          exact .inl ⟨record, lease, rfl, leased⟩
      | succeeded => exact absurd ⟨record, found, status⟩ undone
      | failed =>
          have failed : run.hasFailed = true := RunRecord.hasFailed_iff.mpr
            ⟨_, record, found, status⟩
          rw [failed] at unfailed
          cases unfailed
      | cancelled => exact absurd status (phased.uncancelled running _ record found)
      | retrying =>
          have unleased : record.lease = none := by
            cases leased : record.lease with
            | none => rfl
            | some lease =>
                have other := safe.leased.mp (by rw [leased]; rfl)
                rw [status] at other
                cases other
          have granted := granted record found status
          have waiting : (∃ next, record.nextAttemptAtMs = some next ∧ now < next) ∨
              record.nextAttemptAtMs.all (fun next => decide (next ≤ now)) = true := by
            cases scheduled : record.nextAttemptAtMs with
            | none => exact .inr rfl
            | some next =>
                by_cases early : now < next
                · exact .inl ⟨next, rfl, early⟩
                · exact .inr (by simpa using early)
          obtain ⟨next, scheduled, early⟩ | due := waiting
          · exact .inr (.inl ⟨record, next, rfl, status, scheduled, early⟩)
          · refine .inr (.inr (chosen ?_))
            rw [found]
            simp only [stepAvailable, Option.all_some, unleased, status, due, Option.isNone_none,
              Bool.and_eq_true, Bool.or_eq_true, decide_eq_true_eq, beq_iff_eq, and_true, true_and]
            exact ⟨.inr trivial, granted⟩

/-- Of the steps that may be claimed the first one is. -/
theorem claimed_of_candidate {s : Repository} (keyed : s.Keyed) {k : RunId} {run : RunRecord}
    (found : s.runs[k]? = some run) (running : run.status = .running) {worker : WorkerProfile}
    {clock : Clock} {step : StepSpec} (listed : step ∈ run.workflow.steps) (leaseMs : UInt64)
    {candidate : StepSpec × TaskId × BTreeMap String Json.Value}
    (chosen : claimCandidate run worker (clock.step k step.id) step = some candidate) :
    ∃ claim, (s.claimNextStep k worker leaseMs clock).1 = .ok (some claim) := by
  obtain ⟨⟨first, taskId, dependencies⟩, claimable⟩ := Option.isSome_iff_exists.mp
    (List.findSome?_isSome_iff.mpr ⟨step, listed, Option.isSome_iff_exists.mpr
      ⟨candidate, chosen⟩⟩ :
      (run.workflow.steps.findSome? fun step =>
        claimCandidate run worker (clock.step k step.id) step).isSome = true)
  obtain ⟨examined, -, granted⟩ := List.exists_of_findSome?_eq_some claimable
  obtain ⟨-, rfl, -, ⟨task, known, -⟩, -⟩ := Repository.claimCandidate_eq_some.mp granted
  obtain ⟨-, claim, s', -, -, handed, -⟩ := Repository.claimNextStep_of_candidate _
    keyed leaseMs clock found running claimable known
  exact ⟨claim, congrArg Prod.fst handed⟩

/-- With fewer than 2 ^ 64 claims, completed as issued, a step that waits for a retry has
attempts that a claim grants. -/
theorem granted_after {ops : List Op} (genuine : Genuine ops) (few : (issued ops).length < 2 ^ 64)
    {k : RunId} {run : RunRecord} (found : (repository.after ops).runs[k]? = some run)
    {step : StepSpec} (listed : step ∈ run.workflow.steps) {record : StepRecord}
    (foundStep : run.steps[step.id]? = some record) (retrying : record.status = .retrying) :
    record.attempts < step.policy.retry.budget ∨
      record.fallbackUsed = true ∧ record.attempts = step.policy.retry.budget :=
  have budgeted := (tracked_after genuine).budgeted (Nat.le_of_lt_succ few) k run found
  (budgeted.records step listed record foundStep).granted
    ((sound_after ops k run found).records _ _ foundStep).counted retrying

/-- With fewer than 2 ^ 64 claims, completed as issued, no run is stuck. -/
theorem no_deadlock (ops : List Op) (genuine : Genuine ops) (few : (issued ops).length < 2 ^ 64) :
    NoDeadlock ops := by
  intro k run found
  have sound := sound_after ops k run found
  constructor
  · intro running unfailed unfinished worker supports leaseMs clock
    obtain ⟨step, listed, undone, ready⟩ :=
      WorkflowSpec.exists_ready sound.accepted.valid run.Done unfinished
    obtain ⟨record, lease, foundStep, leased⟩ | ⟨record, next, foundStep, retrying, next, early⟩ |
      ⟨candidate, chosen⟩ := ready_step sound (phased_after ops k run found) running unfailed
        supports listed
        (fun record foundStep => granted_after genuine few found listed foundStep) undone ready
        (clock.step k step.id)
    · exact .leased listed foundStep leased
    · exact .waits listed foundStep retrying next early
    · obtain ⟨claim, handed⟩ := claimed_of_candidate (Repository.keyed_after ops) found running
        listed
        leaseMs chosen
      exact .claimed handed
  · intro step listed record foundStep retrying
    exact granted_after genuine few found listed foundStep retrying

theorem no_deadlock_fallenBack :
    Genuine fallenBack ∧ (issued fallenBack).length < 2 ^ 64 ∧ NoDeadlock fallenBack :=
  have genuine : Genuine fallenBack := .of_plain (by simp [fallenBack, Sample.ask])
  have few : (issued fallenBack).length < 2 ^ 64 := by decide +kernel
  ⟨genuine, few, no_deadlock fallenBack genuine few⟩

/-- A claim is handed out for a step that may be leased. -/
theorem available_of_claimed {s : Repository} (keyed : s.Keyed) {k : RunId} {run : RunRecord}
    {worker : WorkerProfile} {leaseMs : UInt64} {clock : Clock} {claim : StepClaim}
    (found : s.runs[k]? = some run)
    (handed : (s.claimNextStep k worker leaseMs clock).1 = .ok (some claim)) :
    ∃ step ∈ run.workflow.steps, ∃ now, stepAvailable run.steps[step.id]? step now = true := by
  have effect := Repository.claimNextStep_effect s keyed k worker leaseMs clock
  rw [handed] at effect
  generalize (s.claimNextStep k worker leaseMs clock).2 = s' at effect
  cases effect with
  | unchanged quiet => cases quiet
  | claim move =>
      obtain rfl := Option.some.inj (move.found.symm.trans found)
      cases move.step with
      | claim worker seen now leaseMs running listed candidate known =>
          obtain ⟨-, -, -, -, -, available⟩ := Repository.claimCandidate_eq_some.mp candidate
          exact ⟨_, listed, seen, available⟩

/-- Once the tokens are used up an active run can be stuck: its only step awaits an
attempt that no claim grants. -/
theorem overrun_stuck {n : Nat} (full : 2 ^ 64 - 2 ≤ n) :
    Genuine (Sample.overrun n) ∧ ¬ NoDeadlock (Sample.overrun n) := by
  obtain ⟨genuine, run, record, found, running, steps, foundStep, status, attempts, used, unleased,
    unscheduled, -⟩ := overrun_after full
  refine ⟨genuine, fun free => ?_⟩
  have only : ∀ {step}, step ∈ run.workflow.steps → step = Sample.step "only" 1 true := by
    intro step listed
    rw [steps] at listed
    exact List.mem_singleton.mp listed
  have held : ∀ {step other}, step ∈ run.workflow.steps → run.steps[step.id]? = some other →
      other = record := by
    intro step other listed foundOther
    rw [only listed] at foundOther
    exact Option.some.inj (foundOther.symm.trans foundStep)
  have unfailed : run.hasFailed = false := by
    rw [Bool.eq_false_iff, Ne, RunRecord.hasFailed_iff]
    rintro ⟨id, other, foundOther, failed⟩
    obtain ⟨step, listed, rfl⟩ := ((sound_after _ _ _ found).records id other foundOther).listed
    rw [held listed foundOther, status] at failed
    cases failed
  have listed : Sample.step "only" 1 true ∈ run.workflow.steps := by
    rw [steps]
    exact List.mem_singleton_self _
  have undone : ¬ run.Done (Sample.step "only" 1 true).id := by
    rintro ⟨other, foundOther, succeeded⟩
    rw [held listed foundOther, status] at succeeded
    cases succeeded
  have supports : SupportsAll Sample.worker run := by
    intro step member id task known
    rw [only member]
    rfl
  cases (free _ run found).1 running unfailed ⟨_, listed, undone⟩ Sample.worker supports 10 (.at 4) with
  | leased member foundOther leased =>
      rw [held member foundOther, unleased] at leased
      cases leased
  | waits member foundOther retrying scheduled =>
      rw [held member foundOther, unscheduled] at scheduled
      cases scheduled
  | claimed handed =>
      obtain ⟨step, member, now, available⟩ :=
        available_of_claimed (Repository.keyed_after _) found handed
      rw [only member] at available
      change stepAvailable run.steps[(⟨"only"⟩ : StepId)]? _ _ = true at available
      rw [foundStep] at available
      have budget : (Sample.step "only" 1 true).policy.retry.budget = 1 := by decide
      simp only [stepAvailable, Option.all_some, attempts, budget, Bool.and_eq_true] at available
      exact absurd available.2 (by simp)

/-- A history of 2 ^ 64 claims leaves a run stuck. -/
theorem retrying_step_stranded :
    Genuine (Sample.overrun (2 ^ 64 - 2)) ∧ ¬ NoDeadlock (Sample.overrun (2 ^ 64 - 2)) :=
  overrun_stuck (Nat.le_refl _)

end Orchestrator
