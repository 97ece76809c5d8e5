import Orchestrator.Repository.Lease

/-!
# Work on runs that have ended

Completing, renewing and recovering a step look at its lease and not at the
status of its run. They leave an ended run alone as long as it holds no lease,
which cancellation ensures and `finish_run` does not: a failed step ends the run
while other steps may still be leased. `FinishSeals` excludes that.
-/

namespace Orchestrator

/-- The finish request does not end an active run while one of its steps failed
and another still holds a lease. -/
def RunRecord.FinishSeals (run : RunRecord) : Prop :=
  run.status = .running → run.hasFailed = true → run.Unleased

/-- Every finish request of the history seals its run. -/
def FinishesSeal (ops : List Op) : Prop :=
  ∀ (pre : List Op) (runId : RunId) (metrics : List Metric) (clock : Clock) (run : RunRecord),
    pre ++ [.finishRun runId metrics clock] <+: ops →
      (repository.after pre).runs[runId]? = some run → run.FinishSeals

/-- No claim of an ended run can be renewed or completed, and recovery leaves the
run's steps alone. -/
def NoLateWork (ops : List Op) : Prop :=
  ∀ (pre : List Op), pre <+: ops → ∀ (k : RunId) (run : RunRecord),
    (repository.after pre).runs[k]? = some run → run.status.isTerminal = true →
      (∀ claim ∈ issued pre, claim.runId = k → ∀ (leaseMs : UInt64) (completion : StepCompletion)
        (clock : Clock), ((repository.after pre).renewStep claim leaseMs clock).1 ≠ .ok () ∧
          ∀ done, ((repository.after pre).completeStep claim completion clock).1 ≠ .ok done) ∧
      ∀ clock, ∃ run', ((repository.after pre).recoverExpired clock).2.runs[k]? = some run' ∧
        run'.steps = run.steps

/-- No log has an event of a step after the end of its run. -/
def NoLateEvents (ops : List Op) : Prop :=
  ∀ (pre : List Op), pre <+: ops → ∀ (k : RunId) (run : RunRecord),
    (repository.after pre).runs[k]? = some run →
      run.eventLog.Pairwise fun earlier later =>
        earlier.event.isRunFinished = true → later.event.stepId? = none

/-- A step extends the log by at most one event, and by an event of a step only
for an active run or one that holds a lease. -/
theorem RunStep.log_cases {token : UInt64} {action : RunAction} {run run' : RunRecord}
    (h : RunStep token action run run') :
    run'.eventLog = run.eventLog ∨
      ∃ envelope, run'.eventLog = run.eventLog ++ [envelope] ∧
        (envelope.event.stepId? = none ∨ run.status = .running ∨ ¬ run.Unleased) := by
  have leasing : ∀ {id : StepId} {record : StepRecord} {lease : StepLease},
      run.steps[id]? = some record → record.lease = some lease → ¬ run.Unleased := by
    intro id record lease found leased unleased
    rw [unleased id record found] at leased
    cases leased
  cases h with
  | claim => exact .inl rfl
  | renew => exact .inl rfl
  | measure => exact .inl rfl
  | settle => exact .inl (by simp)
  | complete claim completion now retryNow finishNow sequence eventNow found leased =>
      exact .inr ⟨_, by rw [RunRecord.logged_eventLog, RunRecord.commit_eventLog],
        .inr (.inr (leasing found leased))⟩
  | record event sequence eventNow accepted =>
      refine .inr ⟨_, RunRecord.logged_eventLog _ _ _ _, ?_⟩
      cases about : event.stepId? with
      | none => exact .inl about
      | some id => exact .inr (.inl (status_of_stepEvent accepted about))
  | finish => exact .inr ⟨_, by rw [RunRecord.logged_eventLog, RunRecord.settle_eventLog]; rfl,
      .inl rfl⟩
  | cancel => exact .inr ⟨_, by rw [RunRecord.logged_eventLog]; rfl, .inl rfl⟩
  | recover now sequence eventNow listed found expired =>
      obtain ⟨⟨lease, leased, -⟩, -⟩ := recoverExpiredStep_eq_some expired
      exact .inr ⟨_, by rw [RunRecord.logged_eventLog, RunRecord.noteRecovery_eventLog]; rfl,
        .inr (.inr (leasing found leased))⟩

/-- A run whose end came when it held no lease. -/
structure RunRecord.Quiet (run : RunRecord) : Prop where
  phased : run.Phased
  unleased : run.status.isTerminal = true → run.Unleased
  log : run.eventLog.Pairwise fun earlier later =>
    earlier.event.isRunFinished = true → later.event.stepId? = none

/-- The guard on changes that `FinishesSeal` is. -/
def RunAction.Seals (action : RunAction) (run : RunRecord) : Prop :=
  ∀ metrics, action = .finish metrics → run.FinishSeals

theorem FinishesSeal.guarded {ops : List Op} (h : FinishesSeal ops) :
    Guarded (fun _ => RunAction.Seals) ops := by
  rintro pre op k _ run run' within performs move metrics rfl
  cases op with
  | finishRun runId supplied clock =>
      obtain ⟨rfl, rfl⟩ := performs
      exact h pre runId supplied clock run within move.found
  | _ => cases performs

namespace RunRecord.Quiet

variable {token : UInt64} {action : RunAction} {run run' : RunRecord}

/-- Settled steps without a failed one hold no lease. -/
theorem unleased_of_settled (sound : run.Sound) (settled : run.settled = true)
    (unfailed : run.hasFailed = false) : run.Unleased := by
  rw [RunRecord.settled, unfailed, Bool.false_or] at settled
  intro id record found
  have status := (allSucceeded_iff.mp settled).2 id record found
  have leased := (sound.records id record found).leased
  rw [status] at leased
  simpa using leased

theorem step_unleased (h : RunStep token action run run') (sound : run.Sound)
    (seals : action.Seals run) (quiet : run.Quiet) (ended' : run'.status.isTerminal = true) :
    run'.Unleased := by
  have kept : run.status.isTerminal = true → run'.Unleased := fun ended id record found =>
    quiet.unleased ended id record (h.record_kept ended (quiet.unleased ended) found)
  have phased := quiet.phased.step h sound
  cases h.statusStep with
  | kept status => exact kept (status ▸ ended')
  | recorded ended => exact kept ended
  | finished metrics settled status =>
      obtain active | ended := quiet.phased.phase
      · rw [Unleased, h.finish_steps]
        cases failed : run.hasFailed with
        | true => exact seals metrics rfl active failed
        | false => exact unleased_of_settled sound settled failed
      · exact kept ended
  | cancelled _ status => exact phased.cancelled status

theorem step (h : RunStep token action run run') (sound : run.Sound)
    (seals : action.Seals run) (quiet : run.Quiet) : run'.Quiet := by
  refine ⟨quiet.phased.step h sound, step_unleased h sound seals quiet, ?_⟩
  obtain same | ⟨envelope, extended, guard⟩ := h.log_cases
  · rw [same]
    exact quiet.log
  · rw [extended, List.pairwise_append]
    refine ⟨quiet.log, List.pairwise_singleton _ _, ?_⟩
    intro earlier member later new finished
    obtain rfl := List.mem_singleton.mp new
    have active : ¬ run.status = .running := by
      intro active
      have none := List.countP_eq_zero.mp (quiet.phased.unended active) earlier member
      exact none finished
    obtain about | running | leasing := guard
    · exact about
    · exact absurd running active
    · exact absurd (quiet.unleased (quiet.phased.phase.resolve_left active)) leasing

theorem created (request : RunRequest) (now sequence eventNow : UInt64) :
    (RunRecord.created request now sequence eventNow).Quiet :=
  ⟨.created request now sequence eventNow, (fun ended => by cases ended),
    List.pairwise_singleton _ _⟩

end RunRecord.Quiet

/-- With sealing finish requests every stored run is quiet. -/
theorem quiet_after {ops : List Op} (sealing : FinishesSeal ops) :
    (repository.after ops).Every RunRecord.Quiet :=
  run_invariant (fun request now sequence eventNow _ => .created request now sequence eventNow)
    (fun h sound seals quiet => .step h sound seals quiet) (fun _ _ _ h => by cases h) ops
    sealing.guarded

section Unleased

variable {s s' : Repository} {run : RunRecord}

/-- No claim of a run without leases can be renewed. -/
theorem Repository.renewStep_ne_ok {claim : StepClaim} {leaseMs : UInt64} {clock : Clock}
    (found : s.runs[claim.runId]? = some run) (unleased : run.Unleased) :
    (s.renewStep claim leaseMs clock).1 ≠ .ok () := by
  intro renewed
  have effect := renewStep_effect s claim leaseMs clock
  rw [renewed] at effect
  generalize (s.renewStep claim leaseMs clock).2 = s' at effect
  cases effect with
  | unchanged quiet => cases quiet
  | renew move =>
      obtain rfl := Option.some.inj (found.symm.trans move.found)
      cases move.step with
      | renew _ _ _ _ foundStep leased =>
          rw [unleased _ _ foundStep] at leased
          cases leased

/-- No claim of a run without leases can be completed. -/
theorem Repository.completeStep_ne_ok (keyed : s.Keyed) {claim : StepClaim}
    {completion : StepCompletion} {clock : Clock} (found : s.runs[claim.runId]? = some run)
    (unleased : run.Unleased) (done : RunRecord) :
    (s.completeStep claim completion clock).1 ≠ .ok done := by
  intro completed
  have effect := completeStep_effect s keyed claim completion clock
  rw [completed] at effect
  generalize (s.completeStep claim completion clock).2 = s' at effect
  cases effect with
  | unchanged quiet => cases quiet
  | complete move =>
      obtain rfl := Option.some.inj (found.symm.trans move.found)
      obtain ⟨⟨record, lease, foundStep, leased, -⟩, -⟩ := move.step.complete_leases
      rw [unleased _ _ foundStep] at leased
      cases leased

/-- There is nothing to recover without a lease. -/
theorem RunStep.recover_leased {token : UInt64} {id : StepId} {run run' : RunRecord}
    (h : RunStep token (.recover id) run run') : ¬ run.Unleased := by
  intro unleased
  cases h with
  | recover now sequence eventNow listed found expired =>
      rw [recoverExpiredStep_eq_none (unleased _ _ found)] at expired
      cases expired

/-- Recovery does not touch a run without leases. -/
theorem Repository.recoverExpired_kept (keyed : s.Keyed) (sound : s.Every RunRecord.Sound)
    (clock : Clock) {k : RunId} (found : s.runs[k]? = some run) (unleased : run.Unleased) :
    (s.recoverExpired clock).2.runs[k]? = some run := by
  have effect := recoverExpired_effect keyed clock
  generalize (s.recoverExpired clock).2 = s' at effect ⊢
  obtain ⟨run', found', same⟩ := effect.related
    (R := fun run run' => run.Unleased → run' = run) sound (fun _ _ => rfl)
    (fun first second unleased => by
      obtain rfl := first unleased
      exact second unleased)
    (fun {k action run run'} performs move sound unleased => by
      cases action with
      | recover id => exact absurd unleased move.step.recover_leased
      | _ => cases performs)
    (fun step sound unleased => absurd unleased step.recover_leased) found
  rw [found', same unleased]

/-- The holder of a live lease can renew it at time zero. -/
theorem Repository.renewStep_ok {claim : StepClaim} {record : StepRecord} {lease : StepLease}
    (leaseMs : UInt64) (found : s.runs[claim.runId]? = some run)
    (foundStep : run.steps[claim.step.id]? = some record) (leased : record.lease = some lease)
    (worker : claim.worker = lease.worker) (token : claim.leaseToken = lease.token)
    (live : 0 < lease.expiresAtMs.toNat) :
    (s.renewStep claim leaseMs (.at 0)).1 = .ok () := by
  have valid : lease.validFor claim ((Clock.at 0).call 0) = true := by
    simp only [StepLease.validFor, worker, token, beq_self_eq_true, Bool.true_and,
      decide_eq_true_eq, Clock.at, UInt64.lt_iff_toNat_lt]
    exact live
  simp [Repository.renewStep, found, foundStep, leased, valid]

end Unleased

/-- Nothing happens to ended runs exactly in the histories whose finish requests
end no run with a failed step while another step is leased. -/
theorem no_late_work_iff (ops : List Op) :
    NoLateWork ops ∧ NoLateEvents ops ↔ FinishesSeal ops := by
  constructor
  · rintro ⟨noLate, -⟩ pre runId metrics clock run within found active failed id record foundStep
    cases leased : record.lease with
    | none => rfl
    | some lease =>
        exfalso
        obtain ⟨claim, member, rfl, rfl, token, worker⟩ :=
          held_after pre runId run id record lease found foundStep leased
        obtain ⟨run', s', finished, move⟩ := Repository.finishRun_of_some _
          (Repository.keyed_after pre) metrics clock found
        have state : repository.after (pre ++ [.finishRun claim.runId metrics clock]) = s' := by
          rw [Machine.after_concat]
          exact congrArg Prod.snd finished
        have settled : run.settled = true := by
          rw [RunRecord.settled, failed, Bool.true_or]
        have found' : s'.runs[claim.runId]? = some run' := by rw [move.runs, if_pos rfl]
        have ended : run'.status.isTerminal = true := by
          rw [move.step.finish_status settled]
          exact RunRecord.verdict_isTerminal _
        have still := (issued_extends (List.prefix_append pre
          [.finishRun claim.runId metrics clock])).subset member
        have live := ((sound_after pre _ _ found).records _ _ foundStep).expires lease leased
        refine ((noLate _ within claim.runId run' (state ▸ found') ended).1 claim still rfl 0
          (.failed claim.runId claim.step.id 0 "") (.at 0)).1 ?_
        rw [state]
        exact Repository.renewStep_ok 0 found' (move.step.finish_steps ▸ foundStep) leased worker
          token live
  · intro sealing
    have quiet : ∀ {pre : List Op}, pre <+: ops → (repository.after pre).Every RunRecord.Quiet :=
      fun within => quiet_after fun pre' runId metrics clock run inner =>
        sealing pre' runId metrics clock run (inner.trans within)
    constructor
    · intro pre within k run found ended
      have unleased := (quiet within k run found).unleased ended
      constructor
      · rintro claim - rfl leaseMs completion clock
        exact ⟨Repository.renewStep_ne_ok found unleased,
          Repository.completeStep_ne_ok (Repository.keyed_after pre) found unleased⟩
      · intro clock
        exact ⟨run, Repository.recoverExpired_kept (Repository.keyed_after pre) (sound_after pre)
          clock found unleased, rfl⟩
    · intro pre within k run found
      exact (quiet within k run found).log

/-- One of two leased steps fails, the run is finished, and the other step completes. -/
def finishedUnderLease : List Op :=
  [.createRun (Sample.request [Sample.step "left" 1 false, Sample.step "right" 1 false] []) (.at 0),
    Sample.ask 0, Sample.ask 0, Sample.fail (Sample.step "left" 1 false) 1 1,
    .finishRun Sample.runId [] (.at 2), Sample.succeed (Sample.step "right" 1 false) 2 3 .null]

/-- The failed run accepts the completion of its other step and logs it after its end. -/
theorem failed_run_accepts_work :
    ¬ NoLateWork finishedUnderLease ∧ ¬ NoLateEvents finishedUnderLease := by
  constructor
  · intro noLate
    have ended : ((repository.after (finishedUnderLease.take 5)).runs[Sample.runId]?).map
        (fun run => run.status.isTerminal) = some true := by
      decide +kernel
    have accepted : ((issued (finishedUnderLease.take 5))[1]?).map (fun claim =>
        (claim.runId == Sample.runId) &&
          ((repository.after (finishedUnderLease.take 5)).completeStep claim
            (.succeeded Sample.runId ⟨"right"⟩ .null 1) (.at 3)).1.isOk) = some true := by
      decide +kernel
    obtain ⟨run, found, terminal⟩ := Option.map_eq_some_iff.mp ended
    obtain ⟨claim, handed, done⟩ := Option.map_eq_some_iff.mp accepted
    rw [Bool.and_eq_true, beq_iff_eq] at done
    obtain ⟨own, done⟩ := done
    have refused := ((noLate _ (List.take_prefix 5 _) Sample.runId run found terminal).1 claim
      (List.mem_of_getElem? handed) own 0 (.succeeded Sample.runId ⟨"right"⟩ .null 1) (.at 3)).2
    cases result : ((repository.after (finishedUnderLease.take 5)).completeStep claim
        (.succeeded Sample.runId ⟨"right"⟩ .null 1) (.at 3)).1 with
    | ok final => exact refused final result
    | error error => simp [result, Except.isOk, Except.toBool] at done
  · intro noLate
    have logged : ((repository.after finishedUnderLease).runs[Sample.runId]?).map (fun run =>
        run.eventLog.map fun envelope =>
          (envelope.event.isRunFinished, envelope.event.stepId?.isSome)) =
        some [(false, false), (false, true), (true, false), (false, true)] := by
      decide +kernel
    obtain ⟨run, found, marks⟩ := Option.map_eq_some_iff.mp logged
    have ordered := noLate _ List.prefix_rfl Sample.runId run found
    have marked : (run.eventLog.map fun envelope =>
        (envelope.event.isRunFinished, envelope.event.stepId?.isSome)).Pairwise
          fun earlier later => earlier.1 = true → later.2 = false := by
      rw [List.pairwise_map]
      exact ordered.imp fun quiet finished => by simp [quiet finished]
    rw [marks] at marked
    exact absurd marked (by decide)

end Orchestrator
