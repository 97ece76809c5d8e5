import Orchestrator.Executor.Cycle
import Orchestrator.Repository.Lease

/-!
# What a worker commits

A claim carries the step and the flags that the worker's completion is built from, and
the run that it was handed out for keeps the manifest that was checked when it was
created. So the repository accepts every completion that the worker builds for its
claim, for as long as the claim holds the lease.
-/

namespace Orchestrator

open Json (Value)

/-- The fallback of a claimed step is in the manifest of its run. -/
theorem RunRecord.Sound.fallback_known {run : RunRecord} (sound : run.Sound) {step : StepSpec}
    (listed : step ∈ run.workflow.steps) :
    ∀ task, step.policy.fallbackTask = some task → run.manifest.tasks.contains task = true := by
  intro task configured
  rw [BTreeMap.contains_iff]
  exact sound.accepted.fallbacks step listed task configured

/-- A completion that an execution of a claim ends with is built from some answer. -/
theorem DurableExecutor.executeClaim_completion {executor : DurableExecutor} {s s' : Repository}
    {claim : StepClaim} {pace : Pace} {completion : StepCompletion}
    (executed : executor.executeClaim s claim pace = (.ok completion, s')) :
    ∃ result, completion = claim.completion result := by
  unfold executeClaim at executed
  split at executed
  · cases executed
  · split at executed
    · cases executed
    · obtain ⟨built, -⟩ := Prod.mk.inj executed
      exact ⟨_, (Except.ok.inj built).symm⟩

/-- A completion that its claim may commit is not refused as invalid; with a live lease
it is committed. -/
theorem Repository.completeStep_of_commits {s : Repository} (keyed : s.Keyed) {claim : StepClaim}
    {completion : StepCompletion} {run : RunRecord} (found : s.runs[claim.runId]? = some run)
    (accepted : completionMatchesClaim completion claim run.manifest = true) (clock : Clock) :
    (s.completeStep claim completion clock).1 ≠
        .error (.invalidCompletion claim.runId claim.step.id) ∧
      ∀ record lease, run.steps[claim.step.id]? = some record → record.lease = some lease →
        lease.validFor claim (clock.call 0) = true →
          ∃ run', (s.completeStep claim completion clock).1 = .ok run' := by
  have commits : ∀ record lease, run.steps[claim.step.id]? = some record →
      record.lease = some lease → lease.validFor claim (clock.call 0) = true →
        ∃ run', (s.completeStep claim completion clock).1 = .ok run' := by
    intro record lease foundStep leased valid
    obtain ⟨_, run', s', -, completed, -⟩ := Repository.completeStep_of_lease s keyed claim
      completion clock found foundStep leased valid accepted
    exact ⟨run', by rw [completed]⟩
  refine ⟨fun refused => ?_, commits⟩
  cases foundStep : run.steps[claim.step.id]? with
  | none =>
      rw [completeStep, found] at refused
      simp only [foundStep] at refused
      cases refused
  | some record =>
      cases valid : record.lease.any fun lease => lease.validFor claim (clock.call 0) with
      | false =>
          rw [completeStep, found] at refused
          simp only [foundStep, valid, Bool.not_false, if_true] at refused
          cases refused
      | true =>
          obtain ⟨lease, leased, live⟩ := (Option.any_eq_true _ _).mp valid
          obtain ⟨run', completed⟩ := commits record lease foundStep leased live
          rw [completed] at refused
          cases refused

/-- Every completion built for a claim that was handed out matches the claim, whatever
the task answered, and is never refused as invalid. -/
theorem worker_completions_match (ops : List Op) (claim : StepClaim)
    (handed : claim ∈ issued ops) :
    ∃ run, (repository.after ops).runs[claim.runId]? = some run ∧
      (∀ result, completionMatchesClaim (claim.completion result) claim run.manifest = true) ∧
      (∀ (executor : DurableExecutor) (s s' : Repository) (pace : Pace)
        (completion : StepCompletion),
        executor.executeClaim s claim pace = (.ok completion, s') →
          completionMatchesClaim completion claim run.manifest = true) ∧
      ∀ (result : Except TaskError Value) (clock : Clock),
        ((repository.after ops).completeStep claim (claim.completion result) clock).1 ≠
            .error (.invalidCompletion claim.runId claim.step.id) ∧
          ∀ record lease, run.steps[claim.step.id]? = some record → record.lease = some lease →
            lease.validFor claim (clock.call 0) = true → ∃ run',
              ((repository.after ops).completeStep claim (claim.completion result) clock).1 =
                .ok run' := by
  obtain ⟨run, found, listed⟩ := listed_after ops claim handed
  have sound := sound_after ops claim.runId run found
  have commits : ∀ result,
      completionMatchesClaim (claim.completion result) claim run.manifest = true :=
    fun result => completionMatchesClaim_iff.mpr
      (claim.completion_commits (sound.fallback_known listed) result)
  refine ⟨run, found, commits, fun executor s s' pace completion executed => ?_,
    fun result clock => ?_⟩
  · obtain ⟨result, rfl⟩ := DurableExecutor.executeClaim_completion executed
    exact commits result
  · exact Repository.completeStep_of_commits (Repository.keyed_after ops) found (commits result)
      clock

/-- The claim of a step with a fallback, after its lease ran out. -/
theorem worker_completions_match_fallenBack : ∃ claim ∈ issued
      [.createRun (Sample.request [Sample.step "only" 1 true] []) (.at 0), Sample.ask 0,
        .recoverExpired (.at 20), Sample.ask 20],
    ∃ run, (repository.after
        [.createRun (Sample.request [Sample.step "only" 1 true] []) (.at 0), Sample.ask 0,
          .recoverExpired (.at 20), Sample.ask 20]).runs[claim.runId]? = some run ∧
      ∀ result, completionMatchesClaim (claim.completion result) claim run.manifest = true := by
  have handed : 1 < (issued [.createRun (Sample.request [Sample.step "only" 1 true] []) (.at 0),
      Sample.ask 0, .recoverExpired (.at 20), Sample.ask 20]).length := by decide +kernel
  obtain ⟨run, found, matching, -⟩ := worker_completions_match _ _ (List.getElem_mem handed)
  exact ⟨_, List.getElem_mem handed, run, found, matching⟩

end Orchestrator
