import Orchestrator.Repository.History

/-!
# Runs that have ended

A run ends by `finish_run` or by `cancel_run`. `cancel_run` looks at the old
status of the run and `finish_run` does not: it computes a status from the step
records and the supplied metrics each time. `FinishKeeps` says of a finish
request that this computation changes nothing for a run that has ended.
-/

namespace Orchestrator

namespace RunRecord

/-- The number of `RunFinished` events in the log. -/
def ends (run : RunRecord) : Nat :=
  run.eventLog.countP fun envelope => envelope.event.isRunFinished

/-- The metrics pass the manifest's gates, as the decisions collected by metric
name have it. -/
def passes (run : RunRecord) (metrics : List Metric) : Bool :=
  BTreeMap.allValues (evaluateGates run.manifest.evaluationGates metrics) GateDecision.passed

/-- The finish request does not change how the run has ended: the run is still
active, its steps are not settled, it failed and a step failed or the metrics do
not pass, or it succeeded and the metrics pass. -/
def FinishKeeps (run : RunRecord) (metrics : List Metric) : Prop :=
  run.status.isTerminal = false ∨ run.settled = false ∨
    (run.status = .failed ∧ (run.hasFailed = true ∨ run.passes metrics = false)) ∨
    (run.status = .succeeded ∧ run.passes metrics = true)

theorem ends_logged (run : RunRecord) (event : ExecutionEvent) (sequence now : UInt64) :
    (run.logged event sequence now).ends = run.ends + if event.isRunFinished then 1 else 0 := by
  rw [ends, logged_eventLog, List.countP_append, List.countP_singleton]
  rfl

end RunRecord

/-- How one step changes the status of a run and the ends in its log. -/
inductive StatusStep (run run' : RunRecord) : RunAction → Prop where
  | kept {action : RunAction} (status : run'.status = run.status) (ends : run'.ends = run.ends) :
      StatusStep run run' action
  | recorded {event : ExecutionEvent} (ended : run.status.isTerminal = true)
      (first : run.ends = 0) (status : run'.status = run.status) (ends : run'.ends = 1) :
      StatusStep run run' (.record event)
  | finished (metrics : List Metric) (settled : run.settled = true)
      (status : run'.status = (run.setMetrics metrics).verdict)
      (changed : run'.status ≠ run.status) (ends : run'.ends = run.ends + 1) :
      StatusStep run run' (.finish metrics)
  | cancelled (active : run.status.isTerminal = false) (status : run'.status = .cancelled)
      (ends : run'.ends = run.ends + 1) : StatusStep run run' .cancel

theorem RunStep.statusStep {token : UInt64} {action : RunAction} {run run' : RunRecord}
    (h : RunStep token action run run') : StatusStep run run' action := by
  cases h with
  | claim => exact .kept rfl rfl
  | renew => exact .kept rfl rfl
  | complete claim completion now retryNow finishNow sequence eventNow found leased valid
      accepted =>
      have about := (completionMatchesClaim_iff.mp accepted).stepId?
      refine .kept (by simp) ?_
      rw [RunRecord.ends_logged, ExecutionEvent.isRunFinished_of_stepId? about]
      simp [RunRecord.ends]
  | record event sequence eventNow accepted =>
      cases finished : event.isRunFinished with
      | false =>
          refine .kept rfl ?_
          rw [RunRecord.ends_logged, finished]
          rfl
      | true =>
          obtain ⟨ended, unlogged⟩ := ended_of_runFinished accepted finished
          have first : run.ends = 0 := by simpa [RunRecord.ends] using unlogged
          refine .recorded ended first rfl ?_
          rw [RunRecord.ends_logged, finished, first]
          rfl
  | measure => exact .kept rfl rfl
  | settle metrics settled same => exact .kept (by simpa using same) (by simp [RunRecord.ends])
  | finish metrics sequence eventNow settled changed =>
      refine .finished metrics settled (by simp) (by simpa using changed) ?_
      rw [RunRecord.ends_logged]
      simp [RunRecord.ends, ExecutionEvent.isRunFinished]
  | cancel now sequence eventNow active =>
      refine .cancelled active rfl ?_
      rw [RunRecord.ends_logged]
      simp [RunRecord.ends, ExecutionEvent.isRunFinished]
  | recover now sequence eventNow listed found expired =>
      have about := (recoverExpiredStep_eq_some expired).2.stepId?
      refine .kept (by simp) ?_
      rw [RunRecord.ends_logged, ExecutionEvent.isRunFinished_of_stepId? about]
      simp [RunRecord.ends]

/-- A finish request on settled steps computes the status anew. -/
theorem RunStep.finish_status {token : UInt64} {metrics : List Metric} {run run' : RunRecord}
    (h : RunStep token (.finish metrics) run run') (settled : run.settled = true) :
    run'.status = (run.setMetrics metrics).verdict := by
  cases h with
  | measure _ unsettled => rw [unsettled] at settled; cases settled
  | settle => simp
  | finish => simp

theorem RunStep.finish_steps {token : UInt64} {metrics : List Metric} {run run' : RunRecord}
    (h : RunStep token (.finish metrics) run run') : run'.steps = run.steps := by
  cases h <;> simp

/-- No step of the run holds a lease. -/
def RunRecord.Unleased (run : RunRecord) : Prop :=
  ∀ (id : StepId) (record : StepRecord), run.steps[id]? = some record → record.lease = none

/-- An ended run without leases keeps its step records. -/
theorem RunStep.record_kept {token : UInt64} {action : RunAction} {run run' : RunRecord}
    (h : RunStep token action run run') (ended : run.status.isTerminal = true)
    (unleased : run.Unleased) {id : StepId} {record : StepRecord}
    (found : run'.steps[id]? = some record) : run.steps[id]? = some record := by
  obtain old | changed := h.record_cases found
  · exact old
  · cases changed with
    | claim _ _ _ _ running => rw [running] at ended; cases ended
    | renew _ _ _ _ before leased => rw [unleased _ _ before] at leased; cases leased
    | complete _ _ _ _ _ before leased => rw [unleased _ _ before] at leased; cases leased
    | cancel _ _ _ active => rw [active] at ended; cases ended
    | recover _ _ before expired =>
        rw [recoverExpiredStep_eq_none (unleased _ _ before)] at expired
        cases expired

/-- What the status of a stored run says about its log and its step records. -/
structure RunRecord.Phased (run : RunRecord) : Prop where
  phase : run.status = .running ∨ run.status.isTerminal = true
  unended : run.status = .running → run.ends = 0
  uncancelled : run.status = .running → ∀ (id : StepId) (record : StepRecord),
    run.steps[id]? = some record → record.status ≠ .cancelled
  cancelled : run.status = .cancelled → run.Unleased
  succeeded : run.status = .succeeded → ∀ (id : StepId) (record : StepRecord),
    run.steps[id]? = some record → record.status = .succeeded

/-- A cancelled record holds no lease. -/
theorem StepRecord.Sound.cancel_lease {workflow : WorkflowSpec} {manifest : RunManifest}
    {id : StepId} {record : StepRecord} (sound : record.Sound workflow manifest id)
    (now : UInt64) : (record.cancel now).lease = none := by
  unfold StepRecord.cancel
  split
  next settled =>
    cases leased : record.lease with
    | none => rfl
    | some lease =>
        have running := sound.leased.mp (by rw [leased]; rfl)
        simp [running] at settled
  · rfl

namespace RunRecord

theorem hasFailed_iff {run : RunRecord} :
    run.hasFailed = true ↔ ∃ (id : StepId) (record : StepRecord),
      run.steps[id]? = some record ∧ record.status = .failed := by
  simp only [hasFailed, BTreeMap.anyValue_iff, beq_iff_eq]

theorem allSucceeded_iff {run : RunRecord} :
    run.allSucceeded = true ↔ run.steps.size = run.workflow.steps.length ∧
      ∀ (id : StepId) (record : StepRecord),
        run.steps[id]? = some record → record.status = .succeeded := by
  simp only [allSucceeded, Bool.and_eq_true, BTreeMap.allValues_iff, beq_iff_eq]

theorem verdict_setMetrics (run : RunRecord) (metrics : List Metric) :
    (run.setMetrics metrics).verdict =
      if run.hasFailed then .failed else if run.passes metrics then .succeeded else .failed := rfl

/-- A run whose settled steps let it succeed has no other step records. -/
theorem succeeded_of_verdict {run : RunRecord} {metrics : List Metric}
    (settled : run.settled = true) (verdict : (run.setMetrics metrics).verdict = .succeeded)
    (id : StepId) (record : StepRecord) (found : run.steps[id]? = some record) :
    record.status = .succeeded := by
  have unfailed : run.hasFailed = false := by
    cases failed : run.hasFailed with
    | false => rfl
    | true => rw [verdict_setMetrics, failed] at verdict; cases verdict
  rw [RunRecord.settled, unfailed, Bool.false_or] at settled
  exact (allSucceeded_iff.mp settled).2 id record found

namespace Phased

variable {token : UInt64} {action : RunAction} {run run' : RunRecord}

theorem created (request : RunRequest) (now sequence eventNow : UInt64) :
    (RunRecord.created request now sequence eventNow).Phased := by
  refine ⟨.inl rfl, fun _ => rfl, ?_, ?_, ?_⟩
  · intro _ id record found
    simp [RunRecord.created, RunRecord.new] at found
  · intro _ id record found
    simp [RunRecord.created, RunRecord.new] at found
  · intro _ id record found
    simp [RunRecord.created, RunRecord.new] at found

/-- A run that succeeded or was cancelled holds no lease. -/
theorem unleased (phased : run.Phased) (sound : run.Sound)
    (ended : run.status = .succeeded ∨ run.status = .cancelled) : run.Unleased := by
  obtain succeeded | cancelled := ended
  · intro id record found
    have status := phased.succeeded succeeded id record found
    have leased := (sound.records id record found).leased
    rw [status] at leased
    simpa using leased
  · exact phased.cancelled cancelled

theorem step_phase (h : RunStep token action run run') (phased : run.Phased) :
    run'.status = .running ∨ run'.status.isTerminal = true := by
  cases h.statusStep with
  | kept status => rw [status]; exact phased.phase
  | recorded _ _ status => rw [status]; exact phased.phase
  | finished metrics _ status => rw [status]; exact .inr (verdict_isTerminal _)
  | cancelled _ status => rw [status]; exact .inr rfl

/-- An active run was active before, and its log gained no end. -/
theorem active_before (h : RunStep token action run run') (active : run'.status = .running) :
    run.status = .running ∧ run'.ends = run.ends := by
  cases h.statusStep with
  | kept status ends => exact ⟨status ▸ active, ends⟩
  | recorded ended _ status => rw [← status, active] at ended; cases ended
  | finished metrics _ status =>
      have ended := verdict_isTerminal (run.setMetrics metrics)
      rw [← status, active] at ended
      cases ended
  | cancelled _ status => rw [active] at status; cases status

theorem step_uncancelled (h : RunStep token action run run') (phased : run.Phased)
    (active : run'.status = .running) (id : StepId) (record' : StepRecord)
    (found : run'.steps[id]? = some record') : record'.status ≠ .cancelled := by
  have before := phased.uncancelled (active_before h active).1
  obtain old | changed := h.record_cases found
  · exact before id record' old
  · cases changed with
    | claim => simp [RunRecord.claimed, StepRecord.claim]
    | renew _ _ _ _ old =>
        have status := before _ _ old
        exact status
    | complete _ _ _ _ _ _ _ _ accepted =>
        cases completionMatchesClaim_iff.mp accepted <;> simp [StepRecord.complete,
          StepCompletion.retrying, StepCompletion.fallback, StepCompletion.succeeded,
          StepCompletion.failed]
    | cancel =>
        cases h
        simp at active
    | recover _ _ _ expired =>
        cases (recoverExpiredStep_eq_some expired).2 <;> simp [StepRecord.released]

theorem step_cancelled (h : RunStep token action run run') (sound : run.Sound)
    (phased : run.Phased) (cancelled : run'.status = .cancelled) : run'.Unleased := by
  have kept : run.status = .cancelled → run'.Unleased := fun before id record found =>
    phased.cancelled before id record
      (h.record_kept (by rw [before]; rfl) (phased.cancelled before) found)
  cases h.statusStep with
  | kept status => exact kept (status ▸ cancelled)
  | recorded _ _ status => exact kept (status ▸ cancelled)
  | finished metrics _ status =>
      rw [status] at cancelled
      exact absurd cancelled (verdict_ne_cancelled _)
  | cancelled =>
      cases h
      intro id record' found
      simp only [logged_steps, cancelSteps_steps, Std.ExtTreeMap.getElem?_map,
        Option.map_eq_some_iff] at found
      obtain ⟨record, before, rfl⟩ := found
      exact (sound.records id record before).cancel_lease _

theorem step_succeeded (h : RunStep token action run run') (sound : run.Sound)
    (phased : run.Phased) (succeeded : run'.status = .succeeded) (id : StepId)
    (record : StepRecord) (found : run'.steps[id]? = some record) :
    record.status = .succeeded := by
  have kept : run.status = .succeeded → record.status = .succeeded := fun before =>
    phased.succeeded before id record
      (h.record_kept (by rw [before]; rfl) (phased.unleased sound (.inl before)) found)
  cases h.statusStep with
  | kept status => exact kept (status ▸ succeeded)
  | recorded _ _ status => exact kept (status ▸ succeeded)
  | finished metrics settled status =>
      rw [h.finish_steps] at found
      exact succeeded_of_verdict settled (status ▸ succeeded) id record found
  | cancelled _ status => rw [status] at succeeded; cases succeeded

theorem step (h : RunStep token action run run') (sound : run.Sound) (phased : run.Phased) :
    run'.Phased where
  phase := step_phase h phased
  unended active := by
    obtain ⟨before, ends⟩ := active_before h active
    rw [ends, phased.unended before]
  uncancelled := step_uncancelled h phased
  cancelled := step_cancelled h sound phased
  succeeded := step_succeeded h sound phased

end Phased

/-- A finish request keeps an ended run exactly when it computes the same status. -/
theorem finishKeeps_iff {run : RunRecord} {metrics : List Metric} (phased : run.Phased) :
    run.FinishKeeps metrics ↔ (run.status.isTerminal = true → run.settled = true →
      (run.setMetrics metrics).verdict = run.status) := by
  rw [verdict_setMetrics, FinishKeeps]
  cases ended : run.status.isTerminal with
  | false => simp
  | true =>
      cases settled : run.settled with
      | false => simp
      | true =>
          cases status : run.status with
          | succeeded =>
              have unfailed : run.hasFailed = false := by
                rw [Bool.eq_false_iff, Ne, hasFailed_iff]
                rintro ⟨id, record, found, failed⟩
                rw [phased.succeeded status id record found] at failed
                cases failed
              cases run.passes metrics <;> simp [unfailed]
          | failed => cases run.hasFailed <;> cases run.passes metrics <;> simp
          | cancelled => cases run.hasFailed <;> cases run.passes metrics <;> simp
          | pending => rw [status] at ended; cases ended
          | running => rw [status] at ended; cases ended
          | paused => rw [status] at ended; cases ended
          | cancelRequested => rw [status] at ended; cases ended

end RunRecord

/-- Every stored run is in a phase that its log and records agree with. -/
theorem phased_after (ops : List Op) : (repository.after ops).Every RunRecord.Phased :=
  run_invariant (A := fun _ _ => True) (fun request now sequence eventNow _ =>
    .created request now sequence eventNow) (fun h sound _ phased => .step h sound phased)
    (fun _ _ => trivial) ops (guarded_true ops)

/-- No call of the history changes the status of a run that has ended. -/
def TerminalAbsorbing (ops : List Op) : Prop :=
  ∀ (pre later : List Op), pre ++ later <+: ops → ∀ (k : RunId) (run : RunRecord),
    (repository.after pre).runs[k]? = some run → run.status.isTerminal = true →
      ∃ run', (repository.after (pre ++ later)).runs[k]? = some run' ∧ run'.status = run.status

/-- At every moment of the history each log has at most one end. -/
def EndsOnce (ops : List Op) : Prop :=
  ∀ (pre : List Op), pre <+: ops → ∀ (k : RunId) (run : RunRecord),
    (repository.after pre).runs[k]? = some run → run.ends ≤ 1

/-- Every finish request of the history keeps how its run has ended. -/
def FinishesKeep (ops : List Op) : Prop :=
  ∀ (pre : List Op) (runId : RunId) (metrics : List Metric) (clock : Clock) (run : RunRecord),
    pre ++ [.finishRun runId metrics clock] <+: ops →
      (repository.after pre).runs[runId]? = some run → run.FinishKeeps metrics

/-- The guard on changes that `FinishesKeep` is. -/
def RunAction.Keeps (action : RunAction) (run : RunRecord) : Prop :=
  ∀ metrics, action = .finish metrics → run.FinishKeeps metrics

theorem FinishesKeep.guarded {ops : List Op} (h : FinishesKeep ops) :
    Guarded (fun _ => RunAction.Keeps) ops := by
  rintro pre op k _ run run' within performs move metrics rfl
  cases op with
  | finishRun runId supplied clock =>
      obtain ⟨rfl, rfl⟩ := performs
      exact h pre runId supplied clock run within move.found
  | _ => cases performs

/-- A guarded step keeps the status of an ended run. -/
theorem RunStep.status_kept {token : UInt64} {action : RunAction} {run run' : RunRecord}
    (h : RunStep token action run run') (keeps : action.Keeps run) (phased : run.Phased)
    (ended : run.status.isTerminal = true) : run'.status = run.status := by
  cases h.statusStep with
  | kept status => exact status
  | recorded _ _ status => exact status
  | finished metrics settled status =>
      rw [status]
      exact (RunRecord.finishKeeps_iff phased).mp (keeps metrics rfl) ended settled
  | cancelled active => rw [active] at ended; cases ended

/-- A guarded step logs an end only for a run that has none. -/
theorem RunStep.ends_le {token : UInt64} {action : RunAction} {run run' : RunRecord}
    (h : RunStep token action run run') (keeps : action.Keeps run) (phased : run.Phased)
    (once : run.ends ≤ 1) : run'.ends ≤ 1 := by
  have unended : run.status.isTerminal = false → run.ends = 0 := by
    intro active
    obtain running | ended := phased.phase
    · exact phased.unended running
    · rw [active] at ended
      cases ended
  cases h.statusStep with
  | kept _ ends => rwa [ends]
  | recorded _ _ _ ends => exact Nat.le_of_eq ends
  | finished metrics settled status changed ends =>
      cases ended : run.status.isTerminal with
      | false => exact Nat.le_of_eq (by rw [ends, unended ended])
      | true => exact absurd (h.status_kept keeps phased ended) changed
  | cancelled active _ ends => exact Nat.le_of_eq (by rw [ends, unended active])

/-- Ended runs keep their status and their single end exactly in the histories
whose finish requests all keep how their run has ended. -/
theorem terminal_absorbing_iff (ops : List Op) :
    TerminalAbsorbing ops ∧ EndsOnce ops ↔ FinishesKeep ops := by
  constructor
  · rintro ⟨absorbing, -⟩ pre runId metrics clock run within found
    refine (RunRecord.finishKeeps_iff (phased_after pre runId run found)).mpr ?_
    intro ended settled
    obtain ⟨run', found', status⟩ := absorbing pre _ within runId run found ended
    obtain ⟨final, s', finished, move⟩ := Repository.finishRun_of_some _
      (Repository.keyed_after pre) metrics clock found
    have state : repository.after (pre ++ [.finishRun runId metrics clock]) = s' := by
      rw [Machine.after_concat]
      exact congrArg Prod.snd finished
    rw [state, move.runs, if_pos rfl] at found'
    obtain rfl := Option.some.inj found'
    rw [← move.step.finish_status settled, status]
  · intro keep
    constructor
    · intro pre later within k run found ended
      have guarded : FinishesKeep (pre ++ later) :=
        fun pre' runId metrics clock run inner => keep pre' runId metrics clock run
          (inner.trans within)
      obtain ⟨run', found', related⟩ := related_later
        (R := fun run run' => run.Phased →
          run'.Phased ∧ (run.status.isTerminal = true → run'.status = run.status))
        (fun run phased => ⟨phased, fun _ => rfl⟩)
        (fun ab bc phased => by
          obtain ⟨phased, first⟩ := ab phased
          obtain ⟨phased, second⟩ := bc phased
          exact ⟨phased, fun ended => by rw [second (by rwa [first ended]), first ended]⟩)
        (fun h sound keeps phased => ⟨.step h sound phased, h.status_kept keeps phased⟩)
        (fun _ _ _ h => by cases h) pre later guarded.guarded found
      exact ⟨run', found', (related (phased_after pre k run found)).2 ended⟩
    · intro pre within
      have guarded : FinishesKeep pre :=
        fun pre' runId metrics clock run inner => keep pre' runId metrics clock run
          (inner.trans within)
      have all := run_invariant (P := fun run => run.Phased ∧ run.ends ≤ 1)
        (fun request now sequence eventNow _ =>
          ⟨.created request now sequence eventNow, Nat.zero_le 1⟩)
        (fun h sound keeps ⟨phased, once⟩ => ⟨.step h sound phased, h.ends_le keeps phased once⟩)
        (fun _ _ _ h => by cases h) pre guarded.guarded
      exact fun k run found => (all k run found).2

/-- A run whose only step failed is cancelled and then finished. -/
def cancelledThenFinished : List Op :=
  [.createRun (Sample.request [Sample.step "only" 1 false] []) (.at 0), Sample.ask 0,
    Sample.fail (Sample.step "only" 1 false) 1 0, .cancelRun Sample.runId (.at 1),
    .finishRun Sample.runId [] (.at 2)]

/-- The finish request turns the cancelled run into a failed one and logs a second end. -/
theorem cancelled_run_fails :
    ¬ TerminalAbsorbing cancelledThenFinished ∧ ¬ EndsOnce cancelledThenFinished := by
  have before : ((repository.after (cancelledThenFinished.take 4)).runs[Sample.runId]?).map
      RunRecord.status = some .cancelled := by
    decide +kernel
  have after : ((repository.after cancelledThenFinished).runs[Sample.runId]?).map
      (fun run => (run.status, run.ends)) = some (.failed, 2) := by
    decide +kernel
  obtain ⟨run, found, cancelled⟩ := Option.map_eq_some_iff.mp before
  obtain ⟨run', found', fields⟩ := Option.map_eq_some_iff.mp after
  obtain ⟨failed, ends⟩ := Prod.mk.inj fields
  constructor
  · intro absorbing
    obtain ⟨final, foundFinal, status⟩ := absorbing (cancelledThenFinished.take 4)
      (cancelledThenFinished.drop 4) ⟨[], by rw [List.append_nil, List.take_append_drop]⟩
      Sample.runId run found (by rw [cancelled]; rfl)
    rw [List.take_append_drop, found'] at foundFinal
    obtain rfl := Option.some.inj foundFinal
    rw [failed, cancelled] at status
    cases status
  · intro once
    have bound := once cancelledThenFinished List.prefix_rfl Sample.runId run' found'
    omega

end Orchestrator
