import Orchestrator.Model.Runtime
import Orchestrator.Repository.LateWork

/-!
# Which gates a successful run has passed

The decisions of a gate list are collected under the metric's name, so the last
gate on a metric decides for all gates on it. `finish_run` and the process-local
executor both let a run succeed on the collected decisions.
-/

namespace Orchestrator

/-- The last gate of the list on the metric. -/
def lastGate (gates : List EvaluationGate) (metric : String) : Option EvaluationGate :=
  (gates.filter fun gate => gate.metric == metric).getLast?

theorem lastGate_concat (gates : List EvaluationGate) (gate : EvaluationGate) (metric : String) :
    lastGate (gates ++ [gate]) metric =
      if gate.metric = metric then some gate else lastGate gates metric := by
  by_cases h : gate.metric = metric
  · simp [lastGate, h]
  · simp [lastGate, h]

/-- The decision stored for a metric is that of its last gate. -/
theorem evaluateGates_getElem? (gates : List EvaluationGate) (metrics : List Metric)
    (metric : String) :
    (evaluateGates gates metrics)[metric]? =
      (lastGate gates metric).map fun gate => gate.evaluate metrics := by
  induction gates using List.reverseRecOn with
  | nil => simp [evaluateGates, lastGate]
  | append_singleton gates gate ih =>
      rw [lastGate_concat, evaluateGates, List.foldl_append]
      change ((evaluateGates gates metrics).insert gate.metric (gate.evaluate metrics))[metric]? = _
      rw [BTreeMap.getElem?_insert, ih]
      split <;> rfl

/-- The gate passes on the metrics. -/
def EvaluationGate.Passes (gate : EvaluationGate) (metrics : List Metric) : Prop :=
  (gate.evaluate metrics).passed = true

/-- The collected decisions all pass when the last gate on each metric does. -/
theorem allPassed_iff (gates : List EvaluationGate) (metrics : List Metric) :
    BTreeMap.allValues (evaluateGates gates metrics) GateDecision.passed = true ↔
      ∀ metric gate, lastGate gates metric = some gate → gate.Passes metrics := by
  simp only [BTreeMap.allValues_iff, evaluateGates_getElem?, Option.map_eq_some_iff]
  constructor
  · intro h metric gate last
    exact h metric _ ⟨gate, last, rfl⟩
  · rintro h metric _ ⟨gate, last, rfl⟩
    exact h metric gate last

/-- A finish request with the metrics lets no run with the gates succeed that does
not pass all of them. -/
def FinishEnforces (gates : List EvaluationGate) (metrics : List Metric) : Prop :=
  ∀ (ops : List Op) (runId : RunId) (clock : Clock) (run run' : RunRecord),
    (repository.after ops).runs[runId]? = some run → run.manifest.evaluationGates = gates →
      run.status ≠ .succeeded →
      ((repository.after ops).finishRun runId metrics clock).1 = .ok run' →
      run'.status = .succeeded → ∀ gate ∈ gates, gate.Passes metrics

/-- The process-local executor returns no successful run with the gates that does
not pass all of them. -/
def ExecutorEnforces (gates : List EvaluationGate) (metrics : List Metric) : Prop :=
  ∀ (executor : InMemoryExecutor) (stepFuel fuel : Nat) (runId : RunId) (now : UInt64)
    (workflow : WorkflowSpec) (input : Json.Value) (run : RunRecord),
    executor.executeWithMetrics stepFuel fuel runId now workflow input metrics = some (.ok run) →
      run.manifest.evaluationGates = gates → run.status = .succeeded →
      ∀ gate ∈ gates, gate.Passes metrics

/-- Where the last gate on every metric passes, so do the gates before it. -/
def LastGatesDecide (gates : List EvaluationGate) (metrics : List Metric) : Prop :=
  (∀ metric gate, lastGate gates metric = some gate → gate.Passes metrics) →
    ∀ gate ∈ gates, gate.Passes metrics

namespace InMemoryExecutor

theorem emit_ok {executor : InMemoryExecutor} {run run' : RunRecord} {event : ExecutionEvent}
    (h : executor.emit run event = .ok run') :
    run' = { run with
      events := run.events ++ [event], revision := run.revision.saturatingAdd 1 } := by
  simp only [emit] at h
  split at h
  · exact (Except.ok.inj h).symm
  · cases h

theorem finish_ok {executor : InMemoryExecutor} {run run' : RunRecord}
    (h : executor.finish run = .ok run') :
    run' = { run with
      events := run.events ++ [.runFinished run.runId run.status]
      revision := run.revision.saturatingAdd 1 } := by
  unfold finish at h
  cases emitted : executor.emit run (.runFinished run.runId run.status) with
  | error error => rw [emitted] at h; cases h
  | ok logged =>
      have shape := emit_ok emitted
      rw [emitted] at h
      cases saved : executor.save logged with
      | error error => simp [bind, Except.bind, saved] at h
      | ok =>
          simp only [bind, Except.bind, saved, pure, Except.pure, Except.ok.injEq] at h
          exact h ▸ shape

/-- A run that the gates let succeed passed the collected decisions. -/
theorem conclude_succeeded {run : RunRecord} {metrics : List Metric}
    (succeeded : (conclude run metrics).status = .succeeded) : run.passes metrics = true := by
  by_contra failing
  have blocked : (run.setMetrics metrics).gatesPassed = false := Bool.not_eq_true _ ▸ failing
  by_cases failed : run.status = .failed
  · simp [conclude, failed] at succeeded
  · simp [conclude, failed, blocked] at succeeded

theorem conclude_manifest (run : RunRecord) (metrics : List Metric) :
    (conclude run metrics).manifest = run.manifest := by
  simp only [conclude]
  split <;> split <;> rfl

/-- A successful run passed the last gate on each metric. -/
theorem executeWithMetrics_passes {executor : InMemoryExecutor} {stepFuel fuel : Nat}
    {runId : RunId} {now : UInt64} {workflow : WorkflowSpec} {input : Json.Value}
    {metrics : List Metric} {run : RunRecord}
    (h : executor.executeWithMetrics stepFuel fuel runId now workflow input metrics =
      some (.ok run)) (succeeded : run.status = .succeeded) : run.passes metrics = true := by
  unfold executeWithMetrics at h
  split at h
  · cases h
  · cases h
  · split at h
    · cases h
    · cases h
    next driven _ =>
      obtain rfl := finish_ok (Option.some.inj h)
      change RunRecord.passes { conclude driven metrics with
        events := _, revision := _ } metrics = true
      rw [RunRecord.passes]
      exact conclude_manifest driven metrics ▸ conclude_succeeded succeeded

end InMemoryExecutor

/-- A request for a one-step run whose workflow declares gates of its own. -/
def declaring (declared gates : List EvaluationGate) : RunRequest :=
  { Sample.request [Sample.step "only" 1 false] gates with
    workflow := ⟨⟨"flow"⟩, "1", [Sample.step "only" 1 false], declared⟩ }

/-- A run on that request whose step has succeeded. -/
def settledDeclaring (declared gates : List EvaluationGate) : List Op :=
  [.createRun (declaring declared gates) (.at 0), Sample.ask 0,
    Sample.succeed (Sample.step "only" 1 false) 1 1 .null]

theorem declaring_accepted (declared gates : List EvaluationGate) :
    validateRunRequest (declaring declared gates) = some (.ok ()) := by
  have same : validateRunRequest (declaring declared gates) =
      validateRunRequest (Sample.request [Sample.step "only" 1 false] []) := rfl
  rw [same]
  decide +kernel

/-- Under any gates the run is active and its only step has succeeded. -/
theorem settledDeclaring_run (declared gates : List EvaluationGate) :
    ∃ run, (repository.after (settledDeclaring declared gates)).runs[Sample.runId]? = some run ∧
      run.workflow.evaluationGates = declared ∧ run.manifest.evaluationGates = gates ∧
      run.status = .running ∧ run.allSucceeded = true ∧ run.hasFailed = false := by
  have known : (declaring declared gates).manifest.tasks[
      (⟨"work"⟩ : TaskId)]? = some (Sample.task "work") := by
    change (Sample.request [Sample.step "only" 1 false] []).manifest.tasks[
      (⟨"work"⟩ : TaskId)]? = _
    decide +kernel
  obtain ⟨sequence, created, record, claim, s, rfl, rfl, hclaim, claimed, runs, token, keyed⟩ :=
    Repository.launch (s := .empty) _ Sample.worker (Repository.keyed_after [])
      (declaring_accepted declared gates) rfl (by simp [Repository.empty]) rfl rfl known
        (by decide +kernel) 10
      (.at 0) (.at 0)
  obtain ⟨eventSequence, run', s', hrun', completed, move⟩ :=
    Repository.completeStep_of_lease s keyed (Sample.claim (Sample.step "only" 1 false) 1)
      (.succeeded Sample.runId ⟨"only"⟩ .null 1) (.at 1)
      ((runs Sample.runId).trans (if_pos rfl)) Std.ExtTreeMap.getElem?_insert_self rfl
      (by decide +kernel) (by rfl)
  have state : repository.after (settledDeclaring declared gates) = s' := by
    have handed : ((Repository.empty.createRun (declaring declared gates)
        (.at 0)).2.claimNextStep Sample.runId Sample.worker 10 (.at 0)).2 = s :=
      congrArg Prod.snd claimed
    have committed : (s.completeStep (Sample.claim (Sample.step "only" 1 false) 1)
        (.succeeded Sample.runId (Sample.step "only" 1 false).id .null 1) (.at 1)).2 = s' :=
      congrArg Prod.snd completed
    simp only [settledDeclaring, Machine.after, Machine.run_cons, Machine.run_nil, Sample.ask,
      Sample.succeed, next_createRun, next_claimNextStep, next_completeStep]
    rw [← committed, ← handed]
    rfl
  have unfailed : ∀ (id : StepId) (record : StepRecord), run'.steps[id]? = some record →
      record.status = .succeeded := by
    intro id record found
    rw [hrun', RunRecord.logged_steps, RunRecord.commit_steps, BTreeMap.getElem?_insert] at found
    split at found
    · obtain rfl := Option.some.inj found
      rfl
    next other =>
      rw [RunRecord.bump_steps, RunRecord.setStep_steps] at found
      have empty := (BTreeMap.getElem?_insert_ne other).symm.trans found
      simp [RunRecord.created, RunRecord.new] at empty
  refine ⟨run', by rw [state]; exact (move.runs _).trans (if_pos rfl), ?_, ?_, ?_, ?_, ?_⟩
  · rw [move.step.sameRequest.workflow]
    rfl
  · rw [move.step.sameRequest.manifest]
    rfl
  · rw [hrun', RunRecord.logged_status, RunRecord.commit_status]
    rfl
  · refine RunRecord.allSucceeded_iff.mpr ⟨?_, unfailed⟩
    rw [move.step.sameRequest.workflow, hrun', RunRecord.logged_steps, RunRecord.commit_steps]
    exact BTreeMap.size_insert_of_getElem? Std.ExtTreeMap.getElem?_insert_self
  · rw [Bool.eq_false_iff, Ne, RunRecord.hasFailed_iff]
    rintro ⟨id, record, found, failed⟩
    rw [unfailed id record found] at failed
    cases failed

/-- A one-step run under the gates whose step has succeeded. -/
def settledUnder (gates : List EvaluationGate) : List Op :=
  [.createRun (Sample.request [Sample.step "only" 1 false] gates) (.at 0), Sample.ask 0,
    Sample.succeed (Sample.step "only" 1 false) 1 1 .null]

theorem settledUnder_run (gates : List EvaluationGate) :
    ∃ run, (repository.after (settledUnder gates)).runs[Sample.runId]? = some run ∧
      run.manifest.evaluationGates = gates ∧ run.status = .running ∧
      run.allSucceeded = true ∧ run.hasFailed = false := by
  obtain ⟨run, found, -, rest⟩ := settledDeclaring_run gates gates
  exact ⟨run, found, rest⟩

/-- All gates are enforced exactly where the last gate on every
metric speaks for the gates before it. -/
theorem gates_enforced_iff (gates : List EvaluationGate) (metrics : List Metric) :
    FinishEnforces gates metrics ∧ ExecutorEnforces gates metrics ↔
      LastGatesDecide gates metrics := by
  constructor
  · rintro ⟨finish, -⟩ last
    obtain ⟨run, found, rfl, active, succeeded, unfailed⟩ := settledUnder_run gates
    obtain ⟨run', s', finished, move⟩ := Repository.finishRun_of_some _
      (Repository.keyed_after _) metrics (.at 2) found
    refine finish _ _ (.at 2) run run' found rfl (by simp [active])
      (congrArg Prod.fst finished) ?_
    rw [move.step.finish_status (by rw [RunRecord.settled, succeeded, Bool.or_true]),
      RunRecord.verdict_setMetrics, unfailed, RunRecord.passes, (allPassed_iff _ _).mpr last]
    rfl
  · intro decide
    constructor
    · intro ops runId clock run run' found gatesEq before finished succeeded
      obtain ⟨final, s', result, move⟩ := Repository.finishRun_of_some _
        (Repository.keyed_after ops) metrics clock found
      obtain rfl := Except.ok.inj ((congrArg Prod.fst result).symm.trans finished)
      cases move.step.statusStep with
      | kept status => exact absurd (status ▸ succeeded) before
      | finished _ settled status =>
          rw [status, RunRecord.verdict_setMetrics] at succeeded
          cases passes : run.passes metrics with
          | false => cases failed : run.hasFailed <;> simp [failed, passes] at succeeded
          | true =>
              rw [RunRecord.passes, gatesEq, allPassed_iff] at passes
              exact decide passes
    · intro executor stepFuel fuel runId now workflow input run executed gatesEq succeeded
      have passes := InMemoryExecutor.executeWithMetrics_passes executed succeeded
      rw [RunRecord.passes, gatesEq, allPassed_iff] at passes
      exact decide passes

/-- A lower and an upper bound on one metric. -/
def bounds : List EvaluationGate :=
  [⟨"score", ⟨0x3FECCCCCCCCCCCCD⟩, .atLeast⟩, ⟨"score", ⟨0x3FF0000000000000⟩, .atMost⟩]

/-- The upper bound replaces the lower one: a run succeeds that falls short of it. -/
theorem lower_bound_ignored :
    ¬ (FinishEnforces bounds [⟨"score", ⟨0x3FE0000000000000⟩⟩] ∧
      ExecutorEnforces bounds [⟨"score", ⟨0x3FE0000000000000⟩⟩]) := by
  rintro ⟨finish, -⟩
  obtain ⟨run, found, gates, active, succeeded, unfailed⟩ := settledUnder_run bounds
  obtain ⟨run', s', finished, move⟩ := Repository.finishRun_of_some _
    (Repository.keyed_after _) [⟨"score", ⟨0x3FE0000000000000⟩⟩] (.at 2) found
  have status : run'.status = .succeeded := by
    rw [move.step.finish_status (by rw [RunRecord.settled, succeeded, Bool.or_true]),
      RunRecord.verdict_setMetrics, unfailed, RunRecord.passes, gates]
    decide +kernel
  have passes := finish _ _ (.at 2) run run' found gates (by simp [active])
    (congrArg Prod.fst finished) status ⟨"score", ⟨0x3FECCCCCCCCCCCCD⟩, .atLeast⟩ (by simp [bounds])
  exact absurd passes (by rw [EvaluationGate.Passes]; decide +kernel)

end Orchestrator
