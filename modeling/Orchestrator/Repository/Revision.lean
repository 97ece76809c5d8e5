import Orchestrator.Repository.Terminal

/-!
# Revisions of stored runs

Every call but `finish_run` raises the revision of a run that it changes, each
time it logs an event or writes a step record. `finish_run` stores the metrics of
the request, their gate decisions and an error, and raises the revision only by
the event that it logs for a change of status. `FinishRevises` says of a finish
request that it logs that event or stores what the run already holds.
-/

namespace Orchestrator

namespace RunRecord

/-- The finish request changes the status of the run, or it repeats the metrics,
the decisions and the error that the run holds. -/
def FinishRevises (run : RunRecord) (metrics : List Metric) : Prop :=
  (run.settled = true ∧ (run.setMetrics metrics).verdict ≠ run.status) ∨
    (run.metrics = metrics ∧
      run.gateDecisions = evaluateGates run.manifest.evaluationGates metrics ∧
      (run.settled = true → run.hasFailed = false → run.passes metrics = false →
        run.error = some "one or more evaluation gates failed"))

/-- Where the revision can still grow, the second run is the first one or a later
revision of it. -/
def Revised (run run' : RunRecord) : Prop :=
  run.revision.toNat ≤ run'.revision.toNat ∧
    (run.revision.toNat < UInt64.maxNat →
      run' = run ∨ run.revision.toNat < run'.revision.toNat)

theorem Revised.refl (run : RunRecord) : run.Revised run := ⟨Nat.le_refl _, fun _ => .inl rfl⟩

theorem Revised.trans {run run' run'' : RunRecord} (h : run.Revised run')
    (h' : run'.Revised run'') : run.Revised run'' := by
  refine ⟨Nat.le_trans h.1 h'.1, fun below => ?_⟩
  obtain rfl | grown := h.2 below
  · exact h'.2 below
  · exact .inr (Nat.lt_of_lt_of_le grown h'.1)

/-- Raising the revision makes a later revision. -/
theorem Revised.of_raised {run run' : RunRecord} {revision : UInt64}
    (kept : run.revision.toNat ≤ revision.toNat)
    (raised : run'.revision = revision.saturatingAdd 1) : run.Revised run' := by
  have top := revision.toNat_le_maxNat
  rw [Revised, raised, UInt64.toNat_saturatingAdd, UInt64.toNat_one]
  exact ⟨by omega, fun below => .inr (by omega)⟩

@[simp] theorem logged_revision (run : RunRecord) (event : ExecutionEvent)
    (sequence now : UInt64) :
    (run.logged event sequence now).revision = run.revision.saturatingAdd 1 := rfl

@[simp] theorem commit_revision (run : RunRecord) (id : StepId) (record : StepRecord) :
    (run.commit id record).revision = run.revision.saturatingAdd 1 := by
  rw [commit, noteFailure_eq]
  rfl

@[simp] theorem noteRecovery_revision (run : RunRecord) (record : StepRecord) :
    (run.noteRecovery record).revision = run.revision := by
  rw [noteRecovery_eq]

@[simp] theorem settle_revision (run : RunRecord) : run.settle.revision = run.revision := by
  rw [settle_eq]

/-- The stored run is what a finish request with the same contents leaves. -/
theorem settle_of_repeated {run : RunRecord} {metrics : List Metric} (same : run.metrics = metrics)
    (decisions : run.gateDecisions = evaluateGates run.manifest.evaluationGates metrics)
    (status : (run.setMetrics metrics).settle.status = run.status)
    (error : run.hasFailed = false → run.passes metrics = false →
      run.error = some "one or more evaluation gates failed") :
    (run.setMetrics metrics).settle = run := by
  have stored : run.setMetrics metrics = run := by
    subst same
    rw [setMetrics, ← decisions]
  rw [stored] at status ⊢
  rw [settle_status] at status
  have passed : run.passes metrics = run.gatesPassed := by rw [passes, ← decisions, gatesPassed]
  rw [settle_eq, status]
  split
  · rfl
  next failing =>
    simp only [not_or, Bool.not_eq_true] at failing
    rw [← error failing.1 (passed.trans failing.2)]

end RunRecord

/-- The guard on changes that the finish requests revise their runs. -/
def RunAction.Revises (action : RunAction) (run : RunRecord) : Prop :=
  ∀ metrics, action = .finish metrics → run.FinishRevises metrics

/-- A change of a run raises its revision, unless it is a finish request that does
not revise it. -/
theorem RunStep.revised {token : UInt64} {action : RunAction} {run run' : RunRecord}
    (h : RunStep token action run run') (revises : action.Revises run) : run.Revised run' := by
  cases h with
  | claim => exact .of_raised (Nat.le_refl _) rfl
  | renew => exact .of_raised (Nat.le_refl _) rfl
  | complete => exact .of_raised (UInt64.le_saturatingAdd run.revision 1) (by simp)
  | record => exact .of_raised (Nat.le_refl _) rfl
  | measure metrics unsettled =>
      obtain ⟨settled, -⟩ | ⟨same, decisions, -⟩ := revises metrics rfl
      · rw [unsettled] at settled
        cases settled
      · have stored : run.setMetrics metrics = run := by
          subst same
          rw [RunRecord.setMetrics, ← decisions]
        rw [stored]
        exact .refl run
  | settle metrics settled status =>
      obtain ⟨-, changed⟩ | ⟨same, decisions, error⟩ := revises metrics rfl
      · rw [RunRecord.settle_status] at status
        exact absurd status changed
      · rw [RunRecord.settle_of_repeated same decisions status (error settled)]
        exact .refl run
  | finish => exact .of_raised (Nat.le_refl _) (by simp [RunRecord.setMetrics])
  | cancel => exact .of_raised (Nat.le_refl _) rfl
  | recover => exact .of_raised (Nat.le_refl _) (by simp [RunRecord.setStep])

/-- Every finish request of the history revises its run. -/
def FinishesRevise (ops : List Op) : Prop :=
  ∀ (pre : List Op) (runId : RunId) (metrics : List Metric) (clock : Clock) (run : RunRecord),
    pre ++ [.finishRun runId metrics clock] <+: ops →
      (repository.after pre).runs[runId]? = some run → run.FinishRevises metrics

theorem FinishesRevise.guarded {ops : List Op} (h : FinishesRevise ops) :
    Guarded (fun _ => RunAction.Revises) ops := by
  rintro pre op k _ run run' within performs move metrics rfl
  cases op with
  | finishRun runId supplied clock =>
      obtain ⟨rfl, rfl⟩ := performs
      exact h pre runId supplied clock run within move.found
  | _ => cases performs

theorem FinishesRevise.within {pre ops : List Op} (h : FinishesRevise ops) (within : pre <+: ops) :
    FinishesRevise pre :=
  fun before runId metrics clock run inner => h before runId metrics clock run (inner.trans within)

/-- Whatever a call changes of a stored run, it raises the revision. -/
def ChangesRevise (ops : List Op) : Prop :=
  ∀ (pre : List Op) (op : Op), pre ++ [op] <+: ops → ∀ (k : RunId) (run run' : RunRecord),
    (repository.after pre).runs[k]? = some run →
      (repository.after (pre ++ [op])).runs[k]? = some run' → run' ≠ run →
        run.revision < run'.revision

/-- Snapshots of one run with equal revisions are equal. -/
def RevisionsIdentify (ops : List Op) : Prop :=
  ∀ (pre pre' : List Op), pre <+: pre' → pre' <+: ops → ∀ (k : RunId) (run run' : RunRecord),
    (repository.after pre).runs[k]? = some run → (repository.after pre').runs[k]? = some run' →
      run.revision = run'.revision → run = run'

/-- From one moment of such a history to a later one every run is revised. -/
theorem revised_later {pre later : List Op} (revises : FinishesRevise (pre ++ later)) {k : RunId}
    {run run' : RunRecord} (found : (repository.after pre).runs[k]? = some run)
    (found' : (repository.after (pre ++ later)).runs[k]? = some run') : run.Revised run' := by
  obtain ⟨other, foundOther, revised⟩ := related_later RunRecord.Revised.refl
    (fun first second => first.trans second) (fun step _ revises => step.revised revises)
    (fun _ _ _ h => by cases h) pre later revises.guarded found
  obtain rfl := Option.some.inj (found'.symm.trans foundOther)
  exact revised

/-- A finish request that does not revise its run changes it under the same revision. -/
theorem finishRevises_of_changesRevise {pre : List Op} {runId : RunId} {metrics : List Metric}
    {clock : Clock} {run : RunRecord} (found : (repository.after pre).runs[runId]? = some run)
    (revise : ChangesRevise (pre ++ [.finishRun runId metrics clock])) :
    run.FinishRevises metrics := by
  obtain ⟨run', s', finished, move⟩ := Repository.finishRun_of_some _
    (Repository.keyed_after pre) metrics clock found
  have state : repository.after (pre ++ [.finishRun runId metrics clock]) = s' := by
    rw [Machine.after_concat]
    exact congrArg Prod.snd finished
  have found' : (repository.after (pre ++ [.finishRun runId metrics clock])).runs[runId]? =
      some run' := by
    rw [state, move.runs, if_pos rfl]
  have kept : run'.revision = run.revision → run' = run := by
    intro same
    by_contra changed
    have grown := revise pre _ List.prefix_rfl runId run run' found found' changed
    rw [same] at grown
    exact UInt64.lt_irrefl _ grown
  cases move.step with
  | measure metrics unsettled =>
      have same := kept rfl
      exact .inr ⟨(congrArg RunRecord.metrics same).symm,
        (congrArg RunRecord.gateDecisions same).symm, fun settled => by
          rw [unsettled] at settled
          cases settled⟩
  | settle metrics settled status =>
      have same := kept (by simp [RunRecord.setMetrics])
      rw [RunRecord.settle_eq] at same
      refine .inr ⟨(congrArg RunRecord.metrics same).symm,
        (congrArg RunRecord.gateDecisions same).symm, fun _ unfailed failing => ?_⟩
      have error := congrArg RunRecord.error same
      rw [if_neg] at error
      · exact error.symm
      · rw [RunRecord.setMetrics_hasFailed, unfailed]
        change ¬ (false = true ∨ run.passes metrics = true)
        rw [failing]
        simp
  | finish metrics sequence eventNow settled changed =>
      rw [RunRecord.settle_status] at changed
      exact .inl ⟨settled, changed⟩

/-- While no revision is at its largest value, revisions identify the contents of
the runs exactly when every finish request revises its run. -/
theorem revisions_identify_iff (ops : List Op)
    (below : ∀ pre, pre <+: ops → ∀ (k : RunId) (run : RunRecord),
      (repository.after pre).runs[k]? = some run → run.revision.toNat < UInt64.maxNat) :
    ChangesRevise ops ∧ RevisionsIdentify ops ↔ FinishesRevise ops := by
  constructor
  · rintro ⟨changes, -⟩ pre runId metrics clock run within found
    exact finishRevises_of_changesRevise found fun before op inner =>
      changes before op (inner.trans within)
  · intro revises
    have later : ∀ {pre later : List Op}, pre ++ later <+: ops →
        ∀ {k : RunId} {run run' : RunRecord},
        (repository.after pre).runs[k]? = some run →
          (repository.after (pre ++ later)).runs[k]? = some run' →
            run' = run ∨ run.revision.toNat < run'.revision.toNat := by
      intro pre later within k run run' found found'
      exact (revised_later (revises.within within) found found').2
        (below pre ((List.prefix_append pre later).trans within) k run found)
    constructor
    · intro pre op within k run run' found found' changed
      exact UInt64.lt_iff_toNat_lt.mpr ((later within found found').resolve_left changed)
    · rintro pre _ ⟨rest, rfl⟩ within k run run' found found' same
      obtain equal | grown := later within found found'
      · exact equal.symm
      · rw [same] at grown
        exact absurd grown (Nat.lt_irrefl _)

/-- A run whose step is still open is finished with a metric. -/
def measuredEarly : List Op :=
  [.createRun (Sample.request [Sample.step "only" 1 false] []) (.at 0),
    .finishRun Sample.runId [⟨"score", default⟩] (.at 1)]

theorem revisions_identify_iff_measuredEarly :
    ChangesRevise measuredEarly ∧ RevisionsIdentify measuredEarly ↔
      FinishesRevise measuredEarly := by
  have small : ∀ n ≤ 2, (repository.after (measuredEarly.take n)).runs.toList.all
      (fun entry => decide (entry.2.revision.toNat < UInt64.maxNat)) = true := by
    decide +kernel
  refine revisions_identify_iff measuredEarly fun pre within k run found => ?_
  rw [List.prefix_iff_eq_take.mp within] at found
  have checked := List.all_eq_true.mp (small pre.length within.length_le) (k, run)
    (Std.ExtTreeMap.mem_toList_iff_getElem?_eq_some.mpr found)
  exact of_decide_eq_true checked

/-- The request stores the metric under the old revision. -/
theorem metrics_stored_silently :
    ¬ ChangesRevise measuredEarly ∧ ¬ RevisionsIdentify measuredEarly := by
  have before : ((repository.after (measuredEarly.take 1)).runs[Sample.runId]?).map
      (fun run => (run.revision, run.metrics.length)) = some (1, 0) := by
    decide +kernel
  have after : ((repository.after measuredEarly).runs[Sample.runId]?).map
      (fun run => (run.revision, run.metrics.length)) = some (1, 1) := by
    decide +kernel
  obtain ⟨run, found, fields⟩ := Option.map_eq_some_iff.mp before
  obtain ⟨run', found', fields'⟩ := Option.map_eq_some_iff.mp after
  obtain ⟨revision, length⟩ := Prod.mk.inj fields
  obtain ⟨revision', length'⟩ := Prod.mk.inj fields'
  have changed : run' ≠ run := by
    rintro rfl
    rw [length] at length'
    cases length'
  constructor
  · intro changes
    have grown := changes (measuredEarly.take 1) _ List.prefix_rfl Sample.runId run run' found
      found'
      changed
    rw [revision, revision'] at grown
    exact absurd grown (by decide)
  · intro identify
    exact changed (identify (measuredEarly.take 1) _ (List.take_prefix 1 _) List.prefix_rfl
      Sample.runId run run' found found' (revision.trans revision'.symm)).symm

end Orchestrator
