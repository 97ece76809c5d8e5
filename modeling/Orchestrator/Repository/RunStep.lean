import Orchestrator.Model.Repository

/-!
# What one call does to one run

`RunStep` names every change that a repository call makes to a stored run, with
the guard that the call checked before it. The operations of the repository are
related to it once; invariants of runs are then proved by its cases.

`RecordStep` is the same for one step record of a run.
-/

namespace Orchestrator

open Json (Value)

/-- A change of one run, with what the call supplied. -/
inductive RunAction where
  | claim (claim : StepClaim)
  | renew (claim : StepClaim)
  | complete (claim : StepClaim) (completion : StepCompletion)
  | record (event : ExecutionEvent)
  | finish (metrics : List Metric)
  | cancel
  | recover (stepId : StepId)

namespace RunRecord

/-- The record that a claim of the step starts from. -/
def entry (run : RunRecord) (id : StepId) (taskId : TaskId) : StepRecord :=
  (run.steps[id]?).getD (.new id taskId)

/-- The claim handed out with a step's claimed record. -/
def claimOf (run : RunRecord) (step : StepSpec) (task : TaskSpec)
    (dependencies : BTreeMap String Value) (worker : WorkerId) (token : UInt64)
    (record : StepRecord) : StepClaim :=
  { runId := run.runId, workflowId := run.workflow.id, step, task
    input := buildStepInput run.input dependencies, worker, leaseToken := token
    attempt := record.attempts, fallbackUsed := record.fallbackUsed }

/-- The record of a step just claimed. -/
def claimed (run : RunRecord) (id : StepId) (taskId : TaskId) (worker : WorkerId)
    (token now leaseMs : UInt64) : StepRecord :=
  (run.entry id taskId).claim run.runId taskId worker token now leaseMs

/-- The run with a completed record of one step. -/
def commit (run : RunRecord) (id : StepId) (record : StepRecord) : RunRecord :=
  (run.setStep id record).bump.noteFailure record

/-- The run with an event that the repository logged for it. -/
def logged (run : RunRecord) (event : ExecutionEvent) (sequence now : UInt64) : RunRecord :=
  run.pushEvent event (eventEnvelope run.runId sequence event now)

/-- Some step failed, or all of them succeeded. -/
def settled (run : RunRecord) : Bool := run.hasFailed || run.allSucceeded

end RunRecord

/-- One change of a run. `token` is the lease token the next claim gets. -/
inductive RunStep (token : UInt64) : RunAction → RunRecord → RunRecord → Prop where
  | claim {run : RunRecord} {step : StepSpec} {taskId : TaskId} {task : TaskSpec}
      {dependencies : BTreeMap String Value} (worker : WorkerProfile) (seen now leaseMs : UInt64)
      (running : run.status = .running) (listed : step ∈ run.workflow.steps)
      (candidate : claimCandidate run worker seen step = some (step, taskId, dependencies))
      (known : run.manifest.tasks[taskId]? = some task) :
      RunStep token
        (.claim (run.claimOf step task dependencies worker.id token
          (run.claimed step.id taskId worker.id token now leaseMs)))
        run (run.setStep step.id (run.claimed step.id taskId worker.id token now leaseMs)).bump
  | renew {run : RunRecord} {record : StepRecord} {lease : StepLease} (claim : StepClaim)
      (now again leaseMs : UInt64) (found : run.steps[claim.step.id]? = some record)
      (leased : record.lease = some lease) (valid : lease.validFor claim now = true) :
      RunStep token (.renew claim) run
        (run.setStep claim.step.id { record with
          lease := some { lease with expiresAtMs := again.saturatingAdd (max leaseMs 1) } }).bump
  | complete {run : RunRecord} {record : StepRecord} {lease : StepLease} (claim : StepClaim)
      (completion : StepCompletion) (now retryNow finishNow sequence eventNow : UInt64)
      (found : run.steps[claim.step.id]? = some record) (leased : record.lease = some lease)
      (valid : lease.validFor claim now = true)
      (accepted : completionMatchesClaim completion claim run.manifest = true) :
      RunStep token (.complete claim completion) run
        ((run.commit claim.step.id (record.complete completion retryNow finishNow)).logged
          completion.event sequence eventNow)
  | record {run : RunRecord} (event : ExecutionEvent) (sequence eventNow : UInt64)
      (accepted : eventIsValidForRecord run event = true) :
      RunStep token (.record event) run (run.logged event sequence eventNow)
  | measure {run : RunRecord} (metrics : List Metric) (unsettled : run.settled = false) :
      RunStep token (.finish metrics) run (run.setMetrics metrics)
  | settle {run : RunRecord} (metrics : List Metric) (settled : run.settled = true)
      (same : (run.setMetrics metrics).settle.status = run.status) :
      RunStep token (.finish metrics) run (run.setMetrics metrics).settle
  | finish {run : RunRecord} (metrics : List Metric) (sequence eventNow : UInt64)
      (settled : run.settled = true)
      (changed : (run.setMetrics metrics).settle.status ≠ run.status) :
      RunStep token (.finish metrics) run
        ((run.setMetrics metrics).settle.logged
          (.runFinished run.runId (run.setMetrics metrics).settle.status) sequence eventNow)
  | cancel {run : RunRecord} (now : StepId → UInt64) (sequence eventNow : UInt64)
      (active : run.status.isTerminal = false) :
      RunStep token .cancel run
        ((run.cancelSteps now).logged (.runFinished run.runId .cancelled) sequence eventNow)
  | recover {run : RunRecord} {step : StepSpec} {record recovered : StepRecord}
      {event : ExecutionEvent} (now sequence eventNow : UInt64)
      (listed : step ∈ run.workflow.steps) (found : run.steps[step.id]? = some record)
      (expired : recoverExpiredStep run.runId step record now = some (recovered, event)) :
      RunStep token (.recover step.id) run
        (((run.setStep step.id recovered).noteRecovery recovered).logged event sequence eventNow)

namespace RunRecord

/-- The status that settles a run. -/
def verdict (run : RunRecord) : RunStatus :=
  if run.hasFailed then .failed else if run.gatesPassed then .succeeded else .failed

variable (run : RunRecord) (record : StepRecord)

theorem noteFailure_eq :
    run.noteFailure record =
      { run with error := if record.status = .failed then record.error else run.error } := by
  by_cases h : record.status = .failed
  · simp [noteFailure, h]
  · simp [noteFailure, h]

theorem noteRecovery_eq :
    run.noteRecovery record =
      { run with
        error := if record.status = .failed ∧ record.error.isSome then record.error
          else run.error } := by
  by_cases h : record.status = .failed ∧ record.error.isSome
  · simp [noteRecovery, h]
  · simp [noteRecovery, h]

theorem settle_eq :
    run.settle =
      { run with
        status := run.verdict
        error := if run.hasFailed ∨ run.gatesPassed then run.error
          else some "one or more evaluation gates failed" } := by
  unfold settle verdict
  cases run.hasFailed with
  | true => rfl
  | false =>
      cases run.gatesPassed with
      | true => rfl
      | false => rfl

theorem verdict_isTerminal : run.verdict.isTerminal = true := by
  unfold verdict
  split
  · rfl
  · split <;> rfl

theorem verdict_ne_cancelled : run.verdict ≠ .cancelled := by
  unfold verdict
  split
  · simp
  · split <;> simp

/-! Each update, by the fields that it sets and those that it leaves. -/

section Updates

variable (id : StepId) (event : ExecutionEvent) (sequence now : UInt64) (metrics : List Metric)
  (clock : StepId → UInt64)

@[simp] theorem setStep_status : (run.setStep id record).status = run.status := rfl
@[simp] theorem bump_status : run.bump.status = run.status := rfl
@[simp] theorem logged_status : (run.logged event sequence now).status = run.status := rfl
@[simp] theorem setMetrics_status : (run.setMetrics metrics).status = run.status := rfl
@[simp] theorem cancelSteps_status : (run.cancelSteps clock).status = .cancelled := rfl
@[simp] theorem settle_status : run.settle.status = run.verdict := by rw [settle_eq]
@[simp] theorem noteRecovery_status : (run.noteRecovery record).status = run.status := by
  rw [noteRecovery_eq]
@[simp] theorem commit_status : (run.commit id record).status = run.status := by
  rw [commit, noteFailure_eq]
  rfl

@[simp] theorem setStep_steps : (run.setStep id record).steps = run.steps.insert id record := rfl
@[simp] theorem bump_steps : run.bump.steps = run.steps := rfl
@[simp] theorem logged_steps : (run.logged event sequence now).steps = run.steps := rfl
@[simp] theorem setMetrics_steps : (run.setMetrics metrics).steps = run.steps := rfl
@[simp] theorem cancelSteps_steps :
    (run.cancelSteps clock).steps = run.steps.map fun id record => record.cancel (clock id) := rfl
@[simp] theorem settle_steps : run.settle.steps = run.steps := by rw [settle_eq]
@[simp] theorem noteRecovery_steps : (run.noteRecovery record).steps = run.steps := by
  rw [noteRecovery_eq]
@[simp] theorem commit_steps : (run.commit id record).steps = run.steps.insert id record := by
  rw [commit, noteFailure_eq]
  rfl

@[simp] theorem setStep_eventLog : (run.setStep id record).eventLog = run.eventLog := rfl
@[simp] theorem bump_eventLog : run.bump.eventLog = run.eventLog := rfl
@[simp] theorem logged_eventLog :
    (run.logged event sequence now).eventLog =
      run.eventLog ++ [eventEnvelope run.runId sequence event now] := rfl
@[simp] theorem setMetrics_eventLog : (run.setMetrics metrics).eventLog = run.eventLog := rfl
@[simp] theorem cancelSteps_eventLog : (run.cancelSteps clock).eventLog = run.eventLog := rfl
@[simp] theorem settle_eventLog : run.settle.eventLog = run.eventLog := by rw [settle_eq]
@[simp] theorem noteRecovery_eventLog : (run.noteRecovery record).eventLog = run.eventLog := by
  rw [noteRecovery_eq]
@[simp] theorem commit_eventLog : (run.commit id record).eventLog = run.eventLog := by
  rw [commit, noteFailure_eq]
  rfl

@[simp] theorem setMetrics_settled : (run.setMetrics metrics).settled = run.settled := rfl
@[simp] theorem setMetrics_allSucceeded :
    (run.setMetrics metrics).allSucceeded = run.allSucceeded := rfl
@[simp] theorem setMetrics_hasFailed : (run.setMetrics metrics).hasFailed = run.hasFailed := rfl

end Updates

/-- What a run keeps from its request. -/
structure SameRequest (run run' : RunRecord) : Prop where
  runId : run'.runId = run.runId
  workflow : run'.workflow = run.workflow
  manifest : run'.manifest = run.manifest
  input : run'.input = run.input

namespace SameRequest

theorem refl : SameRequest run run := ⟨rfl, rfl, rfl, rfl⟩

variable {run} {run' run'' : RunRecord}

theorem trans (h : SameRequest run run') (h' : SameRequest run' run'') :
    SameRequest run run'' :=
  ⟨h'.runId.trans h.runId, h'.workflow.trans h.workflow, h'.manifest.trans h.manifest,
    h'.input.trans h.input⟩

theorem setMetrics (metrics : List Metric) : SameRequest run (run.setMetrics metrics) :=
  ⟨rfl, rfl, rfl, rfl⟩

theorem setStep (id : StepId) : SameRequest run (run.setStep id record) := ⟨rfl, rfl, rfl, rfl⟩

theorem commit (id : StepId) : SameRequest run (run.commit id record) := by
  rw [RunRecord.commit, noteFailure_eq]
  exact ⟨rfl, rfl, rfl, rfl⟩

theorem settle : SameRequest run run.settle := by
  rw [settle_eq]
  exact ⟨rfl, rfl, rfl, rfl⟩

theorem noteRecovery : SameRequest run (run.noteRecovery record) := by
  rw [noteRecovery_eq]
  exact ⟨rfl, rfl, rfl, rfl⟩

theorem logged (event : ExecutionEvent) (sequence now : UInt64) (h : SameRequest run run') :
    SameRequest run (run'.logged event sequence now) :=
  ⟨h.runId, h.workflow, h.manifest, h.input⟩

end SameRequest

end RunRecord

/-- One change of the record of a step, by the run's change that makes it. -/
inductive RecordStep (token : UInt64) (run : RunRecord) :
    RunAction → StepId → StepRecord → Prop where
  | claim {step : StepSpec} {taskId : TaskId} {task : TaskSpec}
      {dependencies : BTreeMap String Value} (worker : WorkerProfile) (seen now leaseMs : UInt64)
      (running : run.status = .running) (listed : step ∈ run.workflow.steps)
      (candidate : claimCandidate run worker seen step = some (step, taskId, dependencies))
      (known : run.manifest.tasks[taskId]? = some task) :
      RecordStep token run
        (.claim (run.claimOf step task dependencies worker.id token
          (run.claimed step.id taskId worker.id token now leaseMs)))
        step.id (run.claimed step.id taskId worker.id token now leaseMs)
  | renew {record : StepRecord} {lease : StepLease} (claim : StepClaim)
      (now again leaseMs : UInt64) (found : run.steps[claim.step.id]? = some record)
      (leased : record.lease = some lease) (valid : lease.validFor claim now = true) :
      RecordStep token run (.renew claim) claim.step.id { record with
        lease := some { lease with expiresAtMs := again.saturatingAdd (max leaseMs 1) } }
  | complete {record : StepRecord} {lease : StepLease} (claim : StepClaim)
      (completion : StepCompletion) (now retryNow finishNow : UInt64)
      (found : run.steps[claim.step.id]? = some record) (leased : record.lease = some lease)
      (valid : lease.validFor claim now = true)
      (accepted : completionMatchesClaim completion claim run.manifest = true) :
      RecordStep token run (.complete claim completion) claim.step.id
        (record.complete completion retryNow finishNow)
  | cancel {record : StepRecord} (id : StepId) (now : UInt64)
      (found : run.steps[id]? = some record) (active : run.status.isTerminal = false) :
      RecordStep token run .cancel id (record.cancel now)
  | recover {step : StepSpec} {record recovered : StepRecord} {event : ExecutionEvent}
      (now : UInt64) (listed : step ∈ run.workflow.steps)
      (found : run.steps[step.id]? = some record)
      (expired : recoverExpiredStep run.runId step record now = some (recovered, event)) :
      RecordStep token run (.recover step.id) step.id recovered

namespace RunStep

variable {token : UInt64} {action : RunAction} {run run' : RunRecord}

theorem sameRequest (h : RunStep token action run run') : run.SameRequest run' := by
  cases h with
  | complete => exact .logged _ _ _ (.commit _ _)
  | settle metrics => exact (RunRecord.SameRequest.setMetrics metrics).trans .settle
  | finish metrics =>
      exact .logged _ _ _ ((RunRecord.SameRequest.setMetrics metrics).trans .settle)
  | recover => exact .logged _ _ _ ((RunRecord.SameRequest.setStep _ _).trans (.noteRecovery _))
  | _ => exact ⟨rfl, rfl, rfl, rfl⟩

/-- A record is left as it was, or changed as a record step says. -/
theorem record_cases (h : RunStep token action run run') {id : StepId} {record' : StepRecord}
    (hr : run'.steps[id]? = some record') :
    run.steps[id]? = some record' ∨ RecordStep token run action id record' := by
  cases h with
  | claim worker seen now leaseMs running listed candidate known =>
      simp only [RunRecord.bump_steps, RunRecord.setStep_steps, BTreeMap.getElem?_insert] at hr
      split at hr
      · obtain rfl := Option.some.inj hr
        subst_vars
        exact .inr (.claim worker seen now leaseMs running listed candidate known)
      · exact .inl hr
  | renew claim now again leaseMs found leased valid =>
      simp only [RunRecord.bump_steps, RunRecord.setStep_steps, BTreeMap.getElem?_insert] at hr
      split at hr
      · obtain rfl := Option.some.inj hr
        subst_vars
        exact .inr (.renew claim now again leaseMs found leased valid)
      · exact .inl hr
  | complete claim completion now retryNow finishNow sequence eventNow found leased valid
      accepted =>
      simp only [RunRecord.logged_steps, RunRecord.commit_steps, BTreeMap.getElem?_insert] at hr
      split at hr
      · obtain rfl := Option.some.inj hr
        subst_vars
        exact .inr (.complete claim completion now retryNow finishNow found leased valid accepted)
      · exact .inl hr
  | record => exact .inl hr
  | measure => exact .inl hr
  | settle => exact .inl (by simpa using hr)
  | finish => exact .inl (by simpa using hr)
  | cancel now sequence eventNow active =>
      simp only [RunRecord.logged_steps, RunRecord.cancelSteps_steps,
        Std.ExtTreeMap.getElem?_map, Option.map_eq_some_iff] at hr
      obtain ⟨record, found, rfl⟩ := hr
      exact .inr (.cancel id (now id) found active)
  | recover now sequence eventNow listed found expired =>
      simp only [RunRecord.logged_steps, RunRecord.noteRecovery_steps, RunRecord.setStep_steps,
        BTreeMap.getElem?_insert] at hr
      split at hr
      · obtain rfl := Option.some.inj hr
        subst_vars
        exact .inr (.recover now listed found expired)
      · exact .inl hr

end RunStep

end Orchestrator
