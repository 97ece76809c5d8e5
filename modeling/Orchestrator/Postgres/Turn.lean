import Orchestrator.Foundation.Fallible
import Orchestrator.Model.Postgres
import Orchestrator.Repository.Effect

/-!
# What a call makes of a locked run

`LockedStep` names every change that a transition makes to the record of the run
that it has locked, with the guard that it checked before. `Turn` is what a call
writes back: the one change it asks for, or the changes of a recovery. The
functions on locked runs are related to it once.
-/

namespace Orchestrator

/-- A call with its readings of the clock of the database. -/
abbrev PgOp : Type := Op × PgClock

/-- The run whose row a call locks first; a recovery locks those that it finds. -/
def Op.target : Op → Option RunId
  | .createRun request _ => some request.runId
  | .claimNextStep runId _ _ _ | .recordEvent runId _ _ | .finishRun runId _ _
  | .cancelRun runId _ => some runId
  | .renewStep claim _ _ | .completeStep claim _ _ => some claim.runId
  | .recoverExpired _ => none

/-- The record that a call writes back for a run that it has locked. -/
def Locked.written (run : RunRecord) : PgOp → Except RepositoryError (Option RunRecord)
  | (.createRun _ _, _) => .ok none
  | (.claimNextStep runId worker leaseMs _, db) =>
    (claimNextStep run runId worker leaseMs db).map Prod.snd
  | (.renewStep claim leaseMs _, db) => (renewStep run claim leaseMs db).map Prod.snd
  | (.completeStep claim completion clock, db) =>
    (completeStep run claim completion clock db).map Prod.snd
  | (.recordEvent runId event clock, _) => (recordEvent run runId event clock).map Prod.snd
  | (.finishRun runId metrics clock, _) => (finishRun run runId metrics clock).map Prod.snd
  | (.cancelRun runId clock, db) => (cancelRun run runId clock db).map Prod.snd
  | (.recoverExpired clock, db) => do
    let now ← toU64 db.now
    (recoverExpired run now clock).map Prod.snd

/-- The number that the next event of the run gets. -/
def RunRecord.nextSequence (run : RunRecord) : UInt64 :=
  (run.eventLog.getLast?.elim 0 EventEnvelope.sequence).saturatingAdd 1

theorem RunRecord.appendRunEvent_eq_ok {run run' : RunRecord} {event : ExecutionEvent}
    {now : UInt64} {envelope : EventEnvelope} :
    run.appendRunEvent event now = .ok (envelope, run') ↔
      event.runId = run.runId ∧
        envelope = eventEnvelope run.runId run.nextSequence event now ∧
        run' = run.logged event run.nextSequence now := by
  unfold appendRunEvent
  split
  next other =>
    simp only [eventBelongsToRun, Bool.not_eq_true', beq_eq_false_iff_ne] at other
    simp [other]
  next own =>
    simp only [eventBelongsToRun, Bool.not_eq_true', Bool.not_eq_false, beq_iff_eq] at own
    simp only [Except.ok.injEq, Prod.mk.injEq, own, true_and]
    exact and_congr eq_comm eq_comm

/-- What a call makes of a run that it has locked. A recovery takes one step for each
lease that has run out and counts them as one revision. -/
inductive LockedStep : RunAction → RunRecord → RunRecord → Prop where
  | claim {run : RunRecord} {step : StepSpec} {taskId : TaskId} {task : TaskSpec}
      {dependencies : BTreeMap String Json.Value} (worker : WorkerProfile) (now leaseMs : UInt64)
      (running : run.status = .running) (listed : step ∈ run.workflow.steps)
      (candidate : claimCandidate run worker now step = some (step, taskId, dependencies))
      (known : run.manifest.tasks[taskId]? = some task) :
      LockedStep
        (.claim (run.claimOf step task dependencies worker.id run.nextLeaseToken
          (run.claimed step.id taskId worker.id run.nextLeaseToken now leaseMs)))
        run (run.setStep step.id
          { run.claimed step.id taskId worker.id run.nextLeaseToken now leaseMs with
            nextAttemptAtMs := none }).bump
  | renew {run : RunRecord} {record : StepRecord} {lease : StepLease} (claim : StepClaim)
      (now leaseMs : UInt64) (found : run.steps[claim.step.id]? = some record)
      (leased : record.lease = some lease) (valid : lease.validFor claim now = true) :
      LockedStep (.renew claim) run
        (run.setStep claim.step.id { record with
          lease := some { lease with expiresAtMs := now.saturatingAdd (max leaseMs 1) } }).bump
  | complete {run : RunRecord} {record : StepRecord} {lease : StepLease} (claim : StepClaim)
      (completion : StepCompletion) (now eventNow : UInt64)
      (found : run.steps[claim.step.id]? = some record) (leased : record.lease = some lease)
      (valid : lease.validFor claim now = true)
      (accepted : completionMatchesClaim completion claim run.manifest = true)
      (own : completion.event.runId = run.runId) :
      LockedStep (.complete claim completion) run
        ((run.commit claim.step.id (record.complete completion now now)).logged
          completion.event run.nextSequence eventNow)
  | record {run : RunRecord} (event : ExecutionEvent) (eventNow : UInt64)
      (accepted : eventIsValidForRecord run event = true) :
      LockedStep (.record event) run (run.logged event run.nextSequence eventNow)
  | measure {run : RunRecord} (metrics : List Metric) (unsettled : run.settled = false) :
      LockedStep (.finish metrics) run (run.setMetrics metrics).bump
  | settle {run : RunRecord} (metrics : List Metric) (settled : run.settled = true)
      (same : (run.setMetrics metrics).settle.status = run.status) :
      LockedStep (.finish metrics) run (run.setMetrics metrics).settle.bump
  | finish {run : RunRecord} (metrics : List Metric) (eventNow : UInt64)
      (settled : run.settled = true)
      (changed : (run.setMetrics metrics).settle.status ≠ run.status) :
      LockedStep (.finish metrics) run
        ((run.setMetrics metrics).settle.bump.logged
          (.runFinished run.runId (run.setMetrics metrics).settle.status) run.nextSequence
          eventNow)
  | cancel {run : RunRecord} (now eventNow : UInt64) (active : run.status.isTerminal = false) :
      LockedStep .cancel run
        ((run.cancelSteps fun _ => now).bump.logged (.runFinished run.runId .cancelled)
          run.nextSequence eventNow)
  | recover {run : RunRecord} {step : StepSpec} {record recovered : StepRecord}
      {event : ExecutionEvent} (now eventNow : UInt64)
      (listed : step ∈ run.workflow.steps) (found : run.steps[step.id]? = some record)
      (expired : recoverExpiredStep run.runId step record now = some (recovered, event)) :
      LockedStep (.recover step.id) run
        (((run.setStep step.id recovered).noteRecovery recovered).logged event run.nextSequence
          eventNow)

theorem LockedStep.sameRequest {action : RunAction} {run run' : RunRecord}
    (h : LockedStep action run run') : run.SameRequest run' := by
  cases h with
  | complete => exact .logged _ _ _ (.commit _ _)
  | settle metrics =>
      have settled := (RunRecord.SameRequest.refl run |>.trans (.setMetrics metrics)).trans .settle
      exact settled.trans ⟨rfl, rfl, rfl, rfl⟩
  | finish metrics =>
      have settled := (RunRecord.SameRequest.refl run |>.trans (.setMetrics metrics)).trans .settle
      exact .logged _ _ _ (settled.trans ⟨rfl, rfl, rfl, rfl⟩)
  | recover => exact .logged _ _ _ ((RunRecord.SameRequest.setStep _ _).trans (.noteRecovery _))
  | _ => exact ⟨rfl, rfl, rfl, rfl⟩

/-- The change that a call asks for. -/
inductive Op.Asks : Op → RunAction → Prop where
  | claim (runId : RunId) (worker : WorkerProfile) (leaseMs : UInt64) (clock : Clock)
      (claim : StepClaim) : Asks (.claimNextStep runId worker leaseMs clock) (.claim claim)
  | renew (claim : StepClaim) (leaseMs : UInt64) (clock : Clock) :
      Asks (.renewStep claim leaseMs clock) (.renew claim)
  | complete (claim : StepClaim) (completion : StepCompletion) (clock : Clock) :
      Asks (.completeStep claim completion clock) (.complete claim completion)
  | record (runId : RunId) (event : ExecutionEvent) (clock : Clock) :
      Asks (.recordEvent runId event clock) (.record event)
  | finish (runId : RunId) (metrics : List Metric) (clock : Clock) :
      Asks (.finishRun runId metrics clock) (.finish metrics)
  | cancel (runId : RunId) (clock : Clock) : Asks (.cancelRun runId clock) .cancel

/-- The steps that a recovery takes on one run, with the ids of the recovered steps. -/
inductive Recovered : RunRecord → List StepId → RunRecord → Prop where
  | done (run : RunRecord) : Recovered run [] run
  | next {run run' run'' : RunRecord} {id : StepId} {ids : List StepId}
      (step : LockedStep (.recover id) run run') (rest : Recovered run' ids run'') :
      Recovered run (id :: ids) run''

/-- What a call writes back for a run: the change it asks for, or one recovery. -/
inductive Turn : Op → RunRecord → RunRecord → Prop where
  | step {op : Op} {action : RunAction} {run run' : RunRecord} (asks : op.Asks action)
      (step : LockedStep action run run') : Turn op run run'
  | recover {clock : Clock} {run run' : RunRecord} {ids : List StepId}
      (recovered : Recovered run ids run') : Turn (.recoverExpired clock) run run'.bump

/-- What every change and the count of a revision preserve, a turn preserves. -/
theorem Turn.preserves {P : RunRecord → Prop} {op : Op} {run run' : RunRecord}
    (h : Turn op run run')
    (step : ∀ {action run run'}, LockedStep action run run' → P run → P run')
    (bump : ∀ run, P run → P run.bump) (holds : P run) : P run' := by
  have recovered : ∀ {ids run run'}, Recovered run ids run' → P run → P run' := by
    intro ids run run' h holds
    induction h with
    | done => exact holds
    | next first _ ih => exact ih (step first holds)
  cases h with
  | step _ first => exact step first holds
  | recover first => exact bump _ (recovered first holds)

theorem Turn.sameRun {op : Op} {run run' : RunRecord} (h : Turn op run run') :
    run'.runId = run.runId :=
  h.preserves (P := fun later => later.runId = run.runId)
    (fun step same => step.sameRequest.runId.trans same) (fun _ same => same) rfl

namespace Locked

variable {run run' : RunRecord}

theorem claimNextStep_step {runId : RunId} {worker : WorkerProfile} {leaseMs : UInt64}
    {db : PgClock} {answer : Option StepClaim} (own : run.runId = runId)
    (h : claimNextStep run runId worker leaseMs db = .ok (answer, some run')) :
    ∃ claim, answer = some claim ∧ LockedStep (.claim claim) run run' := by
  unfold claimNextStep at h
  split at h
  · simp at h
  next running =>
    obtain ⟨now, -, h⟩ := Except.bind_eq_ok.mp h
    split at h
    · simp at h
    next step taskId dependencies chosen =>
      split at h
      · simp at h
      next task known =>
        obtain ⟨examined, listed, candidate⟩ := List.exists_of_findSome?_eq_some chosen
        obtain ⟨rfl, -⟩ := Repository.claimCandidate_eq_some.mp candidate
        subst own
        simp only [Except.ok.injEq, Prod.mk.injEq, Option.some.injEq] at h
        obtain ⟨rfl, rfl⟩ := h
        exact ⟨_, rfl, .claim worker now leaseMs (not_not.mp running) listed candidate known⟩

theorem renewStep_step {claim : StepClaim} {leaseMs : UInt64} {db : PgClock}
    (h : renewStep run claim leaseMs db = .ok ((), some run')) :
    LockedStep (.renew claim) run run' := by
  unfold renewStep at h
  obtain ⟨now, -, h⟩ := Except.bind_eq_ok.mp h
  split at h
  · simp at h
  next record found =>
    split at h
    · simp at h
    next lease leased =>
      split at h
      · simp at h
      next valid =>
        simp only [Except.ok.injEq, Prod.mk.injEq, Option.some.injEq, true_and] at h
        subst h
        exact .renew claim now leaseMs found leased (by simpa using valid)

theorem completeStep_step {claim : StepClaim} {completion : StepCompletion} {clock : Clock}
    {db : PgClock} {answer : RunRecord}
    (h : completeStep run claim completion clock db = .ok (answer, some run')) :
    answer = run' ∧ LockedStep (.complete claim completion) run run' := by
  unfold completeStep at h
  obtain ⟨now, -, h⟩ := Except.bind_eq_ok.mp h
  split at h
  · simp at h
  next record found =>
    split at h
    · simp at h
    next valid =>
      split at h
      · simp at h
      next accepted =>
        obtain ⟨⟨envelope, logged⟩, appended, h⟩ := Except.map_eq_ok.mp h
        simp only [Prod.mk.injEq, Option.some.injEq] at h
        obtain ⟨rfl, rfl⟩ := h
        obtain ⟨own, -, rfl⟩ := RunRecord.appendRunEvent_eq_ok.mp appended
        simp only [Bool.not_eq_true', Bool.not_eq_false, Option.any_eq_true] at valid accepted
        obtain ⟨lease, leased, valid⟩ := valid
        refine ⟨rfl, ?_⟩
        rw [RunRecord.noteFailure_eq] at own
        have step := LockedStep.complete claim completion now (clock.call 0) found leased valid
          accepted own
        simpa [RunRecord.commit, RunRecord.nextSequence, RunRecord.noteFailure_eq,
          RunRecord.bump] using step

theorem recordEvent_step {runId : RunId} {event : ExecutionEvent} {clock : Clock}
    {answer : EventEnvelope} (h : recordEvent run runId event clock = .ok (answer, some run')) :
    LockedStep (.record event) run run' := by
  unfold recordEvent at h
  split at h
  · simp at h
  next accepted =>
    obtain ⟨⟨envelope, logged⟩, appended, h⟩ := Except.map_eq_ok.mp h
    simp only [Prod.mk.injEq, Option.some.injEq] at h
    obtain ⟨rfl, rfl⟩ := h
    obtain ⟨-, -, rfl⟩ := RunRecord.appendRunEvent_eq_ok.mp appended
    simp only [Bool.or_eq_true, Bool.not_eq_true', not_or, Bool.not_eq_false] at accepted
    exact .record event (clock.call 0) accepted.2

/-- The record that a finish request would leave, before it is counted as a revision. -/
def measured (run : RunRecord) (metrics : List Metric) : RunRecord :=
  if run.settled then (run.setMetrics metrics).settle else run.setMetrics metrics

theorem finishRun_eq (run : RunRecord) (runId : RunId) (metrics : List Metric) (clock : Clock) :
    finishRun run runId metrics clock =
      if run.status = (measured run metrics).status ∧ metricsChanged run metrics = false then
        .ok (measured run metrics, none)
      else if run.status ≠ (measured run metrics).status then
        ((measured run metrics).bump.appendRunEvent
          (.runFinished runId (measured run metrics).status) (clock.call 0)).map
            fun (_, run) => (run, some run)
      else .ok ((measured run metrics).bump, some (measured run metrics).bump) := rfl

theorem finishRun_step {runId : RunId} {metrics : List Metric} {clock : Clock}
    {answer : RunRecord} (own : run.runId = runId)
    (h : finishRun run runId metrics clock = .ok (answer, some run')) :
    answer = run' ∧ LockedStep (.finish metrics) run run' := by
  subst own
  rw [finishRun_eq] at h
  split at h
  · simp at h
  · split at h
    next changed =>
      obtain ⟨⟨envelope, logged⟩, appended, h⟩ := Except.map_eq_ok.mp h
      simp only [Prod.mk.injEq, Option.some.injEq] at h
      obtain ⟨rfl, rfl⟩ := h
      obtain ⟨-, -, rfl⟩ := RunRecord.appendRunEvent_eq_ok.mp appended
      refine ⟨rfl, ?_⟩
      by_cases settled : run.settled = true
      · simp only [measured, settled, if_true] at changed ⊢
        have step := LockedStep.finish metrics (clock.call 0) settled (Ne.symm changed)
        simpa [RunRecord.nextSequence] using step
      · simp [measured, settled] at changed
    next same =>
      simp only [Except.ok.injEq, Prod.mk.injEq, Option.some.injEq] at h
      obtain ⟨rfl, rfl⟩ := h
      refine ⟨rfl, ?_⟩
      by_cases settled : run.settled = true
      · simp only [measured, settled, if_true] at same ⊢
        exact .settle metrics settled (not_not.mp same).symm
      · simp only [measured, settled] at same ⊢
        exact .measure metrics (by simpa using settled)

theorem cancelRun_step {runId : RunId} {clock : Clock} {db : PgClock} {answer : RunRecord}
    (own : run.runId = runId) (h : cancelRun run runId clock db = .ok (answer, some run')) :
    answer = run' ∧ LockedStep .cancel run run' := by
  unfold cancelRun at h
  obtain ⟨now, -, h⟩ := Except.bind_eq_ok.mp h
  split at h
  · simp at h
  next active =>
    obtain ⟨⟨envelope, logged⟩, appended, h⟩ := Except.map_eq_ok.mp h
    simp only [Prod.mk.injEq, Option.some.injEq] at h
    obtain ⟨rfl, rfl⟩ := h
    obtain ⟨-, -, rfl⟩ := RunRecord.appendRunEvent_eq_ok.mp appended
    subst own
    exact ⟨rfl, .cancel now (clock.call 0) (by simpa using active)⟩

theorem recoverStep_step {now : UInt64} {clock : Clock} {step : StepSpec}
    (listed : step ∈ run.workflow.steps)
    (h : recoverStep run now clock step = .ok (some run')) :
    LockedStep (.recover step.id) run run' := by
  unfold recoverStep at h
  split at h
  · simp at h
  next recovered event expired =>
    obtain ⟨record, found, expired⟩ := Option.bind_eq_some_iff.mp expired
    obtain ⟨⟨envelope, logged⟩, appended, h⟩ := Except.map_eq_ok.mp h
    obtain rfl := Option.some.inj h
    obtain ⟨-, -, rfl⟩ := RunRecord.appendRunEvent_eq_ok.mp appended
    have taken := LockedStep.recover now (clock.step run.runId step.id) listed found expired
    simpa [RunRecord.nextSequence] using taken

theorem recoverSteps_recovered {now : UInt64} {clock : Clock} {steps : List StepSpec}
    {expired expired' : List (RunId × StepId)} (listed : steps ⊆ run.workflow.steps)
    (h : recoverSteps now clock run steps expired = .ok (run', expired')) :
    ∃ ids, Recovered run ids run' := by
  induction steps generalizing run expired with
  | nil =>
      simp only [recoverSteps, Except.ok.injEq, Prod.mk.injEq] at h
      obtain ⟨rfl, rfl⟩ := h
      exact ⟨[], .done run⟩
  | cons step rest ih =>
      obtain ⟨first, others⟩ := List.cons_subset.mp listed
      unfold recoverSteps at h
      split at h
      · simp at h
      · exact ih others h
      next middle recovered =>
        have step := recoverStep_step first recovered
        obtain ⟨ids, later⟩ := ih (by rw [step.sameRequest.workflow]; exact others) h
        exact ⟨_, .next step later⟩

theorem recoverExpired_turn {now : UInt64} {clock : Clock} {expired : List (RunId × StepId)}
    (h : recoverExpired run now clock = .ok (expired, some run')) :
    Turn (.recoverExpired clock) run run' := by
  obtain ⟨⟨last, found⟩, recovered, h⟩ := Except.map_eq_ok.mp h
  simp only [Prod.mk.injEq] at h
  obtain ⟨rfl, changed⟩ := h
  split at changed
  · simp at changed
  · obtain rfl := Option.some.inj changed
    obtain ⟨ids, recovered⟩ := recoverSteps_recovered (List.Subset.refl _) recovered
    exact .recover recovered

/-- What a call writes back is a turn of the run that it has locked. -/
theorem written_turn {op : PgOp} (own : ∀ id ∈ op.1.target, id = run.runId)
    (h : written run op = .ok (some run')) : Turn op.1 run run' := by
  obtain ⟨op, db⟩ := op
  cases op with
  | createRun request clock => simp [written] at h
  | claimNextStep runId worker leaseMs clock =>
      obtain ⟨⟨answer, last⟩, h, rfl⟩ := Except.map_eq_ok.mp h
      obtain ⟨claim, -, step⟩ := claimNextStep_step (own runId rfl).symm h
      exact .step (.claim _ _ _ _ claim) step
  | renewStep claim leaseMs clock =>
      obtain ⟨⟨answer, last⟩, h, rfl⟩ := Except.map_eq_ok.mp h
      exact .step (.renew _ _ _) (renewStep_step h)
  | completeStep claim completion clock =>
      obtain ⟨⟨answer, last⟩, h, rfl⟩ := Except.map_eq_ok.mp h
      exact .step (.complete _ _ _) (completeStep_step h).2
  | recordEvent runId event clock =>
      obtain ⟨⟨answer, last⟩, h, rfl⟩ := Except.map_eq_ok.mp h
      exact .step (.record _ _ _) (recordEvent_step h)
  | finishRun runId metrics clock =>
      obtain ⟨⟨answer, last⟩, h, rfl⟩ := Except.map_eq_ok.mp h
      exact .step (.finish _ _ _) (finishRun_step (own runId rfl).symm h).2
  | cancelRun runId clock =>
      obtain ⟨⟨answer, last⟩, h, rfl⟩ := Except.map_eq_ok.mp h
      exact .step (.cancel _ _) (cancelRun_step (own runId rfl).symm h).2
  | recoverExpired clock =>
      obtain ⟨now, -, h⟩ := Except.bind_eq_ok.mp h
      obtain ⟨⟨answer, last⟩, h, rfl⟩ := Except.map_eq_ok.mp h
      exact recoverExpired_turn h

end Locked

end Orchestrator
