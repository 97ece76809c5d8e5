import Orchestrator.Repository.Leasing
import Orchestrator.Repository.Progress
import Orchestrator.Repository.Saturation
import Orchestrator.Repository.Settled

/-!
# When a retry is due

A completion may ask for a delay before the next attempt, which the repository keeps with
the record of the step while no worker holds it. The delay of the last completion is the
only thing that a step of an active run waits for between two attempts: neither the budget
nor the dependencies of the step hold it up, and after a recovery it waits for nothing.
-/

namespace Orchestrator

/-- What a call and its answer leave of the time before which the step is not tried again. -/
def postpone (k : RunId) (id : StepId) (known : Option UInt64) (op : Op) (response : Response) :
    Option UInt64 :=
  match op, response with
  | .completeStep claim completion clock, .completed (.ok _) =>
    if claim.runId = k ∧ claim.step.id = id then
      completion.retryAfterMs.map (clock.call 1).saturatingAdd
    else known
  | .recoverExpired _, .recovered (.ok expired) =>
    if expired.contains (k, id) then none else known
  | _, _ => known

/-- The time that the last outcome of the step has asked to wait for. -/
def notBefore (k : RunId) (id : StepId) (ops : List Op) : Option UInt64 :=
  (ops.zip (repository.transcript ops)).foldl
    (fun known turn => postpone k id known turn.1 turn.2) none

theorem notBefore_concat (k : RunId) (id : StepId) (ops : List Op) (op : Op) :
    notBefore k id (ops ++ [op]) = postpone k id (notBefore k id ops) op
      (repository.answer (repository.after ops) op) := by
  rw [notBefore, Machine.transcript_concat,
    List.zip_append (Machine.length_transcript _ ops).symm, List.foldl_append]
  rfl

/-- The step whose attempt a change ends. -/
def RunAction.ending? : RunAction → Option StepId
  | .complete held _ => some held.step.id
  | .recover id => some id
  | _ => none

/-- The time that the record of the step waits for. -/
def RunRecord.nextAt (run : RunRecord) (id : StepId) : Option UInt64 :=
  run.steps[id]? >>= StepRecord.nextAttemptAtMs

/-- Only the end of an attempt changes the time. -/
theorem RunStep.nextAt_kept {token : UInt64} {action : RunAction} {run run' : RunRecord}
    (h : RunStep token action run run') {id : StepId} (apart : action.ending? ≠ some id) :
    run'.nextAt id = run.nextAt id := by
  have other : action ≠ .cancel → action.stepId? ≠ some id → run'.nextAt id = run.nextAt id :=
    fun going apart => congrArg (· >>= StepRecord.nextAttemptAtMs) (h.other_kept going apart)
  cases h with
  | @claim _ step taskId task dependencies worker seen now leaseMs =>
      simp only [RunRecord.nextAt, RunRecord.bump_steps, RunRecord.setStep_steps,
        BTreeMap.getElem?_insert]
      split
      next own =>
        subst own
        cases found : run.steps[step.id]? with
        | none => simp [RunRecord.claimed, RunRecord.entry, found, StepRecord.claim, StepRecord.new]
        | some record => simp [RunRecord.claimed, RunRecord.entry, found, StepRecord.claim]
      · rfl
  | renew claim now again leaseMs found =>
      simp only [RunRecord.nextAt, RunRecord.bump_steps, RunRecord.setStep_steps,
        BTreeMap.getElem?_insert]
      split
      next own =>
        subst own
        rw [found]
        rfl
      · rfl
  | complete => exact other RunAction.noConfusion apart
  | record => rfl
  | measure => rfl
  | settle => exact other RunAction.noConfusion apart
  | finish => exact other RunAction.noConfusion apart
  | cancel =>
      simp only [RunRecord.nextAt, RunRecord.logged_steps, RunRecord.cancelSteps_steps,
        Std.ExtTreeMap.getElem?_map]
      cases found : run.steps[id]? with
      | none => rfl
      | some record =>
          simp only [Option.map_some, Option.bind_eq_bind, Option.bind_some]
          unfold StepRecord.cancel
          split <;> rfl
  | recover => exact other RunAction.noConfusion apart

theorem RunStep.recovered_nextAt {token : UInt64} {id : StepId} {run run' : RunRecord}
    (h : RunStep token (.recover id) run run') : run'.nextAt id = none := by
  cases h with
  | recover now sequence eventNow listed found expired =>
      rw [RunRecord.nextAt, RunRecord.logged_steps, RunRecord.noteRecovery_steps,
        RunRecord.setStep_steps, BTreeMap.getElem?_insert, if_pos rfl]
      cases (recoverExpiredStep_eq_some expired).2 <;> rfl

namespace Repository

/-- The time that a step waits for. -/
def nextAt (s : Repository) (k : RunId) (id : StepId) : Option UInt64 :=
  s.record k id >>= StepRecord.nextAttemptAtMs

theorem nextAt_of_found {s : Repository} {k : RunId} {run : RunRecord}
    (found : s.runs[k]? = some run) (id : StepId) : s.nextAt k id = run.nextAt id := by
  rw [Repository.nextAt, Repository.record, found]
  rfl

variable {s s' : Repository} {k own : RunId} {id : StepId} {action : RunAction}
  {run run' : RunRecord}

theorem Moves.nextAt_kept (move : s.Moves own action run run' s')
    (apart : own = k → action.ending? ≠ some id) : s'.nextAt k id = s.nextAt k id := by
  by_cases same : own = k
  · subst same
    rw [nextAt_of_found ((move.runs own).trans (if_pos rfl)), nextAt_of_found move.found,
      move.step.nextAt_kept (apart rfl)]
  · rw [Repository.nextAt, Repository.nextAt, Repository.record, Repository.record, move.runs,
      if_neg same]

/-- A step that a sweep recovers waits for nothing. -/
theorem Recovery.nextAt {listed : List (RunId × StepId)} (recovery : s.Recovery listed s')
    (member : (k, id) ∈ listed) : s'.nextAt k id = none := by
  induction recovery with
  | done => cases member
  | @next s s' s'' k' id' run run' expired move rest ih =>
      by_cases again : (k, id) ∈ expired
      · exact ih again
      · obtain head | tail := List.mem_cons.mp member
        · obtain ⟨rfl, rfl⟩ := Prod.mk.inj head
          have kept : s''.nextAt k id = s'.nextAt k id :=
            congrArg (· >>= StepRecord.nextAttemptAtMs) (rest.record_kept again)
          rw [kept, nextAt_of_found ((move.runs k).trans (if_pos rfl))]
          exact move.step.recovered_nextAt
        · exact absurd tail again

/-- Each call leaves the time that its answer says. -/
theorem nextAt_next (ops : List Op) (op : Op) (k : RunId) (id : StepId) :
    (repository.after (ops ++ [op])).nextAt k id =
      postpone k id ((repository.after ops).nextAt k id) op
        (repository.answer (repository.after ops) op) := by
  have effect := effect_after ops op
  generalize answered : repository.answer (repository.after ops) op = response at effect
  generalize repository.after (ops ++ [op]) = s' at effect ⊢
  cases effect with
  | unchanged quiet =>
      unfold postpone
      split
      · cases quiet
      · cases quiet
      · rfl
  | create accepted creation =>
      exact congrArg (· >>= StepRecord.nextAttemptAtMs) creation.record_kept
  | claim move => exact move.nextAt_kept fun _ => (Option.some_ne_none id).symm
  | renew move => exact move.nextAt_kept fun _ => (Option.some_ne_none id).symm
  | @complete claim completion clock run run' _ move =>
      rw [postpone]
      split
      next own =>
        obtain ⟨rfl, rfl⟩ := own
        have completed :
            ((repository.after ops).completeStep claim completion clock).1 = .ok run' :=
          Response.completed.inj answered
        obtain ⟨run, record, lease, found, foundStep, leased, valid, accepted⟩ :=
          completeStep_ok completed
        obtain ⟨sequence, after, state, rfl, result, -⟩ := completeStep_of_lease _ (keyed_after ops)
          claim completion clock found foundStep leased valid accepted
        rw [result] at completed
        obtain rfl := Except.ok.inj completed
        rw [nextAt_of_found ((move.runs _).trans (if_pos rfl)), RunRecord.nextAt,
          RunRecord.logged_steps, RunRecord.commit_steps, BTreeMap.getElem?_insert, if_pos rfl]
        rfl
      next apart =>
        exact move.nextAt_kept fun own same => apart ⟨own, Option.some.inj same⟩
  | record move => exact move.nextAt_kept fun _ => (Option.some_ne_none id).symm
  | finish move => exact move.nextAt_kept fun _ => (Option.some_ne_none id).symm
  | cancel move => exact move.nextAt_kept fun _ => (Option.some_ne_none id).symm
  | recover recovery =>
      rw [postpone]
      split
      next listed => exact recovery.nextAt (List.contains_iff_mem.mp listed)
      next outside =>
        exact congrArg (· >>= StepRecord.nextAttemptAtMs)
          (recovery.record_kept fun member => outside (List.contains_iff_mem.mpr member))

/-- The record of a step waits for what the last outcome of the step has asked for. -/
theorem nextAt_after (ops : List Op) (k : RunId) (id : StepId) :
    (repository.after ops).nextAt k id = notBefore k id ops := by
  induction ops using Machine.history_induction with
  | nil => rfl
  | concat ops op ih => rw [nextAt_next, notBefore_concat, ih]

end Repository

/-- Whatever step has a record has its dependencies done. -/
def RunRecord.Readied (run : RunRecord) : Prop :=
  ∀ step ∈ run.workflow.steps, (run.steps[step.id]?).isSome = true →
    dependenciesSucceeded run step = true

theorem RunStep.readied {token : UInt64} {action : RunAction} {run run' : RunRecord}
    (h : RunStep token action run run') (sound : run.Sound) (readied : run.Readied) :
    run'.Readied := by
  have done : ∀ {step : StepSpec}, dependenciesSucceeded run step = true →
      dependenciesSucceeded run' step = true := by
    intro step ready
    simp only [dependenciesSucceeded, List.all_eq_true, Option.any_eq_true, beq_iff_eq] at ready ⊢
    intro dependency listed
    obtain ⟨record, found, succeeded⟩ := ready dependency listed
    exact ⟨record, h.final_kept sound found (congrArg StepStatus.final succeeded), succeeded⟩
  intro step listed recorded
  rw [h.sameRequest.workflow] at listed
  obtain ⟨record, found⟩ := Option.isSome_iff_exists.mp recorded
  have before : ∀ {old : StepRecord}, run.steps[step.id]? = some old →
      dependenciesSucceeded run' step = true := fun old =>
    done (readied step listed (by rw [old]; rfl))
  generalize own : step.id = id at found before
  obtain old | changed := h.record_cases found
  · exact before old
  · cases changed with
    | claim worker seen now leaseMs running member candidate =>
        obtain rfl := WorkflowSpec.step_eq_of_id sound.accepted.valid member listed own.symm
        exact done (Repository.claimCandidate_eq_some.mp candidate).2.2.2.2.1
    | renew claim now again leaseMs old => exact before old
    | complete claim completion now retryNow finishNow old => exact before old
    | cancel id now old => exact before old
    | recover now member old => exact before old

theorem readied_after (ops : List Op) : (repository.after ops).Every RunRecord.Readied := by
  refine run_invariant (A := fun _ _ => True) ?_ (fun step sound _ => step.readied sound)
    (fun _ _ => trivial) ops (guarded_true ops)
  intro request now sequence eventNow _ step _ recorded
  simp [RunRecord.created, RunRecord.new] at recorded

/-- The worker supports the task that the step's record is on. -/
def WorkerProfile.Serves (worker : WorkerProfile) (run : RunRecord) (step : StepSpec)
    (record : StepRecord) : Prop :=
  ∃ task, run.manifest.tasks[record.task]? = some task ∧
    worker.supportsTask task step.policy = true

/-- The last outcome of the step asks to wait no longer than to the given time. -/
def RetryDue (k : RunId) (id : StepId) (ops : List Op) (now : UInt64) : Prop :=
  ∀ time, notBefore k id ops = some time → time ≤ now

/-- A step that awaits a retry is offered to a worker that supports its task from the time on
that the last outcome of the step has asked to wait for, and not before. When it is offered
the call for work hands something out. -/
theorem retry_due_iff (ops : List Op) (genuine : Genuine ops) (few : (issued ops).length < 2 ^ 64)
    (k : RunId) (run : RunRecord) (found : (repository.after ops).runs[k]? = some run)
    (running : run.status = .running) (step : StepSpec) (listed : step ∈ run.workflow.steps)
    (record : StepRecord) (foundStep : run.steps[step.id]? = some record)
    (retrying : record.status = .retrying) (worker : WorkerProfile)
    (serves : worker.Serves run step record) (leaseMs : UInt64) (clock : Clock) :
    ((claimCandidate run worker (clock.step k step.id) step).isSome = true ↔
      RetryDue k step.id ops (clock.step k step.id)) ∧
    (RetryDue k step.id ops (clock.step k step.id) →
      ∃ claim, ((repository.after ops).claimNextStep k worker leaseMs clock).1 = .ok (some claim)) ∧
    ∀ claim, ((repository.after ops).claimNextStep k worker leaseMs clock).1 = .ok (some claim) →
      claim.step.id = step.id → RetryDue k step.id ops (clock.step k step.id) := by
  have sound := sound_after ops k run found
  have keyed : (repository.after ops).Keyed := Repository.keyed_after ops
  have unleased : record.lease = none := by
    refine Option.not_isSome_iff_eq_none.mp fun held => ?_
    have claimed := (sound.records _ _ foundStep).leased.mp held
    rw [retrying] at claimed
    cases claimed
  have waits : record.nextAttemptAtMs = notBefore k step.id ops := by
    rw [← Repository.nextAt_after, Repository.nextAt_of_found found, RunRecord.nextAt, foundStep]
    rfl
  have ready := readied_after ops k run found step listed (by rw [foundStep]; rfl)
  have granted := granted_after genuine few found listed foundStep retrying
  have due_iff : ∀ now, stepAvailable run.steps[step.id]? step now = true ↔
      RetryDue k step.id ops now := by
    intro now
    rw [foundStep, RetryDue, ← waits]
    simp only [stepAvailable, Option.all_some, unleased, retrying, Option.isNone_none,
      Bool.and_eq_true, Bool.or_eq_true, decide_eq_true_eq, beq_iff_eq, and_true, true_and,
      Option.all_eq_true]
    exact ⟨fun open_ => open_.1.2, fun due => ⟨⟨.inr trivial, due⟩, granted⟩⟩
  have offered : ∀ now, RetryDue k step.id ops now →
      ∃ candidate, claimCandidate run worker now step = some candidate := by
    intro now due
    obtain ⟨task, known, supported⟩ := serves
    have selected : selectedTask run step = record.task := by rw [selectedTask, foundStep]
    exact ⟨_, Repository.claimCandidate_eq_some.mpr ⟨rfl, rfl, rfl,
      ⟨task, by rw [selected, known], supported⟩, ready, (due_iff now).mpr due⟩⟩
  refine ⟨⟨fun some => ?_, fun due => Option.isSome_iff_exists.mpr (offered _ due)⟩,
    fun due => ?_, fun claim handed same => ?_⟩
  · obtain ⟨⟨chosen, taskId, dependencies⟩, candidate⟩ := Option.isSome_iff_exists.mp some
    obtain ⟨-, -, -, -, -, available⟩ := Repository.claimCandidate_eq_some.mp candidate
    exact (due_iff _).mp available
  · obtain ⟨candidate, chosen⟩ := offered _ due
    exact claimed_of_candidate keyed found running listed leaseMs chosen
  · obtain ⟨run', taskId, dependencies, claimed, found', -, candidate, -, move⟩ :=
      Repository.claimNextStep_some keyed handed
    obtain rfl := Option.some.inj (found'.symm.trans found)
    have chosen : claim.step = step :=
      WorkflowSpec.step_eq_of_id sound.accepted.valid move.step.claim_listed listed same
    rw [chosen] at candidate
    obtain ⟨-, -, -, -, -, available⟩ := Repository.claimCandidate_eq_some.mp candidate
    exact (due_iff _).mp available

/-- A worker claims the only step of a run. -/
def claimedBusy : List Op :=
  [.createRun (Sample.request [Sample.step "only" 2 false] []) (.at 0), Sample.ask 0]

/-- It reports a failure that is to be retried in thirty milliseconds. -/
def retriedLater : List Op :=
  claimedBusy ++ (issued claimedBusy).map fun claim =>
    .completeStep claim ((StepCompletion.retrying claim.runId claim.step.id claim.attempt
      "busy").withRetryAfterMs 30) (.at 5)

theorem genuine_retriedLater : Genuine retriedLater := by
  have plain : Genuine claimedBusy := .of_plain (by simp [claimedBusy, Sample.ask])
  have once : (issued claimedBusy).length = 1 := by decide +kernel
  obtain ⟨held, only⟩ := List.length_eq_one_iff.mp once
  rw [retriedLater, only]
  refine plain.concat fun claim completion clock same => ?_
  rw [only]
  exact List.mem_singleton.mpr (Op.completeStep.inj same).1.symm

/-- The retry is due in time, and the call for work hands it out. -/
theorem retry_due_iff_retriedLater : ∃ run step record,
    (repository.after retriedLater).runs[Sample.runId]? = some run ∧ step ∈ run.workflow.steps ∧
      run.steps[step.id]? = some record ∧
      ((claimCandidate run Sample.worker 35 step).isSome = true ↔
        RetryDue Sample.runId step.id retriedLater 35) ∧
      (∃ claim, ((repository.after retriedLater).claimNextStep Sample.runId Sample.worker 10
        (.at 35)).1 = .ok (some claim)) ∧
      ∀ claim, ((repository.after retriedLater).claimNextStep Sample.runId Sample.worker 10
        (.at 35)).1 = .ok (some claim) → claim.step.id = step.id →
          RetryDue Sample.runId step.id retriedLater 35 := by
  have stored : (((repository.after retriedLater).runs[Sample.runId]?).bind fun run =>
      (run.steps[(⟨"only"⟩ : StepId)]?).bind fun record =>
        (run.manifest.tasks[record.task]?).map fun task => (run.status, run.workflow.steps,
          record.status, Sample.worker.supportsTask task (Sample.step "only" 2 false).policy)) =
      some (.running, [Sample.step "only" 2 false], .retrying, true) := by
    decide +kernel
  obtain ⟨run, found, fields⟩ := Option.bind_eq_some_iff.mp stored
  obtain ⟨record, foundStep, fields⟩ := Option.bind_eq_some_iff.mp fields
  obtain ⟨task, known, fields⟩ := Option.map_eq_some_iff.mp fields
  obtain ⟨running, fields⟩ := Prod.mk.inj fields
  obtain ⟨steps, fields⟩ := Prod.mk.inj fields
  obtain ⟨retrying, supported⟩ := Prod.mk.inj fields
  have listed : Sample.step "only" 2 false ∈ run.workflow.steps := by
    rw [steps]
    exact List.mem_singleton.mpr rfl
  have asked : notBefore Sample.runId ⟨"only"⟩ retriedLater = some 35 := by decide +kernel
  have due : RetryDue Sample.runId ⟨"only"⟩ retriedLater 35 := by
    intro time waits
    obtain rfl := Option.some.inj (asked.symm.trans waits)
    exact UInt64.le_refl _
  obtain ⟨offered, hands, only⟩ := retry_due_iff retriedLater genuine_retriedLater
    (by decide +kernel) Sample.runId run found running _ listed record foundStep retrying
    Sample.worker ⟨task, known, supported⟩ 10 (.at 35)
  exact ⟨run, Sample.step "only" 2 false, record, found, listed, foundStep, offered,
    hands due, only⟩

end Orchestrator
