import Orchestrator.Repository.Operation
import Orchestrator.Repository.RunStep

/-!
# The effect of a call on the repository

A call either leaves the repository as it was, creates one run, or lets stored
runs take steps: one step of one run, and for `recover_expired` a sequence of
steps of any runs. `step_effect` states this for every call; later results go by
cases on it and do not unfold the operations again.
-/

namespace Orchestrator

open Json (Value)

/-- The run that an accepted request becomes, with its start logged. -/
def RunRecord.created (request : RunRequest) (now sequence eventNow : UInt64) : RunRecord :=
  { RunRecord.new request.runId request.workflow request.manifest request.input now with
    status := .running, idempotencyKey := request.idempotencyKey : RunRecord }.logged
      (.runStarted request.runId request.workflow.id) sequence eventNow

/-- The call did what it was asked, so that it may have changed a run. -/
def Response.effective : Response → Bool
  | .claimed (.ok (some _)) | .renewed (.ok _) | .completed (.ok _) | .recorded (.ok _)
  | .finished (.ok _) | .recovered (.ok _) => true
  | _ => false

/-- The change is a claim, which takes a new lease token. -/
def RunAction.isClaim : RunAction → Bool
  | .claim _ => true
  | _ => false

namespace Repository

/-- Every run is stored under its own id. -/
def Keyed (s : Repository) : Prop :=
  ∀ (k : RunId) (run : RunRecord), s.runs[k]? = some run → run.runId = k

/-- The run under `k` is replaced; other runs, the index and the tokens stay. -/
structure Replaces (s : Repository) (k : RunId) (run' : RunRecord) (s' : Repository) : Prop where
  runs : ∀ id, s'.runs[id]? = if k = id then some run' else s.runs[id]?
  idempotency : s'.idempotency = s.idempotency
  token : s'.nextLeaseToken = s.nextLeaseToken

/-- The run under `k` takes one step and nothing else of the runs changes. -/
structure Moves (s : Repository) (k : RunId) (action : RunAction) (run run' : RunRecord)
    (s' : Repository) : Prop where
  found : s.runs[k]? = some run
  step : RunStep (s.nextLeaseToken.saturatingAdd 1) action run run'
  runs : ∀ id, s'.runs[id]? = if k = id then some run' else s.runs[id]?
  idempotency : s'.idempotency = s.idempotency
  token : s'.nextLeaseToken =
    if action.isClaim then s.nextLeaseToken.saturatingAdd 1 else s.nextLeaseToken

/-- The repository gains one run. -/
structure Creates (s : Repository) (run : RunRecord) (s' : Repository) : Prop where
  fresh : s.runs[run.runId]? = none
  runs : ∀ id, s'.runs[id]? = if run.runId = id then some run else s.runs[id]?
  token : s'.nextLeaseToken = s.nextLeaseToken

/-- A sequence of recovery steps and the steps that they recovered. -/
inductive Recovery : Repository → List (RunId × StepId) → Repository → Prop where
  | done (s : Repository) : Recovery s [] s
  | next {s s' s'' : Repository} {k : RunId} {id : StepId} {run run' : RunRecord}
      {expired : List (RunId × StepId)} (move : s.Moves k (.recover id) run run' s')
      (rest : Recovery s' expired s'') : Recovery s ((k, id) :: expired) s''

/-- What a call may do, with what it then answers. -/
inductive Effect (s : Repository) : Op → Response → Repository → Prop where
  | unchanged {op : Op} {response : Response} (quiet : response.effective = false) :
      Effect s op response s
  | create {request : RunRequest} {clock : Clock} {now sequence eventNow : UInt64}
      {s' : Repository} (accepted : validateRunRequest request = some (.ok ()))
      (creation : s.Creates (.created request now sequence eventNow) s') :
      Effect s (.createRun request clock)
        (.created (some (.ok (.created request now sequence eventNow)))) s'
  | claim {runId : RunId} {worker : WorkerProfile} {leaseMs : UInt64} {clock : Clock}
      {claim : StepClaim} {run run' : RunRecord} {s' : Repository}
      (move : s.Moves runId (.claim claim) run run' s') :
      Effect s (.claimNextStep runId worker leaseMs clock) (.claimed (.ok (some claim))) s'
  | renew {claim : StepClaim} {leaseMs : UInt64} {clock : Clock} {run run' : RunRecord}
      {s' : Repository} (move : s.Moves claim.runId (.renew claim) run run' s') :
      Effect s (.renewStep claim leaseMs clock) (.renewed (.ok ())) s'
  | complete {claim : StepClaim} {completion : StepCompletion} {clock : Clock}
      {run run' : RunRecord} {s' : Repository}
      (move : s.Moves claim.runId (.complete claim completion) run run' s') :
      Effect s (.completeStep claim completion clock) (.completed (.ok run')) s'
  | record {runId : RunId} {event : ExecutionEvent} {clock : Clock} {run run' : RunRecord}
      {envelope : EventEnvelope} {s' : Repository}
      (move : s.Moves runId (.record event) run run' s') :
      Effect s (.recordEvent runId event clock) (.recorded (.ok envelope)) s'
  | finish {runId : RunId} {metrics : List Metric} {clock : Clock} {run run' : RunRecord}
      {s' : Repository} (move : s.Moves runId (.finish metrics) run run' s') :
      Effect s (.finishRun runId metrics clock) (.finished (.ok run')) s'
  | cancel {runId : RunId} {clock : Clock} {run run' : RunRecord} {s' : Repository}
      (move : s.Moves runId .cancel run run' s') :
      Effect s (.cancelRun runId clock) (.cancelled (.ok run')) s'
  | recover {clock : Clock} {expired : List (RunId × StepId)} {s' : Repository}
      (recovery : s.Recovery expired s') :
      Effect s (.recoverExpired clock) (.recovered (.ok expired)) s'

section Runs

variable {s s' : Repository} {k : RunId} {action : RunAction} {run run' : RunRecord}

@[simp] theorem setRun_nextLeaseToken : (s.setRun k run).nextLeaseToken = s.nextLeaseToken := rfl

@[simp] theorem setRun_idempotency : (s.setRun k run).idempotency = s.idempotency := rfl

theorem getElem?_setRun (id : RunId) :
    (s.setRun k run).runs[id]? = if k = id then some run else s.runs[id]? :=
  BTreeMap.getElem?_insert s.runs k id run

@[simp] theorem getElem?_setRun_self (s : Repository) (k : RunId) (run : RunRecord) :
    (s.setRun k run).runs[k]? = some run := by
  rw [getElem?_setRun, if_pos rfl]

theorem replaces_setRun : s.Replaces k run (s.setRun k run) := ⟨getElem?_setRun, rfl, rfl⟩

/-- Replacing a run twice is replacing it by the second record. -/
theorem Replaces.of_setRun (h : (s.setRun k run).Replaces k run' s') : s.Replaces k run' s' := by
  refine ⟨fun id => ?_, h.idempotency, h.token⟩
  rw [h.runs, getElem?_setRun]
  split <;> rfl

theorem Replaces.moves (found : s.runs[k]? = some run)
    (step : RunStep (s.nextLeaseToken.saturatingAdd 1) action run run')
    (h : s.Replaces k run' s') (plain : action.isClaim = false) :
    s.Moves k action run run' s' :=
  ⟨found, step, h.runs, h.idempotency, by rw [h.token, plain]; rfl⟩

/-- Logging to a stored run succeeds and puts the event at the end of its log. -/
theorem appendEvent_of_some (event : ExecutionEvent) (now : UInt64)
    (found : s.runs[k]? = some run) (own : run.runId = k) :
    ∃ s', appendEvent s k event now =
        (.ok (eventEnvelope k (s.nextEventSequence.saturatingAdd 1) event now), s') ∧
      s.Replaces k (run.logged event (s.nextEventSequence.saturatingAdd 1) now) s' := by
  simp only [appendEvent, found]
  refine ⟨_, rfl, ?_, rfl, rfl⟩
  intro id
  rw [RunRecord.logged, own]
  exact BTreeMap.getElem?_insert s.runs k id _

/-- The same for the operations that answer with the run as it then stands. -/
theorem appendAndReturn_of_some (event : ExecutionEvent) (now : UInt64)
    (absent : RepositoryError) (found : s.runs[k]? = some run) (own : run.runId = k) :
    ∃ s', s.appendAndReturn k event now absent =
        (.ok (run.logged event (s.nextEventSequence.saturatingAdd 1) now), s') ∧
      s.Replaces k (run.logged event (s.nextEventSequence.saturatingAdd 1) now) s' := by
  obtain ⟨s', appended, replaces⟩ := appendEvent_of_some event now found own
  refine ⟨s', ?_, replaces⟩
  simp only [appendAndReturn, appended, getRun, replaces.runs, if_true]

theorem Moves.token_of_claim (h : s.Moves k action run run' s') (claim : action.isClaim = true) :
    s'.nextLeaseToken = s.nextLeaseToken.saturatingAdd 1 := by
  rw [h.token, if_pos claim]

theorem Moves.token_of_plain (h : s.Moves k action run run' s') (plain : action.isClaim = false) :
    s'.nextLeaseToken = s.nextLeaseToken := by
  rw [h.token, plain]
  rfl

theorem Moves.token_le (h : s.Moves k action run run' s') :
    s.nextLeaseToken.toNat ≤ s'.nextLeaseToken.toNat := by
  rw [h.token]
  split
  · exact UInt64.le_saturatingAdd _ _
  · exact Nat.le_refl _

theorem Moves.own (keyed : s.Keyed) (h : s.Moves k action run run' s') : run.runId = k :=
  keyed k run h.found

theorem Moves.keyed (keyed : s.Keyed) (h : s.Moves k action run run' s') : s'.Keyed := by
  intro id other found
  rw [h.runs] at found
  split at found
  · obtain rfl := Option.some.inj found
    rw [h.step.sameRequest.runId, h.own keyed]
    assumption
  · exact keyed id other found

/-- A new run displaces none. -/
theorem Creates.kept (h : s.Creates run s') {id : RunId} {other : RunRecord}
    (found : s.runs[id]? = some other) : s'.runs[id]? = s.runs[id]? := by
  rw [h.runs]
  split
  next same =>
    rw [← same, h.fresh] at found
    cases found
  · rfl

theorem Creates.keyed (keyed : s.Keyed) (h : s.Creates run s') : s'.Keyed := by
  intro id other found
  rw [h.runs] at found
  split at found
  · obtain rfl := Option.some.inj found
    assumption
  · exact keyed id other found

theorem Recovery.keyed {expired : List (RunId × StepId)} (keyed : s.Keyed)
    (h : s.Recovery expired s') : s'.Keyed := by
  induction h with
  | done => exact keyed
  | next move _ ih => exact ih (move.keyed keyed)

theorem Recovery.append {s'' : Repository} {expired more : List (RunId × StepId)}
    (h : s.Recovery expired s') (rest : s'.Recovery more s'') :
    s.Recovery (expired ++ more) s'' := by
  induction h with
  | done => exact rest
  | next move _ ih => exact .next move (ih rest)

end Runs

/-- A candidate is the examined step with the task its record names, which the
manifest lists and the worker supports, and with its committed inputs. -/
theorem claimCandidate_eq_some {run : RunRecord} {worker : WorkerProfile} {now : UInt64}
    {step found : StepSpec} {taskId : TaskId} {dependencies : BTreeMap String Value} :
    claimCandidate run worker now step = some (found, taskId, dependencies) ↔
      found = step ∧ taskId = selectedTask run step ∧
        dependencies = dependencyOutputs run step ∧
        (∃ task, run.manifest.tasks[selectedTask run step]? = some task ∧
          worker.supportsTask task step.policy = true) ∧
        dependenciesSucceeded run step = true ∧
        stepAvailable run.steps[step.id]? step now = true := by
  simp only [claimCandidate]
  cases known : run.manifest.tasks[selectedTask run step]? with
  | none => simp
  | some task =>
      cases supported : worker.supportsTask task step.policy with
      | false => simp [supported]
      | true =>
          simp only [Bool.not_true, Bool.false_eq_true, if_false, Bool.and_eq_true,
            Option.ite_none_right_eq_some, Option.some.injEq, Prod.mk.injEq, exists_eq_left',
            supported, true_and]
          constructor
          · rintro ⟨⟨ready, available⟩, rfl, rfl, rfl⟩
            exact ⟨rfl, rfl, rfl, ready, available⟩
          · rintro ⟨rfl, rfl, rfl, ready, available⟩
            exact ⟨⟨ready, available⟩, rfl, rfl, rfl⟩

/-- The record of a step that is offered holds no lease and waits for an attempt. -/
theorem waits_of_candidate {run : RunRecord} {worker : WorkerProfile} {now : UInt64}
    {step : StepSpec} {taskId : TaskId} {dependencies : BTreeMap String Value}
    {record : StepRecord}
    (candidate : claimCandidate run worker now step = some (step, taskId, dependencies))
    (found : run.steps[step.id]? = some record) :
    record.lease = none ∧ (record.status = .pending ∨ record.status = .retrying) := by
  obtain ⟨-, -, -, -, -, available⟩ := claimCandidate_eq_some.mp candidate
  simp only [stepAvailable, found, Option.all_some, Bool.and_eq_true, Bool.or_eq_true,
    beq_iff_eq] at available
  exact ⟨Option.isNone_iff_eq_none.mp available.1.1.1, available.1.1.2⟩

section Calls

variable (s : Repository)

/-- Storing a new run and logging its start, after the index was written. -/
theorem stored_creates {request : RunRequest} (clock : Clock)
    (fresh : s.runs[request.runId]? = none) (s₀ : Repository) (runs : s₀.runs = s.runs)
    (token : s₀.nextLeaseToken = s.nextLeaseToken) :
    ∃ sequence s', (s₀.setRun request.runId
        { RunRecord.new request.runId request.workflow request.manifest request.input
            (clock.call 0) with
          status := .running, idempotencyKey := request.idempotencyKey }).appendAndReturn
        request.runId (.runStarted request.runId request.workflow.id) (clock.call 1)
        (.conflict request.runId) =
        (.ok (.created request (clock.call 0) sequence (clock.call 1)), s') ∧
      s.Creates (.created request (clock.call 0) sequence (clock.call 1)) s' := by
  obtain ⟨s', appended, replaces⟩ := appendAndReturn_of_some
    (.runStarted request.runId request.workflow.id) (clock.call 1) (.conflict request.runId)
    (getElem?_setRun_self s₀ request.runId
      { RunRecord.new request.runId request.workflow request.manifest request.input
          (clock.call 0) with
        status := .running, idempotencyKey := request.idempotencyKey }) rfl
  refine ⟨_, s', appended, fresh, fun id => ?_, replaces.token.trans token⟩
  rw [replaces.of_setRun.runs, runs]
  rfl

/-- A new request without an idempotency key becomes a run. -/
theorem createRun_of_fresh (request : RunRequest) (clock : Clock)
    (accepted : validateRunRequest request = some (.ok ()))
    (unkeyed : request.idempotencyKey = none) (fresh : s.runs[request.runId]? = none) :
    ∃ sequence, s.Creates (.created request (clock.call 0) sequence (clock.call 1))
      (s.createRun request clock).2 := by
  obtain ⟨sequence, s', stored, creation⟩ := stored_creates s clock fresh s rfl rfl
  have absent : s.runs.contains request.runId = false := by
    rw [Bool.eq_false_iff, Ne, BTreeMap.contains_iff]
    rintro ⟨run, found⟩
    rw [fresh] at found
    cases found
  have result : (s.createRun request clock).2 = s' := by
    rw [unkeyed] at stored
    simp only [RunRecord.new] at stored
    simp only [createRun, accepted, unkeyed, Option.bind_eq_bind, Option.bind_none, absent,
      RunRecord.new, Bool.false_eq_true, if_false, stored]
  exact ⟨sequence, result ▸ creation⟩

theorem store_effect {request : RunRequest} {clock : Clock}
    (accepted : validateRunRequest request = some (.ok ()))
    (fresh : s.runs[request.runId]? = none) (s₀ : Repository) (runs : s₀.runs = s.runs)
    (token : s₀.nextLeaseToken = s.nextLeaseToken) :
    let stored := (s₀.setRun request.runId
      { RunRecord.new request.runId request.workflow request.manifest request.input
          (clock.call 0) with
        status := .running, idempotencyKey := request.idempotencyKey }).appendAndReturn
      request.runId (.runStarted request.runId request.workflow.id) (clock.call 1)
      (.conflict request.runId)
    Effect s (.createRun request clock) (.created (some stored.1)) stored.2 := by
  obtain ⟨sequence, s', stored, creation⟩ := stored_creates s clock fresh s₀ runs token
  rw [stored]
  exact .create accepted creation

theorem createRun_effect (request : RunRequest) (clock : Clock) :
    Effect s (.createRun request clock) (.created (s.createRun request clock).1)
      (s.createRun request clock).2 := by
  unfold createRun
  split
  · exact .unchanged rfl
  · exact .unchanged rfl
  next accepted =>
    split
    · split
      · exact .unchanged rfl
      · split <;> exact .unchanged rfl
    · split
      · exact .unchanged rfl
      next absent =>
        have fresh : s.runs[request.runId]? = none := by
          simpa [Std.ExtTreeMap.contains_iff_mem] using absent
        exact store_effect s accepted fresh _ (by split <;> rfl) (by split <;> rfl)

theorem renewStep_effect (claim : StepClaim) (leaseMs : UInt64) (clock : Clock) :
    Effect s (.renewStep claim leaseMs clock) (.renewed (s.renewStep claim leaseMs clock).1)
      (s.renewStep claim leaseMs clock).2 := by
  unfold renewStep
  split
  · exact .unchanged rfl
  next run found =>
    split
    · exact .unchanged rfl
    next record stepFound =>
      split
      · exact .unchanged rfl
      next lease leased =>
        split
        · exact .unchanged rfl
        next valid =>
          exact .renew (replaces_setRun.moves found
            (RunStep.renew claim _ _ _ stepFound leased (by simpa using valid)) rfl)

/-- The holder of a live lease renews it. -/
theorem renewStep_of_lease {claim : StepClaim} {run : RunRecord} {record : StepRecord}
    {lease : StepLease} (leaseMs : UInt64) (clock : Clock) (found : s.runs[claim.runId]? = some run)
    (foundStep : run.steps[claim.step.id]? = some record) (leased : record.lease = some lease)
    (valid : lease.validFor claim (clock.call 0) = true) :
    ∃ s', s.renewStep claim leaseMs clock = (.ok (), s') ∧
      s.Moves claim.runId (.renew claim) run (run.setStep claim.step.id { record with
        lease := some { lease with
          expiresAtMs := (clock.call 1).saturatingAdd (max leaseMs 1) } }).bump s' := by
  refine ⟨_, ?_, replaces_setRun.moves found (.renew claim _ _ _ foundStep leased valid) rfl⟩
  simp only [renewStep, found, foundStep, leased, valid, Bool.not_true, Bool.false_eq_true,
    if_false]

/-- A step that may be claimed is claimed. -/
theorem claimNextStep_of_candidate (keyed : s.Keyed) {k : RunId} {run : RunRecord}
    {step : StepSpec} {worker : WorkerProfile} {taskId : TaskId} {task : TaskSpec}
    {dependencies : BTreeMap String Value} (leaseMs : UInt64) (clock : Clock)
    (found : s.runs[k]? = some run) (running : run.status = .running)
    (chosen : run.workflow.steps.findSome? (fun step =>
      claimCandidate run worker (clock.step k step.id) step) = some (step, taskId, dependencies))
    (known : run.manifest.tasks[taskId]? = some task) :
    ∃ record claim s', record = run.claimed step.id taskId worker.id
        (s.nextLeaseToken.saturatingAdd 1) (clock.call 0) leaseMs ∧
      claim = run.claimOf step task dependencies worker.id (s.nextLeaseToken.saturatingAdd 1)
        record ∧
      s.claimNextStep k worker leaseMs clock = (.ok (some claim), s') ∧
      s.Moves k (.claim claim) run (run.setStep step.id record).bump s' := by
  obtain ⟨examined, listed, candidate⟩ := List.exists_of_findSome?_eq_some chosen
  obtain ⟨rfl, -⟩ := claimCandidate_eq_some.mp candidate
  obtain rfl := keyed k run found
  let record := run.claimed step.id taskId worker.id (s.nextLeaseToken.saturatingAdd 1)
    (clock.call 0) leaseMs
  refine ⟨record, _, { s.setRun run.runId (run.setStep step.id record).bump with
    nextLeaseToken := s.nextLeaseToken.saturatingAdd 1 }, rfl, rfl, ?_,
    ⟨found, ?_, getElem?_setRun, rfl, rfl⟩⟩
  · simp only [claimNextStep, found, running, chosen, known]
    rfl
  · exact .claim worker _ _ _ running listed candidate known

theorem claimNextStep_effect (keyed : s.Keyed) (runId : RunId) (worker : WorkerProfile)
    (leaseMs : UInt64) (clock : Clock) :
    Effect s (.claimNextStep runId worker leaseMs clock)
      (.claimed (s.claimNextStep runId worker leaseMs clock).1)
      (s.claimNextStep runId worker leaseMs clock).2 := by
  cases found : s.runs[runId]? with
  | none =>
      simp only [claimNextStep, found]
      exact .unchanged rfl
  | some run =>
      by_cases running : run.status = .running
      · cases chosen : run.workflow.steps.findSome? fun step =>
            claimCandidate run worker (clock.step runId step.id) step with
        | none =>
            simp only [claimNextStep, found, running, chosen]
            exact .unchanged rfl
        | some candidate =>
            obtain ⟨step, taskId, dependencies⟩ := candidate
            cases known : run.manifest.tasks[taskId]? with
            | none =>
                simp only [claimNextStep, found, running, chosen, known]
                exact .unchanged rfl
            | some task =>
                obtain ⟨_, _, _, rfl, rfl, claimed, move⟩ := claimNextStep_of_candidate s keyed
                  leaseMs clock found running chosen known
                rw [claimed]
                exact .claim move
      · simp only [claimNextStep, found]
        rw [if_pos running]
        exact .unchanged rfl

/-- A matching completion of a live lease is committed. -/
theorem completeStep_of_lease (keyed : s.Keyed) (claim : StepClaim) (completion : StepCompletion)
    {run : RunRecord} {record : StepRecord} {lease : StepLease} (clock : Clock)
    (found : s.runs[claim.runId]? = some run)
    (foundStep : run.steps[claim.step.id]? = some record) (leased : record.lease = some lease)
    (valid : lease.validFor claim (clock.call 0) = true)
    (accepted : completionMatchesClaim completion claim run.manifest = true) :
    ∃ sequence run' s', run' = (run.commit claim.step.id
        (record.complete completion (clock.call 1) (clock.call 2))).logged completion.event sequence
        (clock.call 3) ∧
      s.completeStep claim completion clock = (.ok run', s') ∧
      s.Moves claim.runId (.complete claim completion) run run' s' := by
  have own := keyed claim.runId run found
  have same : run.SameRequest (run.commit claim.step.id
      (record.complete completion (clock.call 1) (clock.call 2))) := .commit _ _
  obtain ⟨s', appended, replaces⟩ := appendEvent_of_some completion.event (clock.call 3)
    (getElem?_setRun_self s claim.runId (run.commit claim.step.id
      (record.complete completion (clock.call 1) (clock.call 2)))) (same.runId.trans own)
  refine ⟨_, _, s', rfl, ?_, replaces.of_setRun.moves found
    (.complete claim completion _ _ _ _ _ foundStep leased valid accepted) rfl⟩
  simp only [RunRecord.commit] at appended same
  simp only [completeStep, found, foundStep, leased, Option.any_some, valid, accepted,
    Bool.not_true, Bool.false_eq_true, if_false, same.runId, own, appended, replaces.runs, if_true]
  rfl

theorem completeStep_effect (keyed : s.Keyed) (claim : StepClaim) (completion : StepCompletion)
    (clock : Clock) :
    Effect s (.completeStep claim completion clock)
      (.completed (s.completeStep claim completion clock).1)
      (s.completeStep claim completion clock).2 := by
  cases found : s.runs[claim.runId]? with
  | none =>
      simp only [completeStep, found]
      exact .unchanged rfl
  | some run =>
      cases foundStep : run.steps[claim.step.id]? with
      | none =>
          simp only [completeStep, found, foundStep]
          exact .unchanged rfl
      | some record =>
          cases valid : record.lease.any fun lease => lease.validFor claim (clock.call 0) with
          | false =>
              simp only [completeStep, found, foundStep, valid]
              exact .unchanged rfl
          | true =>
              cases accepted : completionMatchesClaim completion claim run.manifest with
              | false =>
                  simp only [completeStep, found, foundStep, valid, accepted]
                  exact .unchanged rfl
              | true =>
                  obtain ⟨lease, leased, valid⟩ := (Option.any_eq_true _ _).mp valid
                  obtain ⟨_, _, _, rfl, completed, move⟩ := completeStep_of_lease s keyed claim
                    completion clock found foundStep leased valid accepted
                  rw [completed]
                  exact .complete move

/-- An event that is valid for its run is recorded. -/
theorem recordEvent_of_valid (keyed : s.Keyed) {k : RunId} {run : RunRecord}
    {event : ExecutionEvent} (clock : Clock) (found : s.runs[k]? = some run)
    (valid : eventIsValidForRecord run event = true) :
    ∃ sequence s', s.recordEvent k event clock =
        (.ok (eventEnvelope k sequence event (clock.call 0)), s') ∧
      s.Moves k (.record event) run (run.logged event sequence (clock.call 0)) s' := by
  have own := keyed k run found
  have belongs : eventBelongsToRun event k = true := by
    unfold eventIsValidForRecord at valid
    split at valid
    · cases valid
    next same => simpa [eventBelongsToRun, own] using same
  obtain ⟨s', appended, replaces⟩ := appendEvent_of_some event (clock.call 0) found own
  refine ⟨_, s', ?_, replaces.moves found (.record event _ _ valid) rfl⟩
  simp only [recordEvent, own, found, belongs, valid, appended, replaces.runs, if_true, Bool.not_true,
    Bool.or_self, Bool.false_eq_true, if_false, Option.bind_eq_bind, Option.bind_some,
    RunRecord.logged_eventLog, List.getLast?_concat]

theorem recordEvent_effect (keyed : s.Keyed) (runId : RunId) (event : ExecutionEvent)
    (clock : Clock) :
    Effect s (.recordEvent runId event clock) (.recorded (s.recordEvent runId event clock).1)
      (s.recordEvent runId event clock).2 := by
  unfold recordEvent
  split
  · exact .unchanged rfl
  next run found =>
    split
    · exact .unchanged rfl
    next accepted =>
      have valid : eventIsValidForRecord run event = true := by
        simp only [Bool.or_eq_true, Bool.not_eq_true', not_or, Bool.not_eq_false] at accepted
        exact accepted.2
      obtain ⟨s', appended, replaces⟩ :=
        appendEvent_of_some event (clock.call 0) found (keyed runId run found)
      simp only [appended, replaces.runs, if_true, Option.bind_eq_bind, Option.bind_some,
        RunRecord.logged_eventLog, List.getLast?_concat]
      exact .record (replaces.moves found (.record event _ _ valid) rfl)

/-- A finish request for a stored run is carried out and answers with the run. -/
theorem finishRun_of_some (keyed : s.Keyed) {runId : RunId} {run : RunRecord}
    (metrics : List Metric) (clock : Clock) (found : s.runs[runId]? = some run) :
    ∃ run' s', s.finishRun runId metrics clock = (.ok run', s') ∧
      s.Moves runId (.finish metrics) run run' s' := by
  obtain rfl := keyed runId run found
  simp only [finishRun, found]
  split
  next unsettled =>
    refine ⟨_, _, rfl, replaces_setRun.moves found (.measure metrics ?_) rfl⟩
    simpa [RunRecord.settled] using unsettled
  next unsettled =>
    have settled : run.settled = true := by
      simp only [Bool.and_eq_true, Bool.not_eq_true', not_and_or, Bool.not_eq_false] at unsettled
      exact Bool.or_eq_true _ _ ▸ unsettled
    split
    next changed =>
      obtain ⟨s', appended, replaces⟩ := appendAndReturn_of_some
        (.runFinished run.runId (run.setMetrics metrics).settle.status) (clock.call 0)
        (.runNotFound run.runId) (getElem?_setRun_self s run.runId (run.setMetrics metrics).settle)
        RunRecord.SameRequest.settle.runId
      exact ⟨_, s', appended, replaces.of_setRun.moves found
        (.finish metrics _ _ settled (Ne.symm changed)) rfl⟩
    next same =>
      simp only [getRun, getElem?_setRun_self]
      exact ⟨_, _, rfl, replaces_setRun.moves found
        (.settle metrics settled (not_not.mp same).symm) rfl⟩

theorem finishRun_effect (keyed : s.Keyed) (runId : RunId) (metrics : List Metric)
    (clock : Clock) :
    Effect s (.finishRun runId metrics clock) (.finished (s.finishRun runId metrics clock).1)
      (s.finishRun runId metrics clock).2 := by
  cases found : s.runs[runId]? with
  | none =>
      simp only [finishRun, found]
      exact .unchanged rfl
  | some run =>
      obtain ⟨run', s', finished, move⟩ := finishRun_of_some s keyed metrics clock found
      rw [finished]
      exact .finish move

/-- A cancellation of a stored run answers with the run as it then stands: an
ended run stays, and an active one is cancelled. -/
theorem cancelRun_of_some (keyed : s.Keyed) {runId : RunId} {run : RunRecord} (clock : Clock)
    (found : s.runs[runId]? = some run) :
    (run.status.isTerminal = true ∧ s.cancelRun runId clock = (.ok run, s)) ∨
      ∃ run' s', s.cancelRun runId clock = (.ok run', s') ∧ s.Moves runId .cancel run run' s' := by
  obtain rfl := keyed runId run found
  simp only [cancelRun, found]
  cases ended : run.status.isTerminal with
  | true => exact .inl ⟨rfl, rfl⟩
  | false =>
      obtain ⟨s', appended, replaces⟩ := appendAndReturn_of_some
        (.runFinished run.runId .cancelled) (clock.call 0) (.runNotFound run.runId)
        (getElem?_setRun_self s run.runId (run.cancelSteps (clock.step run.runId))) rfl
      exact .inr ⟨_, s', appended, replaces.of_setRun.moves found (.cancel _ _ _ ended) rfl⟩

theorem cancelRun_effect (keyed : s.Keyed) (runId : RunId) (clock : Clock) :
    Effect s (.cancelRun runId clock) (.cancelled (s.cancelRun runId clock).1)
      (s.cancelRun runId clock).2 := by
  cases found : s.runs[runId]? with
  | none =>
      simp only [cancelRun, found]
      exact .unchanged rfl
  | some run =>
      obtain ⟨-, kept⟩ | ⟨run', s', cancelled, move⟩ := cancelRun_of_some s keyed clock found
      · rw [kept]
        exact .unchanged rfl
      · rw [cancelled]
        exact .cancel move

end Calls

section Recovering

variable {s : Repository}

/-- Recovering one step of a stored run: nothing expired, or one recovery step. -/
theorem recoverStep_cases (keyed : s.Keyed) {k : RunId} {run : RunRecord} {step : StepSpec}
    (now eventNow : UInt64) (found : s.runs[k]? = some run) (listed : step ∈ run.workflow.steps) :
    s.recoverStep k step now eventNow = none ∨
      ∃ envelope run' s', s.recoverStep k step now eventNow = some (.ok envelope, s') ∧
        s.Moves k (.recover step.id) run run' s' := by
  obtain rfl := keyed k run found
  simp only [recoverStep, found]
  split
  · exact .inl rfl
  next record event expired =>
    obtain ⟨old, stepFound, expired⟩ := Option.bind_eq_some_iff.mp expired
    have same : run.SameRequest ((run.setStep step.id record).noteRecovery record) :=
      (RunRecord.SameRequest.setStep _ _).trans (.noteRecovery record)
    obtain ⟨s', appended, replaces⟩ := appendEvent_of_some event eventNow
      (getElem?_setRun_self s run.runId ((run.setStep step.id record).noteRecovery record))
      same.runId
    refine .inr ⟨_, _, s', by rw [appended], replaces.of_setRun.moves found ?_ rfl⟩
    exact .recover now _ _ listed stepFound expired

/-- The sweep over the steps of one run lists what it recovered. -/
theorem recoverSteps_recovery (k : RunId) (now : UInt64) (clock : Clock) (steps : List StepSpec)
    (expired : List (RunId × StepId)) (s : Repository) (keyed : s.Keyed) {run : RunRecord}
    (found : s.runs[k]? = some run) (listed : ∀ step ∈ steps, step ∈ run.workflow.steps) :
    ∃ more s', s.recoverSteps k now clock steps expired = (.ok (expired ++ more), s') ∧
      s.Recovery more s' := by
  induction steps generalizing s expired run with
  | nil => exact ⟨[], s, by rw [List.append_nil]; rfl, .done s⟩
  | cons step rest ih =>
      have listedRest : ∀ step ∈ rest, step ∈ run.workflow.steps :=
        fun step member => listed step (List.mem_cons_of_mem _ member)
      obtain quiet | ⟨envelope, run', s', recovered, move⟩ := recoverStep_cases keyed now
        (clock.step k step.id) found (listed step List.mem_cons_self)
      · obtain ⟨more, s'', result, recovery⟩ := ih expired s keyed found listedRest
        exact ⟨more, s'', by rw [recoverSteps, quiet]; exact result, recovery⟩
      · have found' : s'.runs[k]? = some run' := (move.runs k).trans (if_pos rfl)
        obtain ⟨more, s'', result, recovery⟩ := ih (expired ++ [(k, step.id)]) s'
          (move.keyed keyed) found' (by rw [move.step.sameRequest.workflow]; exact listedRest)
        refine ⟨(k, step.id) :: more, s'', ?_, .next move recovery⟩
        rw [recoverSteps, recovered]
        simpa only [List.append_assoc, List.singleton_append] using result

/-- Recovery keeps every run stored. -/
theorem Recovery.stored {s s' : Repository} {expired : List (RunId × StepId)}
    (h : s.Recovery expired s') {k : RunId} {run : RunRecord} (found : s.runs[k]? = some run) :
    ∃ run', s'.runs[k]? = some run' := by
  induction h generalizing run with
  | done => exact ⟨run, found⟩
  | @next s s' s'' k' id old new expired move rest ih =>
      by_cases hk : k' = k
      · have found' : s'.runs[k]? = some new := (move.runs k).trans (if_pos hk)
        exact ih found'
      · have found' : s'.runs[k]? = some run := ((move.runs k).trans (if_neg hk)).trans found
        exact ih found'

theorem recoverRuns_recovery (now : UInt64) (clock : Clock) (ids : List RunId)
    (expired : List (RunId × StepId)) (s : Repository) (keyed : s.Keyed)
    (stored : ∀ k ∈ ids, ∃ run, s.runs[k]? = some run) :
    ∃ more s', s.recoverRuns now clock ids expired = (.ok (expired ++ more), s') ∧
      s.Recovery more s' := by
  induction ids generalizing s expired with
  | nil => exact ⟨[], s, by rw [List.append_nil]; rfl, .done s⟩
  | cons k rest ih =>
      obtain ⟨run, found⟩ := stored k List.mem_cons_self
      obtain ⟨more, s', result, recovery⟩ := recoverSteps_recovery k now clock
        run.workflow.steps expired s keyed found (fun _ member => member)
      obtain ⟨others, s'', result', recovery'⟩ := ih (expired ++ more) s'
        (recovery.keyed keyed) (fun id member => by
          obtain ⟨run, found⟩ := stored id (List.mem_cons_of_mem _ member)
          exact recovery.stored found)
      refine ⟨more ++ others, s'', ?_, recovery.append recovery'⟩
      rw [recoverRuns, found]
      simp only [result, result', List.append_assoc]

theorem recoverExpired_effect (keyed : s.Keyed) (clock : Clock) :
    Effect s (.recoverExpired clock) (.recovered (s.recoverExpired clock).1)
      (s.recoverExpired clock).2 := by
  obtain ⟨expired, s', result, recovery⟩ := recoverRuns_recovery (clock.call 0) clock s.runs.keys
    [] s keyed (fun k member => BTreeMap.mem_keys_iff.mp member)
  rw [recoverExpired, result, List.nil_append]
  exact .recover recovery

end Recovering

section Launching

variable {s : Repository} {request : RunRequest} {step : StepSpec} {rest : List StepSpec}
  {task : TaskSpec} {worker : WorkerProfile}

/-- In a new run a step that waits for nothing may be claimed at once. -/
theorem claimCandidate_created (now sequence eventNow seen : UInt64)
    (free : step.dependsOn = []) (known : request.manifest.tasks[step.task]? = some task)
    (supported : worker.supportsTask task step.policy = true) :
    claimCandidate (.created request now sequence eventNow) worker seen step =
      some (step, step.task, ∅) := by
  have unstarted : (RunRecord.created request now sequence eventNow).steps[step.id]? = none := by
    simp [RunRecord.created, RunRecord.new]
  have selected : selectedTask (.created request now sequence eventNow) step = step.task := by
    simp only [selectedTask, unstarted]
  refine claimCandidate_eq_some.mpr ⟨rfl, selected.symm, ?_, ⟨task, ?_, supported⟩, ?_, ?_⟩
  · simp [dependencyOutputs, free]
  · rw [selected]
    exact known
  · simp [dependenciesSucceeded, free]
  · simp [stepAvailable, unstarted]

/-- A fresh request whose first step waits for nothing becomes a run, and a worker
that supports the step claims it. -/
theorem launch (request : RunRequest) (worker : WorkerProfile) (keyed : s.Keyed)
    (accepted : validateRunRequest request = some (.ok ()))
    (unkeyed : request.idempotencyKey = none) (fresh : s.runs[request.runId]? = none)
    (steps : request.workflow.steps = step :: rest) (free : step.dependsOn = [])
    (known : request.manifest.tasks[step.task]? = some task)
    (supported : worker.supportsTask task step.policy = true) (leaseMs : UInt64)
    (before after : Clock) :
    ∃ sequence created record claim s',
      created = RunRecord.created request (before.call 0) sequence (before.call 1) ∧
      record = (StepRecord.new step.id step.task).claim request.runId step.task worker.id
        (s.nextLeaseToken.saturatingAdd 1) (after.call 0) leaseMs ∧
      claim = created.claimOf step task ∅ worker.id (s.nextLeaseToken.saturatingAdd 1) record ∧
      (s.createRun request before).2.claimNextStep request.runId worker leaseMs after =
        (.ok (some claim), s') ∧
      (∀ id, s'.runs[id]? =
        if request.runId = id then some (created.setStep step.id record).bump else s.runs[id]?) ∧
      s'.nextLeaseToken = s.nextLeaseToken.saturatingAdd 1 ∧ s'.Keyed := by
  obtain ⟨sequence, creation⟩ := createRun_of_fresh s request before accepted unkeyed fresh
  have found : (s.createRun request before).2.runs[request.runId]? =
      some (.created request (before.call 0) sequence (before.call 1)) := by
    rw [creation.runs]
    exact if_pos rfl
  have chosen : (RunRecord.created request (before.call 0) sequence
      (before.call 1)).workflow.steps.findSome? (fun step => claimCandidate
        (.created request (before.call 0) sequence (before.call 1)) worker
        (after.step request.runId step.id) step) = some (step, step.task, ∅) := by
    change List.findSome? _ request.workflow.steps = _
    rw [steps, List.findSome?_cons, claimCandidate_created _ _ _ _ free known supported]
  obtain ⟨record, claim, s', hrecord, hclaim, claimed, move⟩ :=
    claimNextStep_of_candidate _ (creation.keyed keyed) leaseMs after found rfl chosen known
  rw [creation.token] at hrecord hclaim
  have entry : (RunRecord.created request (before.call 0) sequence (before.call 1)).entry step.id
      step.task = .new step.id step.task := by
    simp [RunRecord.entry, RunRecord.created, RunRecord.new]
  refine ⟨sequence, _, record, claim, s', rfl, ?_, hclaim, claimed, ?_, ?_,
    move.keyed (creation.keyed keyed)⟩
  · rw [hrecord, RunRecord.claimed, entry]
    rfl
  · intro id
    rw [move.runs, creation.runs]
    split
    · rfl
    next other => exact if_neg other
  · rw [move.token_of_claim rfl, creation.token]

end Launching

/-- The effect of a call on a repository whose runs are stored under their ids. -/
theorem step_effect {s : Repository} (keyed : s.Keyed) (op : Op) :
    Effect s op (repository.answer s op) (repository.next s op) := by
  cases op with
  | createRun request clock => exact createRun_effect s request clock
  | claimNextStep runId worker leaseMs clock =>
      exact claimNextStep_effect s keyed runId worker leaseMs clock
  | renewStep claim leaseMs clock => exact renewStep_effect s claim leaseMs clock
  | completeStep claim completion clock => exact completeStep_effect s keyed claim completion clock
  | recordEvent runId event clock => exact recordEvent_effect s keyed runId event clock
  | finishRun runId metrics clock => exact finishRun_effect s keyed runId metrics clock
  | cancelRun runId clock => exact cancelRun_effect s keyed runId clock
  | recoverExpired clock => exact recoverExpired_effect keyed clock

end Repository

end Orchestrator
