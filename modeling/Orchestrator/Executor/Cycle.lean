import Orchestrator.Executor.Attempts
import Orchestrator.Executor.Memory
import Orchestrator.Model.Durable
import Orchestrator.Repository.Sound

/-!
# The attempts of the durable cycle

One round of the durable cycle claims the step, logs its start, runs the task and
commits the completion. From a state that stands where the machine of `Attempts`
stands, a round makes the machine's next attempt, unless the attempt counter is
at its largest value: then the start of the attempt is taken for a repetition.
-/

namespace Orchestrator

open Json (Value)

/-- The events of one step in the log, in order. -/
def RunRecord.stepEvents (run : RunRecord) (id : StepId) : List ExecutionEvent :=
  (run.eventLog.map EventEnvelope.event).filter fun event => event.stepId? == some id

/-- The runs differ at most in the record of the step and in their logs. -/
structure RunRecord.Around (id : StepId) (run run' : RunRecord) : Prop where
  same : run.SameRequest run'
  status : run'.status = run.status
  others : ∀ other, other ≠ id → run'.steps[other]? = run.steps[other]?

theorem RunRecord.Around.trans {id : StepId} {run run' run'' : RunRecord}
    (h : run.Around id run') (h' : run'.Around id run'') : run.Around id run'' :=
  ⟨h.same.trans h'.same, h'.status.trans h.status,
    fun other apart => (h'.others other apart).trans (h.others other apart)⟩

theorem RunRecord.Around.of_insert {id : StepId} {run run' : RunRecord} (record : StepRecord)
    (same : run.SameRequest run') (status : run'.status = run.status)
    (steps : run'.steps = run.steps.insert id record) : run.Around id run' :=
  ⟨same, status, fun other apart => by rw [steps, BTreeMap.getElem?_insert_ne apart.symm]⟩

theorem RunRecord.stepEvents_logged (run : RunRecord) (event : ExecutionEvent)
    (sequence now : UInt64) {id : StepId} (about : event.stepId? = some id) :
    (run.logged event sequence now).stepEvents id = run.stepEvents id ++ [event] := by
  rw [stepEvents, logged_eventLog, List.map_append, List.filter_append]
  simp [stepEvents, eventEnvelope, about]

/-- A completion built for a claim is one that the claim may commit. -/
theorem StepClaim.completion_commits (claim : StepClaim) {manifest : RunManifest}
    (known : ∀ task, claim.step.policy.fallbackTask = some task →
      manifest.tasks.contains task = true) (result : Except TaskError Value) :
    Commits claim manifest (claim.completion result) := by
  cases result with
  | ok output => exact .succeeded output []
  | error error =>
      simp only [completion, Bool.and_eq_true, decide_eq_true_eq]
      split
      next again => exact .retrying error.message [] _ again.2
      next =>
        split
        next unused =>
          split
          next task selected =>
            exact .fallback task error.message [] (by simpa using unused) selected
              (known task selected)
          next unset => exact .failed error.message [] (.inr unset)
        next used => exact .failed error.message [] (.inl (by simpa using used))

section Completion

variable {script : Script} {k : RunId} {step : StepSpec} {p p' : Standing} {claim : StepClaim}

/-- The claim is for the attempt that the machine makes next. -/
structure StepClaim.Next (claim : StepClaim) (k : RunId) (step : StepSpec) (p : Standing) :
    Prop where
  runId : claim.runId = k
  step : claim.step = step
  attempt : claim.attempt = p.attempts + 1
  fallbackUsed : claim.fallbackUsed = p.fallbackUsed

/-- Where the machine goes on, the completion asks for a retry. -/
theorem StepClaim.Next.completion_inl (next : claim.Next k step p)
    (attempted : p.attempt script k step = .inl p') :
    let completion := claim.completion (script p.task (p.attempts + 1))
    completion.status = .retrying ∧ completion.nextTask.getD p.task = p'.task ∧
      (p.fallbackUsed || completion.fallbackUsed) = p'.fallbackUsed ∧
      p'.attempts = p.attempts + 1 ∧ p'.events = p.started k step ++ [completion.event] := by
  obtain ⟨rfl, rfl, attempt, used⟩ := next
  obtain ⟨error, answered, ⟨retryable, below, rfl⟩ | ⟨final, unused, task, selected, rfl⟩⟩ :=
    Standing.attempt_inl attempted
  · simp [completion, answered, retryable, attempt, below, Standing.retry,
      StepCompletion.withRetryAfterMs, StepCompletion.retrying]
  · have stop : (error.retryable && decide (p.attempts + 1 < claim.step.policy.retry.budget)) =
        false := by
      rw [Bool.eq_false_iff]
      simpa using final
    simp [completion, answered, attempt, stop, used, unused, selected, Standing.fallback,
      StepCompletion.fallback]

/-- Where the machine ends, the completion reports that ending. -/
theorem StepClaim.Next.completion_inr {e : Ending} (next : claim.Next k step p)
    (attempted : p.attempt script k step = .inr e) :
    let completion := claim.completion (script p.task (p.attempts + 1))
    completion.status = e.status ∧ completion.nextTask.getD p.task = e.task ∧
      (p.fallbackUsed || completion.fallbackUsed) = e.fallbackUsed ∧
      e.attempts = p.attempts + 1 ∧ completion.output = e.output ∧ completion.error = e.error ∧
      e.events = p.started k step ++ [completion.event] := by
  obtain ⟨rfl, rfl, attempt, used⟩ := next
  obtain ⟨output, answered, rfl⟩ | ⟨error, answered, final, unselected, rfl⟩ :=
    Standing.attempt_inr attempted
  · simp [completion, answered, attempt, Standing.succeed, StepCompletion.succeeded]
  · have stop : (error.retryable && decide (p.attempts + 1 < claim.step.policy.retry.budget)) =
        false := by
      rw [Bool.eq_false_iff]
      simpa using final
    have failed : claim.completion (.error error) =
        .failed claim.runId claim.step.id claim.attempt error.message := by
      simp only [completion, attempt, stop, used, Bool.false_eq_true, if_false]
      rw [Standing.unusedFallback] at unselected
      cases unused : p.fallbackUsed with
      | true => rfl
      | false =>
          simp only [unused, Bool.false_eq_true, if_false] at unselected
          simp [unselected]
    simp [answered, failed, attempt, Standing.fail, StepCompletion.failed]

end Completion

section Heartbeat

/-- The lease outlives the reading, with the renewals that come before it. -/
def Outlives (renewMs reading : UInt64) : UInt64 → List Clock → Prop
  | expiresAtMs, [] => reading < expiresAtMs
  | expiresAtMs, beat :: rest => beat.call 0 < expiresAtMs ∧
      Outlives renewMs reading ((beat.call 1).saturatingAdd (max renewMs 1)) rest

variable {s : Repository} {claim : StepClaim} {run : RunRecord} {record : StepRecord}
  {worker : WorkerId} {token expiresAtMs reading leaseMs : UInt64}

/-- The lease of the claim is live. -/
theorem validFor_of_live (owner : claim.worker = worker) (same : claim.leaseToken = token)
    (live : reading < expiresAtMs) :
    StepLease.validFor ⟨worker, token, expiresAtMs⟩ claim reading = true := by
  simp [StepLease.validFor, owner, same, live]

/-- Heartbeats within the lease leave the step leased and change nothing else. -/
theorem heartbeat_of_live (claim : StepClaim) (beats : List Clock) (keyed : s.Keyed)
    (sound : s.Every RunRecord.Sound) (found : s.runs[claim.runId]? = some run)
    (foundStep : run.steps[claim.step.id]? = some record)
    (leased : record.lease = some ⟨worker, token, expiresAtMs⟩) (owner : claim.worker = worker)
    (same : claim.leaseToken = token) (live : Outlives leaseMs reading expiresAtMs beats) :
    (s.heartbeat claim leaseMs beats).Keyed ∧
      (s.heartbeat claim leaseMs beats).Every RunRecord.Sound ∧
      ∃ run' expires, (s.heartbeat claim leaseMs beats).runs[claim.runId]? = some run' ∧
        run.Around claim.step.id run' ∧ run'.eventLog = run.eventLog ∧
        run'.steps[claim.step.id]? = some { record with lease := some ⟨worker, token, expires⟩ } ∧
        reading < expires := by
  induction beats generalizing s run record expiresAtMs with
  | nil =>
      refine ⟨keyed, sound, run, expiresAtMs, found, ⟨.refl _, rfl, fun _ _ => rfl⟩, rfl, ?_, live⟩
      rw [foundStep, ← leased]
  | cons beat rest ih =>
      obtain ⟨now, later⟩ := live
      obtain ⟨s', renewed, move⟩ := Repository.renewStep_of_lease s leaseMs beat found foundStep
        leased (validFor_of_live owner same now)
      have step : run.Around claim.step.id (run.setStep claim.step.id { record with
          lease := some ⟨worker, token, (beat.call 1).saturatingAdd (max leaseMs 1)⟩ }).bump :=
        .of_insert _ ⟨rfl, rfl, rfl, rfl⟩ rfl rfl
      have kept := ih (move.keyed keyed) (move.lift (.step move.step) sound)
        ((move.runs _).trans (if_pos rfl)) Std.ExtTreeMap.getElem?_insert_self rfl later
      rw [Repository.heartbeat, renewed]
      obtain ⟨keyed', sound', run', expires, found', around, log, foundStep', live'⟩ := kept
      exact ⟨keyed', sound', run', expires, found', step.trans around, log, foundStep', live'⟩

end Heartbeat

end Orchestrator
