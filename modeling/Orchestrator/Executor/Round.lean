import Orchestrator.Executor.Cycle
import Orchestrator.Model.Topology

/-!
# One round of the durable cycle

A round goes through three kinds of state: the step waits for an attempt, the step
is leased to a claim, the step has ended. `claim_of_waiting`, `record_of_claimed`,
`heartbeat_of_claimed` and `complete_of_claimed` take the store from one to the
next, and `attemptOnce_of_waiting` is the round that they make together.
-/

namespace Orchestrator

open Json (Value)

/-- What the cycle of one step starts from: a running run whose step may be
executed by the worker, with tasks that answer by the script. -/
structure Setting (executor : DurableExecutor) (script : Script) (step : StepSpec)
    (run : RunRecord) : Prop where
  scripted : Scripted executor.registry script step
  running : run.status = .running
  listed : step ∈ run.workflow.steps
  ready : dependenciesSucceeded run step = true
  supported : ∀ (id : TaskId) (task : TaskSpec),
    (id = step.task ∨ step.policy.fallbackTask = some id) → run.manifest.tasks[id]? = some task →
      executor.options.worker.supportsTask task step.policy = true

/-- The clock of a claim is past the backoff of the step, and no step before it in
the workflow is claimed instead. -/
structure Due (run : RunRecord) (worker : WorkerProfile) (step : StepSpec) (clock : Clock) :
    Prop where
  past : ∀ (record : StepRecord) (next : UInt64), run.steps[step.id]? = some record →
    record.nextAttemptAtMs = some next → next ≤ clock.step run.runId step.id
  first : ∀ before after, run.workflow.steps = before ++ step :: after → ∀ other ∈ before,
    claimCandidate run worker (clock.step run.runId other.id) other = none

/-- The lease of a round outlives it, with the renewals made meanwhile. -/
def DurableExecutor.Live (executor : DurableExecutor) (tick : DurableExecutor.Tick) : Prop :=
  Outlives (executor.heartbeatInterval.saturatingMul 3) (tick.complete.call 0)
    ((tick.claim.call 0).saturatingAdd (max executor.options.leaseMs 1)) tick.pace.beats

/-- The record of a step that waits for an attempt. -/
inductive Waits (run : RunRecord) (step : StepSpec) (p : Standing) : Prop where
  | unstarted (absent : run.steps[step.id]? = none) (same : p = .start step)
  | retrying {record : StepRecord} (found : run.steps[step.id]? = some record)
      (status : record.status = .retrying) (unleased : record.lease = none)
      (task : record.task = p.task) (used : record.fallbackUsed = p.fallbackUsed)
      (attempts : record.attempts = p.attempts)

/-- The step waits in the stored run for the attempt after the standing. `start` is
the run from which the cycle started. -/
structure Waiting (step : StepSpec) (start : RunRecord) (p : Standing) (s : Repository)
    (run : RunRecord) : Prop where
  keyed : s.Keyed
  sound : s.Every RunRecord.Sound
  found : s.runs[start.runId]? = some run
  around : start.Around step.id run
  logged : run.stepEvents step.id = p.events
  waits : Waits run step p

/-- The step is leased to the claim for the attempt after the standing. -/
structure Claimed (step : StepSpec) (start : RunRecord) (p : Standing)
    (events : List ExecutionEvent) (claim : StepClaim) (expiresAtMs : UInt64) (s : Repository)
    (run : RunRecord) (record : StepRecord) : Prop where
  keyed : s.Keyed
  sound : s.Every RunRecord.Sound
  found : s.runs[start.runId]? = some run
  around : start.Around step.id run
  logged : run.stepEvents step.id = events
  foundStep : run.steps[step.id]? = some record
  status : record.status = .running
  task : record.task = p.task
  used : record.fallbackUsed = p.fallbackUsed
  attempts : record.attempts = p.attempts.saturatingAdd 1
  leased : record.lease = some ⟨claim.worker, claim.leaseToken, expiresAtMs⟩
  runId : claim.runId = start.runId
  same : claim.step = step
  claimTask : claim.task.id = p.task
  attempt : claim.attempt = record.attempts
  claimUsed : claim.fallbackUsed = p.fallbackUsed

/-- The stored run holds the step's ending. -/
structure Ended (step : StepSpec) (start : RunRecord) (e : Ending) (s : Repository)
    (run : RunRecord) (record : StepRecord) : Prop where
  found : s.runs[start.runId]? = some run
  foundStep : run.steps[step.id]? = some record
  status : record.status = e.status
  task : record.task = e.task
  used : record.fallbackUsed = e.fallbackUsed
  attempts : record.attempts = e.attempts
  output : record.output = e.output
  error : record.error = e.error
  logged : run.stepEvents step.id = e.events

section Claim

variable {executor : DurableExecutor} {script : Script} {step : StepSpec} {start run : RunRecord}
  {p : Standing} {s : Repository} {clock : Clock}

/-- The dependencies of the step stay done. -/
theorem RunRecord.Around.ready (around : start.Around step.id run)
    (apart : step.id ∉ step.dependsOn)
    (ready : dependenciesSucceeded start step = true) : dependenciesSucceeded run step = true := by
  rw [dependenciesSucceeded, List.all_eq_true] at ready ⊢
  intro dependency named
  rw [around.others dependency fun same => apart (same ▸ named)]
  exact ready dependency named

/-- The candidate of a step that waits. -/
theorem candidate_of_waiting (setting : Setting executor script step start)
    (waiting : Waiting step start p s run) (stands : p.Stands script step)
    (due : Due run executor.options.worker step clock) :
    ∃ task, run.manifest.tasks[p.task]? = some task ∧ task.id = p.task ∧
      claimCandidate run executor.options.worker (clock.step run.runId step.id) step =
        some (step, p.task, dependencyOutputs run step) := by
  have sound := waiting.sound _ _ waiting.found
  have listed : step ∈ run.workflow.steps := by
    rw [waiting.around.same.workflow]
    exact setting.listed
  have own : p.task = step.task ∨ step.policy.fallbackTask = some p.task := by
    cases used : p.fallbackUsed with
    | false => exact .inl (stands.primary used).1
    | true => exact .inr (stands.fallback used).1
  have known : ∃ task, run.manifest.tasks[p.task]? = some task := by
    obtain own | selected := own
    · rw [own]
      exact sound.accepted.tasks step listed
    · exact sound.accepted.fallbacks step listed _ selected
  obtain ⟨task, known⟩ := known
  have selected : selectedTask run step = p.task := by
    cases waiting.waits with
    | unstarted absent same =>
        rw [selectedTask, absent, same]
        rfl
    | retrying found status unleased task used attempts => rw [selectedTask, found, ← task]
  have available : stepAvailable run.steps[step.id]? step (clock.step run.runId step.id) =
      true := by
    cases waiting.waits with
    | unstarted absent same =>
        rw [absent]
        rfl
    | @retrying record found status unleased task used attempts =>
        have past : record.nextAttemptAtMs.all
            (fun next => decide (next ≤ clock.step run.runId step.id)) = true := by
          cases scheduled : record.nextAttemptAtMs with
          | none => rfl
          | some next => simpa using due.past record next found scheduled
        have left : record.attempts < step.policy.retry.budget ∨
            record.fallbackUsed = true ∧ record.attempts = step.policy.retry.budget := by
          rw [attempts, used, UInt32.lt_iff_toNat_lt]
          exact stands.left
        rw [found]
        simp only [stepAvailable, Option.all_some, unleased, status, past, Option.isNone_none,
          Bool.and_eq_true, Bool.or_eq_true, decide_eq_true_eq, beq_iff_eq, and_true, true_and]
        exact ⟨.inr trivial, left⟩
  refine ⟨task, known, sound.accepted.keyed _ _ known, ?_⟩
  refine Repository.claimCandidate_eq_some.mpr ⟨rfl, selected.symm, rfl,
    ⟨task, ?_, ?_⟩, ?_, available⟩
  · rw [selected]
    exact known
  · rw [waiting.around.same.manifest] at known
    exact setting.supported _ _ own known
  · exact waiting.around.ready (WorkflowSpec.not_dependsOn_self sound.accepted.valid listed)
      setting.ready

/-- The first candidate of the run is the step that is due. -/
theorem chosen_of_due {worker : WorkerProfile}
    {candidate : StepSpec × TaskId × BTreeMap String Value}
    (due : Due run worker step clock) (listed : step ∈ run.workflow.steps)
    (granted : claimCandidate run worker (clock.step run.runId step.id) step = some candidate) :
    run.workflow.steps.findSome? (fun step =>
      claimCandidate run worker (clock.step run.runId step.id) step) = some candidate := by
  obtain ⟨before, after, split⟩ := List.append_of_mem listed
  have none : before.findSome? (fun step =>
      claimCandidate run worker (clock.step run.runId step.id) step) = none := by
    rw [List.findSome?_eq_none_iff]
    exact due.first before after split
  rw [split, List.findSome?_append, none, List.findSome?_cons, granted]
  rfl

/-- The worker claims the step that waits. -/
theorem claim_of_waiting (setting : Setting executor script step start)
    (waiting : Waiting step start p s run) (stands : p.Stands script step)
    (due : Due run executor.options.worker step clock) :
    ∃ claim s' run' record, s.claimNextStep start.runId executor.options.worker
        executor.options.leaseMs clock = (.ok (some claim), s') ∧
      Claimed step start p p.events claim
        ((clock.call 0).saturatingAdd (max executor.options.leaseMs 1)) s' run' record := by
  obtain ⟨task, known, named, granted⟩ := candidate_of_waiting setting waiting stands due
  have same := waiting.around.same
  have listed : step ∈ run.workflow.steps := same.workflow ▸ setting.listed
  have chosen := chosen_of_due due listed granted
  rw [same.runId] at chosen
  obtain ⟨record, claim, s', hrecord, hclaim, claimed, move⟩ :=
    Repository.claimNextStep_of_candidate s waiting.keyed executor.options.leaseMs clock
      waiting.found (waiting.around.status.trans setting.running) chosen known
  have entry : (run.entry step.id p.task).attempts = p.attempts ∧
      (run.entry step.id p.task).fallbackUsed = p.fallbackUsed := by
    cases waiting.waits with
    | unstarted absent same =>
        rw [RunRecord.entry, absent, same]
        exact ⟨rfl, rfl⟩
    | retrying found status unleased task used attempts =>
        rw [RunRecord.entry, found]
        exact ⟨attempts, used⟩
  have attempts : record.attempts = p.attempts.saturatingAdd 1 := by
    rw [hrecord, ← entry.1]
    rfl
  have used : record.fallbackUsed = p.fallbackUsed := by
    rw [hrecord, ← entry.2]
    rfl
  refine ⟨claim, s', (run.setStep step.id record).bump, record, claimed, ?_⟩
  subst hclaim
  exact
    { keyed := move.keyed waiting.keyed
      sound := move.lift (.step move.step) waiting.sound
      found := (move.runs _).trans (if_pos rfl)
      around := waiting.around.trans (.of_insert _ move.step.sameRequest rfl rfl)
      logged := waiting.logged
      foundStep := Std.ExtTreeMap.getElem?_insert_self
      status := by rw [hrecord]; rfl
      task := by rw [hrecord]; rfl
      used
      attempts
      leased := by rw [hrecord]; rfl
      runId := same.runId
      same := rfl
      claimTask := named
      attempt := rfl
      claimUsed := used }

end Claim

section Leased

variable {executor : DurableExecutor} {script : Script} {step : StepSpec} {start run : RunRecord}
  {p : Standing} {events : List ExecutionEvent} {claim : StepClaim} {expiresAtMs : UInt64}
  {s : Repository} {record : StepRecord}

/-- The start of an attempt is recorded once. -/
theorem stepStarted_valid_iff {runId : RunId} {id : StepId} {task : TaskId} {attempt : UInt32}
    (own : run.runId = runId) (running : run.status = .running)
    (found : run.steps[id]? = some record) (status : record.status = .running)
    (selected : record.task = task) (attempts : record.attempts = attempt) :
    eventIsValidForRecord run (.stepStarted runId id task attempt) = true ↔
      ∀ other task, .stepStarted other id task attempt ∉ run.stepEvents id := by
  simp only [eventIsValidForRecord, ExecutionEvent.runId, own, bne_self_eq_false, found, running,
    status, selected, attempts, beq_self_eq_true, Bool.true_and, alreadyLogged,
    Bool.false_eq_true, if_false, Bool.not_eq_true', List.any_eq_false, Bool.not_eq_true]
  constructor
  · intro unlogged other task member
    obtain ⟨logged, about⟩ := List.mem_filter.mp member
    obtain ⟨envelope, member, same⟩ := List.mem_map.mp logged
    have fresh := unlogged envelope member
    rw [same] at fresh
    simp at fresh
  · intro unlogged envelope member
    split
    next other eventStep task eventAttempt same =>
      rw [Bool.eq_false_iff]
      intro matched
      simp only [Bool.and_eq_true, beq_iff_eq] at matched
      obtain ⟨rfl, rfl⟩ := matched
      refine unlogged other task (List.mem_filter.mpr ⟨List.mem_map.mpr
        ⟨envelope, member, same⟩, ?_⟩)
      simp [ExecutionEvent.stepId?]
    · rfl

/-- The start of the attempt is recorded while attempts can be counted. -/
theorem record_of_claimed (setting : Setting executor script step start)
    (claimed : Claimed step start p p.events claim expiresAtMs s run record)
    (stands : p.Stands script step) (counted : p.attempts.toNat < UInt32.maxNat) (clock : Clock) :
    ∃ envelope s' run', s.recordEvent claim.runId
        (.stepStarted claim.runId claim.step.id claim.task.id claim.attempt) clock =
          (.ok envelope, s') ∧
      Claimed step start p (p.started start.runId step) claim expiresAtMs s' run' record := by
  have next := UInt32.toNat_add_one counted
  have attempts : record.attempts = p.attempts + 1 := by
    rw [claimed.attempts, UInt32.saturatingAdd_one counted]
  have valid := (stepStarted_valid_iff (claimed.around.same.runId)
    (claimed.around.status.trans setting.running) claimed.foundStep claimed.status claimed.task
    attempts).mpr (fun other task member => by
      rw [claimed.logged] at member
      have bound := stands.started _ member _ _ _ _ rfl
      omega)
  obtain ⟨sequence, s', recorded, move⟩ :=
    Repository.recordEvent_of_valid s claimed.keyed clock claimed.found valid
  refine ⟨eventEnvelope start.runId sequence
    (.stepStarted start.runId step.id p.task (p.attempts + 1)) (clock.call 0), s',
    run.logged (.stepStarted start.runId step.id p.task (p.attempts + 1)) sequence (clock.call 0),
    ?_, ?_⟩
  · rw [claimed.runId, claimed.same, claimed.claimTask, claimed.attempt, attempts]
    exact recorded
  · exact { claimed with
      keyed := move.keyed claimed.keyed
      sound := move.lift (.step move.step) claimed.sound
      found := (move.runs _).trans (if_pos rfl)
      around := claimed.around.trans ⟨move.step.sameRequest, rfl, fun _ _ => rfl⟩
      logged := by rw [RunRecord.stepEvents_logged _ _ _ _ rfl, claimed.logged]; rfl
      foundStep := claimed.foundStep }

/-- At the largest counter the start of the attempt is taken for a repetition. -/
theorem record_of_full (setting : Setting executor script step start)
    (claimed : Claimed step start p p.events claim expiresAtMs s run record)
    (stands : p.Stands script step) (full : p.attempts.toNat = UInt32.maxNat) (clock : Clock) :
    ∃ error, s.recordEvent claim.runId
        (.stepStarted claim.runId claim.step.id claim.task.id claim.attempt) clock =
          (.error error, s) := by
  have attempts : record.attempts = p.attempts := by
    rw [claimed.attempts]
    apply UInt32.toNat_inj.mp
    rw [UInt32.toNat_saturatingAdd]
    omega
  have logged : p.attempts ≠ 0 := by
    intro zero
    rw [zero] at full
    simp [UInt32.maxNat] at full
  obtain ⟨other, task, member⟩ := stands.last logged
  have invalid : eventIsValidForRecord run
      (.stepStarted start.runId step.id p.task p.attempts) = false := by
    rw [Bool.eq_false_iff]
    intro valid
    refine (stepStarted_valid_iff (claimed.around.same.runId)
      (claimed.around.status.trans setting.running) claimed.foundStep claimed.status claimed.task
      attempts).mp valid other task ?_
    rw [claimed.logged]
    exact member
  refine ⟨.invalidEvent start.runId, ?_⟩
  rw [claimed.runId, claimed.same, claimed.claimTask, claimed.attempt, attempts]
  simp [Repository.recordEvent, claimed.found, invalid]

/-- The heartbeats leave the step leased. -/
theorem heartbeat_of_claimed {leaseMs reading : UInt64} {beats : List Clock}
    (claimed : Claimed step start p events claim expiresAtMs s run record)
    (live : Outlives leaseMs reading expiresAtMs beats) :
    ∃ run' record' expires, reading < expires ∧ Claimed step start p events claim expires
      (s.heartbeat claim leaseMs beats) run' record' := by
  obtain ⟨keyed, sound, run', expires, found, around, log, foundStep, alive⟩ :=
    heartbeat_of_live claim beats claimed.keyed claimed.sound
      (claimed.runId ▸ claimed.found) (claimed.same ▸ claimed.foundStep) claimed.leased rfl rfl live
  rw [claimed.runId] at found
  rw [claimed.same] at around foundStep
  exact ⟨run', _, expires, alive,
    { claimed with
      keyed, sound, found, foundStep
      around := claimed.around.trans around
      logged := by rw [RunRecord.stepEvents, log]; exact claimed.logged
      leased := rfl }⟩

/-- The claim is for the attempt after the standing. -/
theorem Claimed.next (claimed : Claimed step start p events claim expiresAtMs s run record)
    (counted : p.attempts.toNat < UInt32.maxNat) : claim.Next start.runId step p :=
  ⟨claimed.runId, claimed.same,
    by rw [claimed.attempt, claimed.attempts, UInt32.saturatingAdd_one counted], claimed.claimUsed⟩

/-- The completion of the attempt is committed. -/
theorem complete_of_claimed (setting : Setting executor script step start)
    (claimed : Claimed step start p events claim expiresAtMs s run record) (clock : Clock)
    (live : clock.call 0 < expiresAtMs) (result : Except TaskError Value) :
    ∃ run' s' record', s.completeStep claim (claim.completion result) clock = (.ok run', s') ∧
      s'.Keyed ∧ s'.Every RunRecord.Sound ∧ s'.runs[start.runId]? = some run' ∧
      start.Around step.id run' ∧ run'.steps[step.id]? = some record' ∧
      record' = record.complete (claim.completion result) (clock.call 1) (clock.call 2) ∧
      run'.stepEvents step.id = events ++ [(claim.completion result).event] := by
  have found : s.runs[claim.runId]? = some run := claimed.runId ▸ claimed.found
  have foundStep : run.steps[claim.step.id]? = some record := claimed.same ▸ claimed.foundStep
  have commits : Commits claim run.manifest (claim.completion result) := by
    refine claim.completion_commits (fun task selected => ?_) result
    rw [claimed.same] at selected
    have sound := claimed.sound _ _ claimed.found
    refine BTreeMap.contains_iff.mpr (sound.accepted.fallbacks step ?_ task selected)
    rw [claimed.around.same.workflow]
    exact setting.listed
  obtain ⟨sequence, run', s', hrun', completed, move⟩ :=
    Repository.completeStep_of_lease s claimed.keyed claim (claim.completion result) clock found
      foundStep claimed.leased
      (validFor_of_live rfl rfl live) (completionMatchesClaim_iff.mpr commits)
  have about : (claim.completion result).event.stepId? = some step.id :=
    claimed.same ▸ commits.stepId?
  refine ⟨run', s', _, completed, move.keyed claimed.keyed,
    move.lift (.step move.step) claimed.sound, ?_, ?_, ?_, rfl, ?_⟩
  · rw [move.runs, if_pos claimed.runId]
  · refine claimed.around.trans (.of_insert
      (record.complete (claim.completion result) (clock.call 1) (clock.call 2))
      move.step.sameRequest ?_ ?_)
    · rw [hrun', RunRecord.logged_status, RunRecord.commit_status]
    · rw [hrun', RunRecord.logged_steps, RunRecord.commit_steps, claimed.same]
  · rw [hrun', RunRecord.logged_steps, RunRecord.commit_steps, claimed.same]
    exact Std.ExtTreeMap.getElem?_insert_self
  · rw [hrun', RunRecord.stepEvents_logged _ _ _ _ about, ← claimed.logged, RunRecord.stepEvents,
      RunRecord.commit_eventLog]
    rfl

end Leased

section Round

variable {executor : DurableExecutor} {script : Script} {step : StepSpec} {start run : RunRecord}
  {p : Standing} {s : Repository} {tick : DurableExecutor.Tick}

/-- A round makes the attempt of the machine and commits what it comes to. -/
theorem attemptOnce_of_waiting (tick : DurableExecutor.Tick)
    (setting : Setting executor script step start)
    (waiting : Waiting step start p s run) (stands : p.Stands script step)
    (due : Due run executor.options.worker step tick.claim) (live : executor.Live tick)
    (counted : p.attempts.toNat < UInt32.maxNat) :
    ∃ s' run', executor.attemptOnce s start.runId tick = some s' ∧
      ((∃ p', p.attempt script start.runId step = .inl p' ∧ Waiting step start p' s' run') ∨
        ∃ e record, p.attempt script start.runId step = .inr e ∧
          Ended step start e s' run' record) := by
  obtain ⟨claim, s₁, run₁, record₁, handed, claimed⟩ :=
    claim_of_waiting setting waiting stands due
  obtain ⟨envelope, s₂, run₂, recorded, started⟩ :=
    record_of_claimed setting claimed stands counted tick.pace.start
  obtain ⟨task, registered, answers⟩ := stands.scripted setting.scripted
  obtain ⟨run₃, record₃, expires, alive, leased⟩ := heartbeat_of_claimed started live
  have next := leased.next counted
  obtain ⟨run₄, s₄, record₄, completed, keyed, sound, found, around, foundStep, hrecord, logged⟩ :=
    complete_of_claimed setting leased tick.complete alive (script p.task (p.attempts + 1))
  refine ⟨s₄, run₄, ?_, ?_⟩
  · have timeout : claim.step.policy.timeoutMs = step.policy.timeoutMs := by rw [claimed.same]
    have executed : executor.executeClaim s₁ claim tick.pace =
        (.ok (claim.completion (script p.task (p.attempts + 1))),
          s₂.heartbeat claim (executor.heartbeatInterval.saturatingMul 3) tick.pace.beats) := by
      rw [DurableExecutor.executeClaim, recorded]
      simp only [claimed.claimTask, registered, timeout, answers, next.attempt]
    simp only [DurableExecutor.attemptOnce, handed, executed, completed]
  · cases attempted : p.attempt script start.runId step with
    | inl p' =>
        obtain ⟨status, task, used, attempts, events⟩ := next.completion_inl attempted
        refine .inl ⟨p', rfl, ⟨keyed, sound, found, around, logged.trans events.symm, ?_⟩⟩
        refine .retrying foundStep ?_ ?_ ?_ ?_ ?_
        · rw [hrecord]
          exact status
        · rw [hrecord]
          rfl
        · rw [← task, hrecord, ← leased.task]
          rfl
        · rw [← used, hrecord, ← leased.used]
          rfl
        · rw [attempts, ← UInt32.saturatingAdd_one counted, ← leased.attempts, hrecord]
          rfl
    | inr e =>
        obtain ⟨status, task, used, attempts, output, error, events⟩ :=
          next.completion_inr attempted
        refine .inr ⟨e, record₄, rfl, found, foundStep, ?_, ?_, ?_, ?_, ?_, ?_, ?_⟩
        · rw [hrecord]
          exact status
        · rw [← task, hrecord, ← leased.task]
          rfl
        · rw [← used, hrecord, ← leased.used]
          rfl
        · rw [attempts, ← UInt32.saturatingAdd_one counted, ← leased.attempts, hrecord]
          rfl
        · rw [hrecord]
          exact output
        · rw [hrecord]
          exact error
        · exact logged.trans events.symm

/-- With the counter at its largest value a round fails. -/
theorem attemptOnce_of_full (setting : Setting executor script step start)
    (waiting : Waiting step start p s run) (stands : p.Stands script step)
    (due : Due run executor.options.worker step tick.claim)
    (full : p.attempts.toNat = UInt32.maxNat) :
    executor.attemptOnce s start.runId tick = none := by
  obtain ⟨claim, s₁, run₁, record₁, handed, claimed⟩ :=
    claim_of_waiting setting waiting stands due
  obtain ⟨error, rejected⟩ := record_of_full setting claimed stands full tick.pace.start
  simp only [DurableExecutor.attemptOnce, handed, DurableExecutor.executeClaim, rejected]

end Round

end Orchestrator
