import Orchestrator.Executor.Worker
import Orchestrator.Repository.Budget
import Orchestrator.Repository.Sweep

/-!
# An expired lease is a reported failure

What becomes of a step after a failure is decided twice: by recovery, on the record of a
step whose lease ran out, and by the worker, on its claim, when it reports a retryable
error. While workers commit what they build, a leased record has no output, and the last
claim of the step has the attempt and the flag of the record. So recovery comes to the
same run as a report of the error that recovery writes, up to the time that the report
sets for the next attempt and to the revision.
-/

namespace Orchestrator

open Json (Value)

/-- The completion that a worker builds for an error, by whether it is retried and its
text. -/
def StepClaim.failureCompletion (claim : StepClaim) (retryable : Bool) (text : String) :
    StepCompletion :=
  if retryable && decide (claim.attempt < claim.step.policy.retry.budget) then
    (StepCompletion.retrying claim.runId claim.step.id claim.attempt text).withRetryAfterMs
      (claim.step.policy.retry.delay.forAttempt claim.attempt)
  else if !claim.fallbackUsed then
    match claim.step.policy.fallbackTask with
    | some fallback => .fallback claim.runId claim.step.id fallback text
    | none => .failed claim.runId claim.step.id claim.attempt text
  else .failed claim.runId claim.step.id claim.attempt text

theorem StepClaim.failureCompletion_commits (claim : StepClaim) {manifest : RunManifest}
    (known : ∀ task, claim.step.policy.fallbackTask = some task →
      manifest.tasks.contains task = true) (text : String) :
    Commits claim manifest (claim.failureCompletion true text) := by
  simp only [failureCompletion, Bool.true_and, decide_eq_true_eq]
  split
  next below => exact .retrying text [] _ below
  next =>
    split
    next unused =>
      split
      next task selected =>
        exact .fallback task text [] (by simpa using unused) selected (known task selected)
      next unset => exact .failed text [] (.inr unset)
    next used => exact .failed text [] (.inl (by simpa using used))

/-- What workers build has an output for a success only, and no artifacts. -/
theorem StepClaim.completion_plain (claim : StepClaim) (result : Except TaskError Value) :
    (claim.completion result).artifacts = [] ∧
      ((claim.completion result).status ≠ .succeeded → (claim.completion result).output = none) := by
  cases result with
  | ok output => exact ⟨rfl, fun other => absurd rfl other⟩
  | error error =>
      simp only [completion]
      split
      · exact ⟨rfl, fun _ => rfl⟩
      · split
        · split
          · exact ⟨rfl, fun _ => rfl⟩
          · exact ⟨rfl, fun _ => rfl⟩
        · exact ⟨rfl, fun _ => rfl⟩

/-- Completions are what a worker builds for some answer. -/
def Built (action : RunAction) (_run : RunRecord) : Prop :=
  ∀ claim completion, action = .complete claim completion →
    ∃ result, completion = claim.completion result

/-- A history whose completions workers have built. -/
def WorkerBuilt (ops : List Op) : Prop :=
  ∀ (claim : StepClaim) (completion : StepCompletion) (clock : Clock),
    .completeStep claim completion clock ∈ ops → ∃ result, completion = claim.completion result

theorem WorkerBuilt.guarded {ops : List Op} (built : WorkerBuilt ops) :
    Guarded (fun _ => Built) ops := by
  rintro pre op k _ run run' within performs move claim completion rfl
  cases op with
  | completeStep presented committed clock =>
      obtain ⟨rfl, rfl, -⟩ := performs
      exact built _ _ clock (within.subset (List.mem_append_right _ (List.mem_singleton_self _)))
  | _ => cases performs

/-- Records have no artifacts, and an output only when they succeeded. -/
def RunRecord.Unburdened (run : RunRecord) : Prop :=
  ∀ (id : StepId) (record : StepRecord), run.steps[id]? = some record →
    record.artifacts = [] ∧ (record.status ≠ .succeeded → record.output = none)

theorem RunRecord.Unburdened.step {token : UInt64} {action : RunAction} {run run' : RunRecord}
    (plain : run.Unburdened) (move : RunStep token action run run') (sound : run.Sound)
    (built : Built action run) : run'.Unburdened := by
  intro id record' found'
  obtain kept | changed := move.record_cases found'
  · exact plain id record' kept
  · cases changed with
    | @claim step taskId task dependencies worker seen now leaseMs running listed candidate =>
        obtain ⟨-, -, -, -, -, available⟩ := Repository.claimCandidate_eq_some.mp candidate
        cases found : run.steps[step.id]? with
        | none => simp [RunRecord.claimed, RunRecord.entry, found, StepRecord.new, StepRecord.claim]
        | some record =>
            obtain ⟨artifacts, output⟩ := plain _ _ found
            have waits : record.status ≠ .succeeded := by
              intro succeeded
              simp [stepAvailable, found, succeeded] at available
            simp only [RunRecord.claimed, RunRecord.entry, found, Option.getD_some,
              StepRecord.claim]
            exact ⟨artifacts, fun _ => output waits⟩
    | renew claim now again leaseMs found =>
        have old := plain _ _ found
        exact old
    | complete claim completion now retryNow finishNow found =>
        obtain ⟨result, rfl⟩ := built claim completion rfl
        exact claim.completion_plain result
    | cancel id now found active =>
        obtain ⟨artifacts, output⟩ := plain _ _ found
        unfold StepRecord.cancel
        split
        · exact ⟨artifacts, output⟩
        next unsettled =>
          refine ⟨artifacts, fun _ => output fun succeeded => unsettled ?_⟩
          rw [succeeded]
          rfl
    | recover now listed found expired =>
        obtain ⟨artifacts, output⟩ := plain _ _ found
        obtain ⟨⟨lease, leased, -⟩, recovers⟩ := recoverExpiredStep_eq_some expired
        have running := (sound.records _ _ found).leased.mp (by rw [leased]; rfl)
        have none := output (by rw [running]; exact StepStatus.noConfusion)
        cases recovers <;> exact ⟨artifacts, fun _ => none⟩

theorem built_recover (id : StepId) (run : RunRecord) : Built (.recover id) run :=
  fun _ _ recovery => nomatch recovery

theorem unburdened_after {ops : List Op} (built : WorkerBuilt ops) :
    (repository.after ops).Every RunRecord.Unburdened := by
  refine run_invariant ?_ (fun move sound built plain => plain.step move sound built)
    built_recover ops built.guarded
  intro request now sequence eventNow _ id record found
  simp [RunRecord.created, RunRecord.new] at found

/-- The claim that was handed out last for a step. -/
def lastClaim (claims : List StepClaim) (k : RunId) (id : StepId) : Option StepClaim :=
  (claims.filter fun claim => claim.runId = k ∧ claim.step.id = id).getLast?

/-- The claim was handed out for the step as the record stands, with its lease. -/
structure Holds (claim : StepClaim) (run : RunRecord) (record : StepRecord) (lease : StepLease) :
    Prop where
  token : claim.leaseToken = lease.token
  worker : claim.worker = lease.worker
  mirrors : Mirrors claim run record

/-- Every lease is held by the last claim of its step. -/
def LastHolds (claims : List StepClaim) (s : Repository) : Prop :=
  ∀ (k : RunId) (run : RunRecord) (id : StepId) (record : StepRecord) (lease : StepLease),
    s.runs[k]? = some run → run.steps[id]? = some record → record.lease = some lease →
      ∃ claim, lastClaim claims k id = some claim ∧ claim.runId = k ∧ claim.step.id = id ∧
        Holds claim run record lease

theorem lastClaim_concat (claims : List StepClaim) (handed : StepClaim) (k : RunId) (id : StepId) :
    lastClaim (claims ++ [handed]) k id =
      if handed.runId = k ∧ handed.step.id = id then some handed else lastClaim claims k id := by
  rw [lastClaim, List.filter_append, List.filter_singleton]
  by_cases own : handed.runId = k ∧ handed.step.id = id
  · simp [own]
  · simp [own, lastClaim]

/-- A step is claimed only while it holds no lease. -/
theorem RunStep.claim_unleased {token : UInt64} {claim : StepClaim} {run run' : RunRecord}
    (h : RunStep token (.claim claim) run run') : run.StepUnleased claim.step.id := by
  cases h with
  | @claim _ step taskId task dependencies worker seen now leaseMs running listed candidate =>
      intro record found
      obtain ⟨-, -, -, -, -, available⟩ := Repository.claimCandidate_eq_some.mp candidate
      change run.steps[step.id]? = some record at found
      rw [found, stepAvailable, Option.all_some, Bool.and_eq_true, Bool.and_eq_true,
        Bool.and_eq_true] at available
      exact Option.isNone_iff_eq_none.mp available.1.1.1

/-- The last claim of a step that this change does not claim. -/
theorem lastClaim_issued {claims : List StepClaim} {action : RunAction} {k : RunId} {id : StepId}
    (other : ∀ handed, action = .claim handed → ¬ (handed.runId = k ∧ handed.step.id = id)) :
    lastClaim (claims ++ action.issued) k id = lastClaim claims k id := by
  cases action with
  | claim handed =>
      rw [RunAction.issued, lastClaim_concat, if_neg (other handed rfl)]
  | _ => exact congrArg (lastClaim · k id) (List.append_nil _)

/-- What a change makes of a held lease. -/
theorem RunStep.holds {token : UInt64} {action : RunAction} {run run' : RunRecord}
    (h : RunStep token action run run') {id : StepId} {record' : StepRecord} {lease' : StepLease}
    (found : run'.steps[id]? = some record') (leased : record'.lease = some lease') :
    (∃ claim, action = .claim claim ∧ claim.runId = run.runId ∧ claim.step.id = id ∧
      Holds claim run' record' lease') ∨
    (∀ handed, action = .claim handed → handed.step.id ≠ id) ∧
      ∃ record lease, run.steps[id]? = some record ∧ record.lease = some lease ∧
        ∀ claim, Holds claim run record lease → Holds claim run' record' lease' := by
  have workflow := h.sameRequest.workflow
  obtain kept | changed := h.record_cases found
  · refine .inr ⟨?_, record', lease', kept, leased, fun claim holds => ?_⟩
    · rintro handed rfl rfl
      have unleased := h.claim_unleased record' kept
      rw [leased] at unleased
      cases unleased
    · exact ⟨holds.token, holds.worker, workflow ▸ holds.mirrors.listed, holds.mirrors.attempt,
        holds.mirrors.fallbackUsed⟩
  · cases changed with
    | claim worker seen now leaseMs running listed =>
        obtain rfl := Option.some.inj leased
        exact .inl ⟨_, rfl, rfl, rfl, rfl, rfl, workflow ▸ listed, rfl, rfl⟩
    | renew claim now again leaseMs before held =>
        obtain rfl := Option.some.inj leased
        refine .inr ⟨(fun handed same => nomatch same), _, _, before, held, fun claim holds => ?_⟩
        exact ⟨holds.token, holds.worker, workflow ▸ holds.mirrors.listed, holds.mirrors.attempt,
          holds.mirrors.fallbackUsed⟩
    | complete => cases leased
    | cancel id now before active =>
        unfold StepRecord.cancel at leased
        split at leased
        next settled =>
          refine .inr ⟨(fun handed same => nomatch same), _, _, before, leased,
            fun claim holds => ?_⟩
          rw [StepRecord.cancel, if_pos settled]
          exact ⟨holds.token, holds.worker, workflow ▸ holds.mirrors.listed,
            holds.mirrors.attempt, holds.mirrors.fallbackUsed⟩
        · cases leased
    | recover now listed before expired =>
        cases (recoverExpiredStep_eq_some expired).2 <;> cases leased

theorem lastHolds_kept : Kept (fun _ _ _ => True) LastHolds where
  free _ _ _ := trivial
  create request now sequence eventNow accepted creation holds := by
    intro k run id record lease found foundStep leased
    rw [creation.runs] at found
    split at found
    · obtain rfl := Option.some.inj found
      simp [RunRecord.created, RunRecord.new] at foundStep
    · exact holds k run id record lease found foundStep leased
  move {C s k action run run' s'} keyed sound move _ holds := by
    intro k' other id record' lease' found foundStep leased
    rw [move.runs] at found
    split at found
    next own =>
      subst own
      obtain rfl := Option.some.inj found
      obtain ⟨claim, rfl, runId, stepId, held⟩ | ⟨unclaimed, record, lease, before, held, carry⟩ :=
        move.step.holds foundStep leased
      · have runId := runId.trans (move.own keyed)
        refine ⟨claim, ?_, runId, stepId, held⟩
        rw [RunAction.issued, lastClaim_concat, if_pos ⟨runId, stepId⟩]
      · obtain ⟨claim, last, runId, stepId, holds⟩ := holds k run id record lease move.found
          before held
        refine ⟨claim, ?_, runId, stepId, carry claim holds⟩
        rw [lastClaim_issued fun handed same both => unclaimed handed same both.2]
        exact last
    next other =>
      obtain ⟨claim, last, runId, stepId, holds⟩ := holds k' _ id record' lease' found foundStep
        leased
      refine ⟨claim, ?_, runId, stepId, holds⟩
      rw [lastClaim_issued]
      · exact last
      · rintro handed rfl ⟨own, -⟩
        have same := move.step.claim_fields.2.trans (move.own keyed)
        exact other (same.symm.trans own)

theorem lastHolds_after (ops : List Op) : LastHolds (issued ops) (repository.after ops) :=
  lastHolds_kept.after
    (by intro k run id record lease found; simp [Repository.empty] at found) ops (guarded_true ops)

theorem RunRecord.setStep_setStep (run : RunRecord) (id : StepId) (record record' : StepRecord) :
    (run.setStep id record).setStep id record' = run.setStep id record' := by
  simp only [setStep, BTreeMap.insert_insert]

/-! What recovery and a report of the failure have in common. -/

/-- The record without the time of its next attempt. -/
def StepRecord.plain (record : StepRecord) : StepRecord := { record with nextAttemptAtMs := none }

/-- The run without its revision and the times of next attempts. -/
def RunRecord.plain (run : RunRecord) : RunRecord :=
  { run with revision := 0, steps := run.steps.map fun _ record => record.plain }

/-- The repository, all runs without their revisions and the times of next attempts. -/
def Repository.plain (s : Repository) : Repository :=
  { s with runs := s.runs.map fun _ run => run.plain }

/-- Recovery leaves the record, and logs the event, that a report of the error of
recovery would leave and log at the same time. -/
theorem recovered_eq_reported {k : RunId} {step : StepSpec} {record recovered : StepRecord}
    {event : ExecutionEvent} {now : UInt64}
    (expired : recoverExpiredStep k step record now = some (recovered, event))
    {claim : StepClaim} (own : claim.runId = k) (same : claim.step = step)
    (named : record.id = step.id) (attempt : claim.attempt = record.attempts)
    (fallbackUsed : claim.fallbackUsed = record.fallbackUsed) (output : record.output = none)
    (artifacts : record.artifacts = []) (lease : Option StepLease) (retryNow : UInt64) :
    recovered = ({ record with lease }.complete
        (claim.failureCompletion true leaseExpiredError) retryNow now).plain ∧
      event = (claim.failureCompletion true leaseExpiredError).event ∧
      recovered.error.isSome = true := by
  subst own same
  obtain ⟨-, recovers⟩ := recoverExpiredStep_eq_some expired
  cases recovers with
  | retrying below =>
      simp [StepClaim.failureCompletion, attempt, below, StepRecord.complete, StepRecord.plain,
        StepRecord.released, StepCompletion.retrying, StepCompletion.withRetryAfterMs, output,
        artifacts, named]
  | fallback spent unused selected =>
      simp [StepClaim.failureCompletion, attempt, spent, fallbackUsed, unused, selected,
        StepRecord.complete, StepRecord.plain, StepRecord.released, StepCompletion.fallback,
        output, artifacts, named]
  | failed spent final =>
      have failed : claim.failureCompletion true leaseExpiredError =
          .failed claim.runId claim.step.id claim.attempt leaseExpiredError := by
        simp only [StepClaim.failureCompletion, attempt, spent, fallbackUsed, decide_false,
          Bool.and_false, Bool.false_eq_true, if_false]
        obtain used | alone := final
        · rw [used]
          rfl
        · rw [alone]
          split <;> rfl
      rw [failed]
      simp [StepRecord.complete, StepRecord.plain, StepRecord.released, StepCompletion.failed,
        output, artifacts, named, attempt]

section Plain

variable (run : RunRecord) (id : StepId) (record : StepRecord)

@[simp] theorem StepRecord.plain_plain : record.plain.plain = record.plain := rfl

/-- A completion does not read the time of the next attempt. -/
theorem StepRecord.complete_alike {record record' : StepRecord}
    (alike : record.plain = record'.plain) (lease : Option StepLease)
    (completion : StepCompletion) (retryNow finishNow : UInt64) :
    ({ record with lease }.complete completion retryNow finishNow).plain =
      ({ record' with lease }.complete completion retryNow finishNow).plain := by
  show ({ record.plain with lease }.complete completion retryNow finishNow).plain =
    ({ record'.plain with lease }.complete completion retryNow finishNow).plain
  rw [alike]

@[simp] theorem RunRecord.plain_bump : run.bump.plain = run.plain := rfl

theorem RunRecord.plain_setStep : (run.setStep id record).plain =
    run.plain.setStep id record.plain := by
  rw [plain, plain, setStep, setStep]
  congr 1
  exact BTreeMap.map_insert run.steps id record fun _ record => record.plain

theorem RunRecord.plain_noteFailure :
    (run.noteFailure record).plain = run.plain.noteFailure record.plain := by
  rw [noteFailure_eq, noteFailure_eq]
  rfl

theorem RunRecord.plain_pushEvent (event : ExecutionEvent) (envelope : EventEnvelope) :
    (run.pushEvent event envelope).plain =
      { run.plain with
        events := run.plain.events ++ [event], eventLog := run.plain.eventLog ++ [envelope] } := rfl

/-- A recovered failure is noted as a committed one, since its record has an error. -/
theorem RunRecord.noteRecovery_of_isSome (some : record.error.isSome = true) :
    run.noteRecovery record = run.noteFailure record := by
  rw [noteRecovery_eq, noteFailure_eq]
  simp only [some, and_true]

end Plain

namespace Repository

/-- The repository with an event logged for a run, which it stores as given. -/
def logged (s : Repository) (k : RunId) (run : RunRecord) (event : ExecutionEvent)
    (now : UInt64) : Repository :=
  { s with
    nextEventSequence := s.nextEventSequence.saturatingAdd 1
    runs := s.runs.insert k (run.pushEvent event
      (eventEnvelope k (s.nextEventSequence.saturatingAdd 1) event now))
    events := s.events ++ [eventEnvelope k (s.nextEventSequence.saturatingAdd 1) event now] }

theorem appendEvent_setRun (s : Repository) (k : RunId) (run : RunRecord)
    (event : ExecutionEvent) (now : UInt64) :
    appendEvent (s.setRun k run) k event now =
      (.ok (eventEnvelope k (s.nextEventSequence.saturatingAdd 1) event now),
        s.logged k run event now) := by
  have found : (s.setRun k run).runs[k]? = some run := getElem?_setRun_self s k run
  simp only [appendEvent, found]
  simp only [setRun, logged, BTreeMap.insert_insert]

theorem plain_logged (s : Repository) (k : RunId) (run : RunRecord) (event : ExecutionEvent)
    (now : UInt64) : (s.logged k run event now).plain =
      { s.plain with
        nextEventSequence := s.plain.nextEventSequence.saturatingAdd 1
        runs := s.plain.runs.insert k
          { run.plain with
            events := run.plain.events ++ [event]
            eventLog := run.plain.eventLog ++
              [eventEnvelope k (s.plain.nextEventSequence.saturatingAdd 1) event now] }
        events := s.plain.events ++
          [eventEnvelope k (s.plain.nextEventSequence.saturatingAdd 1) event now] } := by
  simp only [plain, logged, BTreeMap.map_insert, RunRecord.plain_pushEvent]

/-- The lease of the step, if it holds one, runs until the given time. -/
def extendLease (s : Repository) (k : RunId) (id : StepId) (expiresAtMs : UInt64) : Repository :=
  match s.runs[k]? with
  | none => s
  | some run =>
    match run.steps[id]? with
    | none => s
    | some record =>
      s.setRun k (run.setStep id { record with
        lease := record.lease.map fun lease => { lease with expiresAtMs } })

/-- The worker that claimed the step last reports the error of recovery at `now`, with
its lease valid until `expiresAtMs`. -/
def reportExpired (claims : List StepClaim) (expiresAtMs now eventNow : UInt64) (s : Repository)
    (k : RunId) (id : StepId) : Option (Except RepositoryError RunRecord × Repository) :=
  (lastClaim claims k id).map fun claim =>
    (s.extendLease k id expiresAtMs).completeStep claim
      (claim.failureCompletion true leaseExpiredError)
      { call := fun reading => if reading = 3 then eventNow else now, step := fun _ _ => now }

/-- The same for the listed steps, one after the other. -/
def reportAll (claims : List StepClaim) (expiresAtMs : UInt64) (clock : Clock) :
    List (RunId × StepId) → Repository → Option Repository
  | [], s => some s
  | (k, id) :: rest, s =>
    match s.reportExpired claims expiresAtMs (clock.call 0) (clock.step k id) k id with
    | some (.ok _, s) => reportAll claims expiresAtMs clock rest s
    | _ => none

/-- What recovery relies on in a history of completions that workers built. -/
structure Ready (claims : List StepClaim) (s : Repository) : Prop where
  keyed : s.Keyed
  sound : s.Every RunRecord.Sound
  unburdened : s.Every RunRecord.Unburdened
  held : LastHolds claims s

theorem Ready.recover {claims : List StepClaim} {s s' : Repository} {k : RunId} {id : StepId}
    {run run' : RunRecord} (ready : Ready claims s) (move : s.Moves k (.recover id) run run' s') :
    Ready claims s' where
  keyed := move.keyed ready.keyed
  sound := move.lift (.step move.step) ready.sound
  unburdened := move.lift (fun plain => plain.step move.step (ready.sound _ _ move.found)
    (built_recover id run)) ready.unburdened
  held := by
    have held : LastHolds (claims ++ []) s' :=
      lastHolds_kept.move ready.keyed ready.sound move trivial ready.held
    rwa [List.append_nil] at held

section Step

variable {claims : List StepClaim} {s₁ s₂ s' : Repository} {k : RunId} {step : StepSpec}
  {run₁ run₂ : RunRecord} {record₁ record₂ : StepRecord} {lease : StepLease} {claim : StepClaim}
  {expiresAtMs now eventNow : UInt64}

/-- The state that a completion leaves. -/
theorem completeStep_logged {s : Repository} {run : RunRecord} {record : StepRecord}
    {completion : StepCompletion} (clock : Clock) (found : s.runs[claim.runId]? = some run)
    (own : run.runId = claim.runId) (foundStep : run.steps[claim.step.id]? = some record)
    (leased : record.lease = some lease) (valid : lease.validFor claim (clock.call 0) = true)
    (accepted : completionMatchesClaim completion claim run.manifest = true) :
    ∃ run', s.completeStep claim completion clock = (.ok run', s.logged claim.runId
      (run.commit claim.step.id (record.complete completion (clock.call 1) (clock.call 2)))
      completion.event (clock.call 3)) := by
  have committed := (RunRecord.SameRequest.commit (record.complete completion (clock.call 1)
    (clock.call 2)) claim.step.id).runId.trans own
  rw [RunRecord.commit] at committed ⊢
  simp only [completeStep, found, foundStep, leased, Option.any_some, valid, accepted,
    Bool.not_true, Bool.false_eq_true, if_false, committed, appendEvent_setRun]
  exact ⟨_, rfl⟩

theorem logged_setRun (s : Repository) (k : RunId) (run run' : RunRecord)
    (event : ExecutionEvent) (now : UInt64) :
    (s.setRun k run).logged k run' event now = s.logged k run' event now := by
  simp only [setRun, logged, BTreeMap.insert_insert]

/-- The report is committed, since the lease is valid. -/
theorem reportExpired_eq (eventNow : UInt64) (found : s₂.runs[k]? = some run₂)
    (own : run₂.runId = k)
    (foundStep : run₂.steps[claim.step.id]? = some record₂) (leased : record₂.lease = some lease)
    (last : lastClaim claims k claim.step.id = some claim) (runId : claim.runId = k)
    (token : claim.leaseToken = lease.token) (worker : claim.worker = lease.worker)
    (live : now < expiresAtMs) (known : ∀ task, claim.step.policy.fallbackTask = some task →
      run₂.manifest.tasks.contains task = true) :
    ∃ run', s₂.reportExpired claims expiresAtMs now eventNow k claim.step.id = some (.ok run',
      s₂.logged k (run₂.commit claim.step.id (({ record₂ with
          lease := some { lease with expiresAtMs } }.complete
            (claim.failureCompletion true leaseExpiredError) now now)))
        (claim.failureCompletion true leaseExpiredError).event eventNow) := by
  subst runId
  have accepted : completionMatchesClaim (claim.failureCompletion true leaseExpiredError) claim
      run₂.manifest = true :=
    completionMatchesClaim_iff.mpr (claim.failureCompletion_commits known leaseExpiredError)
  have extended : s₂.extendLease claim.runId claim.step.id expiresAtMs =
      s₂.setRun claim.runId (run₂.setStep claim.step.id { record₂ with
        lease := some { lease with expiresAtMs } }) := by
    simp only [extendLease, found, foundStep, leased, Option.map_some]
  have valid : StepLease.validFor { lease with expiresAtMs } claim now = true := by
    simp [StepLease.validFor, token, worker, live]
  obtain ⟨run', completed⟩ := completeStep_logged
    { call := fun reading => if reading = 3 then eventNow else now, step := fun _ _ => now }
    (getElem?_setRun_self s₂ claim.runId (run₂.setStep claim.step.id { record₂ with
      lease := some { lease with expiresAtMs } })) own Std.ExtTreeMap.getElem?_insert_self rfl
    valid accepted
  refine ⟨run', ?_⟩
  rw [reportExpired, last, Option.map_some, extended, completed, logged_setRun]
  rw [RunRecord.commit, RunRecord.setStep_setStep]
  rfl

/-- What recovering one step leaves. -/
theorem recoverStep_logged {s : Repository} {run : RunRecord} {envelope : EventEnvelope}
    (found : s.runs[k]? = some run)
    (recovered : s.recoverStep k step now eventNow = some (.ok envelope, s')) :
    ∃ record record' event, run.steps[step.id]? = some record ∧
      recoverExpiredStep k step record now = some (record', event) ∧
      s' = s.logged k ((run.setStep step.id record').noteRecovery record') event eventNow := by
  simp only [recoverStep, found] at recovered
  split at recovered
  · cases recovered
  next record' event expired =>
    obtain ⟨record, foundStep, expired⟩ := Option.bind_eq_some_iff.mp expired
    rw [appendEvent_setRun, Option.some.injEq, Prod.mk.injEq] at recovered
    exact ⟨record, record', event, foundStep, expired, recovered.2.symm⟩

/-- Runs stored in repositories that are alike are alike. -/
theorem run_of_alike (alike : s₁.plain = s₂.plain) (found : s₁.runs[k]? = some run₁) :
    ∃ run₂, s₂.runs[k]? = some run₂ ∧ run₁.plain = run₂.plain := by
  have same : (s₁.plain.runs)[k]? = (s₂.plain.runs)[k]? := by rw [alike]
  simp only [plain, Std.ExtTreeMap.getElem?_map, found, Option.map_some] at same
  obtain ⟨run₂, found', equal⟩ := Option.map_eq_some_iff.mp same.symm
  exact ⟨run₂, found', equal.symm⟩

/-- So are the records of their steps. -/
theorem record_of_alike (alike : run₁.plain = run₂.plain) {id : StepId}
    (found : run₁.steps[id]? = some record₁) :
    ∃ record₂, run₂.steps[id]? = some record₂ ∧ record₁.plain = record₂.plain := by
  have same : (run₁.plain.steps)[id]? = (run₂.plain.steps)[id]? := by rw [alike]
  simp only [RunRecord.plain, Std.ExtTreeMap.getElem?_map, found, Option.map_some] at same
  obtain ⟨record₂, found', equal⟩ := Option.map_eq_some_iff.mp same.symm
  exact ⟨record₂, found', equal.symm⟩

/-- A commit to a run that is alike a recovered one. -/
theorem commit_alike (alike : run₁.plain = run₂.plain) (id : StepId)
    (same : record₁.plain = record₂.plain) (failed : record₁.error.isSome = true) :
    ((run₁.setStep id record₁).noteRecovery record₁).plain = (run₂.commit id record₂).plain := by
  rw [RunRecord.noteRecovery_of_isSome _ _ failed, RunRecord.plain_noteFailure,
    RunRecord.plain_setStep, RunRecord.commit, RunRecord.plain_noteFailure, RunRecord.plain_bump,
    RunRecord.plain_setStep, alike, same]

/-- Recovering a step and reporting its failure keep repositories alike. -/
theorem recoverStep_alike (ready : Ready claims s₁) (alike : s₁.plain = s₂.plain)
    (live : now < expiresAtMs) (found : s₁.runs[k]? = some run₁)
    (listed : step ∈ run₁.workflow.steps) {envelope : EventEnvelope}
    (recovered : s₁.recoverStep k step now eventNow = some (.ok envelope, s')) :
    ∃ run' s'', s₂.reportExpired claims expiresAtMs now eventNow k step.id =
      some (.ok run', s'') ∧ s'.plain = s''.plain := by
  obtain ⟨record₁, record', event, foundStep, expired, rfl⟩ := recoverStep_logged found recovered
  obtain ⟨⟨lease, leased, -⟩, -⟩ := recoverExpiredStep_eq_some expired
  obtain ⟨claim, last, runId, stepId, holds⟩ :=
    ready.held k run₁ step.id record₁ lease found foundStep leased
  have sound := ready.sound k run₁ found
  have record := sound.records _ _ foundStep
  have same : claim.step = step := WorkflowSpec.step_eq_of_id sound.accepted.valid
    holds.mirrors.listed listed stepId
  subst same
  have running : record₁.status = .running := record.leased.mp (by rw [leased]; rfl)
  obtain ⟨artifacts, output⟩ := ready.unburdened k run₁ found _ _ foundStep
  obtain ⟨run₂, found₂, alikeRun⟩ := run_of_alike alike found
  obtain ⟨record₂, foundStep₂, alikeRecord⟩ := record_of_alike alikeRun foundStep
  have leased₂ : record₂.lease = some lease :=
    (congrArg StepRecord.lease alikeRecord).symm.trans leased
  have own : run₂.runId = k :=
    (congrArg RunRecord.runId alikeRun).symm.trans (ready.keyed k run₁ found)
  have manifest : run₁.plain.manifest = run₂.plain.manifest := by rw [alikeRun]
  obtain ⟨run', reported⟩ := reportExpired_eq eventNow found₂ own foundStep₂ leased₂ last runId
    holds.token holds.worker live
    (fun task selected => manifest ▸ sound.fallback_known holds.mirrors.listed task selected)
  refine ⟨run', _, reported, ?_⟩
  obtain ⟨equal, sameEvent, failed⟩ := recovered_eq_reported expired runId rfl record.named
    holds.mirrors.attempt holds.mirrors.fallbackUsed
    (output (by rw [running]; exact StepStatus.noConfusion)) artifacts
    (some { lease with expiresAtMs }) now
  -- the two records were completed alike
  have completed : record'.plain = ({ record₂ with
      lease := some { lease with expiresAtMs } }.complete
        (claim.failureCompletion true leaseExpiredError) now now).plain := by
    rw [equal, StepRecord.plain_plain]
    exact StepRecord.complete_alike alikeRecord _ _ now now
  rw [plain_logged, plain_logged, alike, commit_alike alikeRun _ completed failed, sameEvent]

end Step

section Sweep

variable {claims : List StepClaim} {expiresAtMs : UInt64} {clock : Clock}

theorem reportAll_append (listed more : List (RunId × StepId)) (s : Repository) :
    reportAll claims expiresAtMs clock (listed ++ more) s =
      (reportAll claims expiresAtMs clock listed s).bind
        (reportAll claims expiresAtMs clock more) := by
  induction listed generalizing s with
  | nil => rfl
  | cons head rest ih =>
      rw [List.cons_append, reportAll, reportAll]
      split
      · exact ih _
      · rfl

/-- Recovery of the listed steps, and what reporting their failures comes to. -/
structure Reported (claims : List StepClaim) (expiresAtMs : UInt64) (clock : Clock)
    (listed : List (RunId × StepId)) (s₁ s₂ s' : Repository) : Prop where
  recovery : s₁.Recovery listed s'
  ready : Ready claims s'
  alike : ∃ s'', reportAll claims expiresAtMs clock listed s₂ = some s'' ∧ s'.plain = s''.plain

theorem Reported.append {listed more : List (RunId × StepId)} {s₁ s₂ s' s'' : Repository}
    (first : Reported claims expiresAtMs clock listed s₁ s₂ s')
    (second : ∀ s₂, s'.plain = s₂.plain → Reported claims expiresAtMs clock more s' s₂ s'') :
    Reported claims expiresAtMs clock (listed ++ more) s₁ s₂ s'' := by
  obtain ⟨middle, reported, alike⟩ := first.alike
  have rest := second middle alike
  obtain ⟨last, reported', alike'⟩ := rest.alike
  refine ⟨first.recovery.append rest.recovery, rest.ready, last, ?_, alike'⟩
  rw [reportAll_append, reported, Option.bind_some, reported']

/-- The steps of one run. -/
theorem recoverSteps_alike (live : clock.call 0 < expiresAtMs) (k : RunId) (steps : List StepSpec)
    (expired : List (RunId × StepId)) {s₁ : Repository} (ready : Ready claims s₁)
    {run : RunRecord} (found : s₁.runs[k]? = some run)
    (listed : ∀ step ∈ steps, step ∈ run.workflow.steps) :
    ∃ more s', s₁.recoverSteps k (clock.call 0) clock steps expired = (.ok (expired ++ more), s') ∧
      ∀ s₂, s₁.plain = s₂.plain → Reported claims expiresAtMs clock more s₁ s₂ s' := by
  induction steps generalizing s₁ expired run with
  | nil =>
      refine ⟨[], s₁, by rw [List.append_nil]; rfl, fun s₂ alike => ?_⟩
      exact ⟨.done s₁, ready, s₂, rfl, alike⟩
  | cons step rest ih =>
      have listedRest : ∀ step ∈ rest, step ∈ run.workflow.steps :=
        fun step member => listed step (List.mem_cons_of_mem _ member)
      obtain quiet | ⟨envelope, run', s', recovered, move⟩ := recoverStep_cases ready.keyed
        (clock.call 0) (clock.step k step.id) found (listed step List.mem_cons_self)
      · obtain ⟨more, s', result, reported⟩ := ih expired ready found listedRest
        exact ⟨more, s', by rw [recoverSteps, quiet]; exact result, reported⟩
      · have found' : s'.runs[k]? = some run' := (move.runs k).trans (if_pos rfl)
        obtain ⟨more, s'', result, reported⟩ := ih (expired ++ [(k, step.id)])
          (ready.recover move) found' (by rw [move.step.sameRequest.workflow]; exact listedRest)
        refine ⟨(k, step.id) :: more, s'', ?_, fun s₂ alike => ?_⟩
        · rw [recoverSteps, recovered]
          simpa only [List.append_assoc, List.singleton_append] using result
        · obtain ⟨run'', middle, report, alike'⟩ := recoverStep_alike ready alike live found
            (listed step List.mem_cons_self) recovered
          have first : Reported claims expiresAtMs clock [(k, step.id)] s₁ s₂ s' := by
            refine ⟨.next move (.done s'), ready.recover move, middle, ?_, alike'⟩
            simp only [reportAll, report]
          exact first.append reported

/-- The steps of the listed runs. -/
theorem recoverRuns_alike (live : clock.call 0 < expiresAtMs) (ids : List RunId)
    (expired : List (RunId × StepId)) {s₁ : Repository} (ready : Ready claims s₁)
    (stored : ∀ k ∈ ids, ∃ run, s₁.runs[k]? = some run) :
    ∃ more s', s₁.recoverRuns (clock.call 0) clock ids expired = (.ok (expired ++ more), s') ∧
      ∀ s₂, s₁.plain = s₂.plain → Reported claims expiresAtMs clock more s₁ s₂ s' := by
  induction ids generalizing s₁ expired with
  | nil =>
      refine ⟨[], s₁, by rw [List.append_nil]; rfl, fun s₂ alike => ?_⟩
      exact ⟨.done s₁, ready, s₂, rfl, alike⟩
  | cons k rest ih =>
      obtain ⟨run, found⟩ := stored k List.mem_cons_self
      obtain ⟨more, s', result, reported⟩ := recoverSteps_alike live k run.workflow.steps
        expired ready found (fun _ member => member)
      have first := reported s₁ rfl
      obtain ⟨others, s'', result', reported'⟩ := ih (expired ++ more) first.ready
        (fun id member => by
          obtain ⟨run, found⟩ := stored id (List.mem_cons_of_mem _ member)
          exact first.recovery.stored found)
      refine ⟨more ++ others, s'', ?_, fun s₂ alike => (reported s₂ alike).append reported'⟩
      rw [recoverRuns, found]
      simp only [result, result', List.append_assoc]

end Sweep

end Repository

theorem ready_after {ops : List Op} (built : WorkerBuilt ops) :
    (repository.after ops).Ready (issued ops) where
  keyed := Repository.keyed_after ops
  sound := sound_after ops
  unburdened := unburdened_after built
  held := lastHolds_after ops

/-- While workers commit what they build, recovery of an expired lease is the report of a
retryable failure with the error of recovery by the worker that claimed the step last, if
its lease were still valid at the same time: for each step alone, and for the sweep, which
lists all expired leases. -/
theorem recovery_is_reported_failure (ops : List Op) (built : WorkerBuilt ops) (clock : Clock)
    (expiresAtMs : UInt64) (live : clock.call 0 < expiresAtMs) :
    (∀ (k : RunId) (run : RunRecord) (step : StepSpec) (eventNow : UInt64),
      (repository.after ops).runs[k]? = some run → step ∈ run.workflow.steps →
      (repository.after ops).Expired k step.id (clock.call 0) → ∃ envelope run' s' s'',
        (repository.after ops).recoverStep k step (clock.call 0) eventNow =
            some (.ok envelope, s') ∧
          (repository.after ops).reportExpired (issued ops) expiresAtMs (clock.call 0) eventNow k
              step.id = some (.ok run', s'') ∧
          s'.plain = s''.plain) ∧
    ∃ listed s' s'', (repository.after ops).recoverExpired clock = (.ok listed, s') ∧
      Repository.reportAll (issued ops) expiresAtMs clock listed (repository.after ops) =
        some s'' ∧
      s'.plain = s''.plain ∧
      ∀ k id, (k, id) ∈ listed ↔ (repository.after ops).Expired k id (clock.call 0) := by
  have ready := ready_after built
  constructor
  · intro k run step eventNow found listed expired
    obtain quiet | ⟨envelope, run', s', recovered, -⟩ :=
      Repository.recoverStep_cases ready.keyed (clock.call 0) eventNow found listed
    · exact absurd quiet ((Repository.recoverStep_isSome_iff eventNow found).mpr expired)
    · obtain ⟨run'', s'', reported, alike⟩ :=
        Repository.recoverStep_alike ready rfl live found listed recovered
      exact ⟨envelope, run'', s', s'', recovered, reported, alike⟩
  · obtain ⟨listed, s', result, reported⟩ := Repository.recoverRuns_alike live
      (repository.after ops).runs.keys [] ready fun k member => BTreeMap.mem_keys_iff.mp member
    obtain ⟨s'', report, alike⟩ := (reported _ rfl).alike
    obtain ⟨listed', _, result', -, all⟩ :=
      Repository.recoverExpired_listed ready.keyed ready.sound clock
    have same : listed = listed' :=
      Except.ok.inj (congrArg Prod.fst (result.symm.trans result'))
    exact ⟨listed, s', s'', result, report, alike, fun k id => same ▸ all k id⟩

/-- A worker reports a failure that is retried, and loses the lease of its second try. -/
def lostAfterRetry : List Op :=
  [.createRun (Sample.request [Sample.step "only" 2 true] []) (.at 0), Sample.ask 0,
    .completeStep (Sample.claim (Sample.step "only" 2 true) 1)
      ((Sample.claim (Sample.step "only" 2 true) 1).completion (.error (.transient "busy")))
      (.at 1),
    Sample.ask 2]

theorem recovery_is_reported_failure_lostAfterRetry :
    ∃ listed s' s'', (repository.after lostAfterRetry).recoverExpired (.at 20) =
        (.ok listed, s') ∧
      Repository.reportAll (issued lostAfterRetry) 21 (.at 20) listed
        (repository.after lostAfterRetry) = some s'' ∧
      s'.plain = s''.plain ∧ (Sample.runId, ⟨"only"⟩) ∈ listed := by
  have built : WorkerBuilt lostAfterRetry := by
    intro claim completion clock member
    simp only [lostAfterRetry, Sample.ask, List.mem_cons, reduceCtorEq, Op.completeStep.injEq,
      List.not_mem_nil, or_false, false_or] at member
    obtain ⟨rfl, rfl, -⟩ := member
    exact ⟨_, rfl⟩
  have expired : (repository.after lostAfterRetry).Expired Sample.runId ⟨"only"⟩ 20 := by
    have leased : (((repository.after lostAfterRetry).record Sample.runId ⟨"only"⟩).bind
        StepRecord.lease).map StepLease.expiresAtMs = some 12 := by
      decide +kernel
    obtain ⟨lease, holds, past⟩ := Option.map_eq_some_iff.mp leased
    obtain ⟨record, found, held⟩ := Option.bind_eq_some_iff.mp holds
    obtain ⟨run, foundRun, foundStep⟩ := Repository.record_eq_some.mp found
    exact ⟨run, record, lease, foundRun, foundStep, held, past ▸ by decide⟩
  obtain ⟨-, listed, s', s'', result, report, alike, all⟩ :=
    recovery_is_reported_failure lostAfterRetry built (.at 20) 21 (by decide)
  exact ⟨listed, s', s'', result, report, alike, (all _ _).mpr expired⟩

end Orchestrator
