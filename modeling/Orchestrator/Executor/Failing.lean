import Orchestrator.Executor.Drive

/-!
# Why a drive fails

A drive of a stored run fails for four reasons only: the start of a claimed attempt is refused,
since the claim was superseded; the task of a claim is not registered; a claim has lost its
lease when it is committed; or no claim was handed out for the whole idle time. The repository
refuses nothing else that a drive asks for.
-/

namespace Orchestrator

open Json (Value)

namespace Repository

variable {s : Repository}

/-- A claim request for a stored run is answered without an error. -/
theorem claimNextStep_answers (keyed : s.Keyed) {k : RunId} {run : RunRecord}
    (found : s.runs[k]? = some run) (worker : WorkerProfile) (leaseMs : UInt64) (clock : Clock) :
    ∃ handed, (s.claimNextStep k worker leaseMs clock).1 = .ok handed := by
  by_cases running : run.status = .running
  · cases chosen : run.workflow.steps.findSome? fun step =>
        claimCandidate run worker (clock.step k step.id) step with
    | none =>
        simp only [claimNextStep, found, running, chosen]
        exact ⟨none, rfl⟩
    | some candidate =>
        obtain ⟨step, taskId, dependencies⟩ := candidate
        obtain ⟨examined, -, granted⟩ := List.exists_of_findSome?_eq_some chosen
        obtain ⟨-, rfl, -, ⟨task, known, -⟩, -⟩ := claimCandidate_eq_some.mp granted
        obtain ⟨-, claim, s', -, -, claimed, -⟩ := claimNextStep_of_candidate s keyed leaseMs clock
          found running chosen known
        exact ⟨some claim, by rw [claimed]⟩
  · simp only [claimNextStep, found]
    rw [if_pos running]
    exact ⟨none, rfl⟩

/-- A renewal for a stored run is refused only if the claim has lost its lease. -/
theorem renewStep_refused {claim : StepClaim} {run : RunRecord}
    (found : s.runs[claim.runId]? = some run) {leaseMs : UInt64} {clock : Clock}
    {error : RepositoryError} (refused : (s.renewStep claim leaseMs clock).1 = .error error) :
    error = .leaseLost claim.runId claim.step.id := by
  unfold renewStep at refused
  rw [found] at refused
  dsimp only at refused
  split at refused
  · exact (Except.error.inj refused).symm
  · split at refused
    · exact (Except.error.inj refused).symm
    · split at refused
      · exact (Except.error.inj refused).symm
      · cases refused

/-- An event for a stored run is refused only if it is not valid. -/
theorem recordEvent_refused (keyed : s.Keyed) {k : RunId} {run : RunRecord}
    (found : s.runs[k]? = some run) {event : ExecutionEvent} {clock : Clock}
    {error : RepositoryError} (refused : (s.recordEvent k event clock).1 = .error error) :
    error = .invalidEvent k ∧ eventIsValidForRecord run event = false := by
  cases valid : eventIsValidForRecord run event with
  | true =>
      obtain ⟨_, s', recorded, -⟩ := recordEvent_of_valid s keyed clock found valid
      rw [recorded] at refused
      cases refused
  | false =>
      simp only [recordEvent, found, valid, Bool.not_false, Bool.or_true, if_true] at refused
      exact ⟨(Except.error.inj refused).symm, rfl⟩

/-- A completion that its claim may commit is refused only if the claim has lost its lease. -/
theorem completeStep_refused (keyed : s.Keyed) {claim : StepClaim} {completion : StepCompletion}
    {run : RunRecord} (found : s.runs[claim.runId]? = some run)
    (accepted : completionMatchesClaim completion claim run.manifest = true) {clock : Clock}
    {error : RepositoryError} (refused : (s.completeStep claim completion clock).1 = .error error) :
    error = .leaseLost claim.runId claim.step.id ∧ ∀ record lease,
      run.steps[claim.step.id]? = some record → record.lease = some lease →
        lease.validFor claim (clock.call 0) = false := by
  have lost : ∀ record lease, run.steps[claim.step.id]? = some record → record.lease = some lease →
      lease.validFor claim (clock.call 0) = false := by
    intro record lease foundStep leased
    by_contra live
    obtain ⟨_, run', s', -, completed, -⟩ := completeStep_of_lease s keyed claim completion clock
      found foundStep leased (Bool.eq_true_of_not_eq_false live) accepted
    rw [completed] at refused
    cases refused
  refine ⟨?_, lost⟩
  cases foundStep : run.steps[claim.step.id]? with
  | none =>
      simp only [completeStep, found, foundStep] at refused
      exact (Except.error.inj refused).symm
  | some record =>
      have none : (record.lease.any fun lease => lease.validFor claim (clock.call 0)) = false := by
        rw [Option.any_eq_false]
        exact fun lease leased => lost record lease foundStep leased
      simp only [completeStep, found, foundStep, none, Bool.not_false, if_true] at refused
      exact (Except.error.inj refused).symm

/-- A sweep answers without an error. -/
theorem recoverExpired_answers (keyed : s.Keyed) (sound : s.Every RunRecord.Sound) (clock : Clock) :
    ∃ listed, (s.recoverExpired clock).1 = .ok listed := by
  obtain ⟨listed, s', recovered, -⟩ := recoverExpired_listed keyed sound clock
  exact ⟨listed, by rw [recovered]⟩

/-- A run once stored stays stored. -/
theorem stored_later {before ops : List Op} (within : before <+: ops) {k : RunId} {run : RunRecord}
    (found : (repository.after before).runs[k]? = some run) :
    ∃ run', (repository.after ops).runs[k]? = some run' := by
  obtain ⟨later, rfl⟩ := within
  obtain ⟨run', found', -⟩ := related_later (R := fun _ _ => True) (A := fun _ _ => True)
    (fun _ => trivial) (fun _ _ => trivial) (fun _ _ _ => trivial) (fun _ _ => trivial) before later
    (guarded_true _) found
  exact ⟨run', found'⟩

end Repository

/-- A drive in its loop. -/
def DrivePhase.driving : DrivePhase → Bool
  | .loading => false
  | .returned _ => false
  | _ => true

/-- What the executions of the batch have returned. -/
def DrivePhase.results : DrivePhase → List (StepClaim × Except OrchestratorError StepCompletion)
  | .executing jobs => jobs.filterMap Job.result?
  | .committing batch => batch
  | _ => []

/-- The claims that wait for the rest of their batch. -/
def DrivePhase.gathered : DrivePhase → List StepClaim
  | .claiming claims _ => claims
  | _ => []

namespace Drive

/-- The two moves of the loop are apart by the idle time, and no claim was handed out from the
first to the last. -/
def Idled (drive : Drive) (log : List DriveTurn) : Prop :=
  ∃ earlier first between last later, log = earlier ++ first :: between ++ last :: later ∧
    handed between = [] ∧ ∃ clock clock' since now, first.move = .proceed clock since ∧
      last.move = .proceed clock' now ∧ drive.idledOut since now = true

/-- The drive looked its run up, with the first move of its loop, after these calls. -/
def Looked (ops : List Op) (log : List DriveTurn) (before : List Op) : Prop :=
  ∃ earlier clock now later, log = earlier ++ ⟨before.length, .proceed clock now, none⟩ :: later ∧
    (∀ turn ∈ earlier, ∀ clock now, turn.move ≠ .proceed clock now) ∧ before <+: ops

/-- The drive made the call, with this answer, after these calls. -/
def Made (ops : List Op) (log : List DriveTurn) (before : List Op) (op : Op)
    (response : Response) : Prop :=
  (∃ move, ⟨before.length, move, some (op, response)⟩ ∈ log) ∧ before ++ [op] <+: ops

/-- The errors of a drive, with what had happened: the run was not stored when the drive looked
it up; the start of an attempt was refused to it; the task is not registered; a claim had lost its
lease when the drive completed it; or the idle time had passed without a claim. -/
inductive Fails (drive : Drive) (ops : List Op) (log : List DriveTurn) :
    OrchestratorError → Prop where
  | missing {before : List Op} (looked : Looked ops log before)
      (absent : (repository.after before).runs[drive.runId]? = none) :
      Fails drive ops log (.repository (.runNotFound drive.runId))
  | superseded {before : List Op} {claim : StepClaim} {clock : Clock} {run : RunRecord}
      (claimed : claim ∈ handed log)
      (made : Made ops log before (starts claim clock)
        (.recorded (.error (.invalidEvent claim.runId))))
      (found : (repository.after before).runs[claim.runId]? = some run)
      (stale : eventIsValidForRecord run
        (.stepStarted claim.runId claim.step.id claim.task.id claim.attempt) = false) :
      Fails drive ops log (.repository (.invalidEvent claim.runId))
  | unregistered {claim : StepClaim} (claimed : claim ∈ handed log)
      (unknown : drive.executor.registry claim.task.id = none) :
      Fails drive ops log (.workflow (.unregisteredTask claim.task.id))
  | lapsed {before : List Op} {claim : StepClaim} {completion : StepCompletion} {clock : Clock}
      {run : RunRecord} (claimed : claim ∈ handed log)
      (made : Made ops log before (.completeStep claim completion clock)
        (.completed (.error (.leaseLost claim.runId claim.step.id))))
      (found : (repository.after before).runs[claim.runId]? = some run)
      (late : ∀ record lease, run.steps[claim.step.id]? = some record →
        record.lease = some lease → lease.validFor claim (clock.call 0) = false) :
      Fails drive ops log (.repository (.leaseLost claim.runId claim.step.id))
  | idled (waited : drive.Idled log) :
      Fails drive ops log (.repository (.conflict drive.runId))

/-- The calls of a drive that was handed the claims, with the answers that it may get. The
repository refuses it a start that is no longer valid, and a claim that has lost its lease. -/
inductive Answers (drive : Drive) (claims : List StepClaim) : Op → Response → Prop where
  | claimed {handed : Option StepClaim} {clock : Clock} :
      Answers drive claims (drive.asks clock) (.claimed (.ok handed))
  | recorded {claim : StepClaim} {result : Except RepositoryError EventEnvelope} {clock : Clock}
      (own : claim ∈ claims)
      (only : ∀ error, result = .error error → error = .invalidEvent claim.runId) :
      Answers drive claims (starts claim clock) (.recorded result)
  | renewed {claim : StepClaim} {result : Except RepositoryError Unit} {clock : Clock}
      (own : claim ∈ claims)
      (only : ∀ error, result = .error error → error = .leaseLost claim.runId claim.step.id) :
      Answers drive claims (drive.renews claim clock) (.renewed result)
  | completed {claim : StepClaim} {completion : StepCompletion}
      {result : Except RepositoryError RunRecord} {clock : Clock} (own : claim ∈ claims)
      (only : ∀ error, result = .error error → error = .leaseLost claim.runId claim.step.id) :
      Answers drive claims (.completeStep claim completion clock) (.completed result)
  | finished {run : RunRecord} {clock : Clock} :
      Answers drive claims (.finishRun drive.runId drive.metrics clock) (.finished (.ok run))
  | recovered {expired : List (RunId × StepId)} {clock : Clock} :
      Answers drive claims (.recoverExpired clock) (.recovered (.ok expired))

variable {drive : Drive}

theorem Answers.mono {claims claims' : List StepClaim} {op : Op} {response : Response}
    (more : claims ⊆ claims') (h : drive.Answers claims op response) :
    drive.Answers claims' op response := by
  cases h with
  | claimed => exact .claimed
  | recorded own only => exact .recorded (more own) only
  | renewed own only => exact .renewed (more own) only
  | completed own only => exact .completed (more own) only
  | finished => exact .finished
  | recovered => exact .recovered

/-- A claim request is not refused. -/
theorem Answers.not_refused {claims : List StepClaim} {op : Op} {error : RepositoryError} :
    ¬ drive.Answers claims op (.claimed (.error error)) := by
  intro h
  cases h

/-- A finish request is not refused. -/
theorem Answers.not_unknown {claims : List StepClaim} {op : Op} {error : RepositoryError} :
    ¬ drive.Answers claims op (.finished (.error error)) := by
  intro h
  cases h

/-- A sweep is not refused. -/
theorem Answers.not_unrecovered {claims : List StepClaim} {op : Op} {error : RepositoryError} :
    ¬ drive.Answers claims op (.recovered (.error error)) := by
  intro h
  cases h

theorem Looked.later {ops ops' : List Op} {log log' : List DriveTurn} {before : List Op}
    (grown : ops <+: ops') (extended : log <+: log') (looked : Looked ops log before) :
    Looked ops' log' before := by
  obtain ⟨more, rfl⟩ := extended
  obtain ⟨earlier, clock, now, later, rfl, first, within⟩ := looked
  exact ⟨earlier, clock, now, later ++ more, by simp, first, within.trans grown⟩

theorem Made.later {ops ops' : List Op} {log log' : List DriveTurn} {before : List Op} {op : Op}
    {response : Response} (grown : ops <+: ops') (extended : log <+: log')
    (made : Made ops log before op response) : Made ops' log' before op response := by
  obtain ⟨⟨move, logged⟩, within⟩ := made
  exact ⟨⟨move, extended.subset logged⟩, within.trans grown⟩

theorem handed_append (log log' : List DriveTurn) :
    handed (log ++ log') = handed log ++ handed log' := List.filterMap_append

theorem Idled.later {log log' : List DriveTurn} (extended : log <+: log')
    (idled : drive.Idled log) : drive.Idled log' := by
  obtain ⟨more, rfl⟩ := extended
  obtain ⟨earlier, first, between, last, later, rfl, quiet, instants⟩ := idled
  exact ⟨earlier, first, between, last, later ++ more, by simp, quiet, instants⟩

/-- The reason for an error stays one. -/
theorem Fails.later {ops ops' : List Op} {log log' : List DriveTurn} {error : OrchestratorError}
    (grown : ops <+: ops') (extended : log <+: log') (fails : drive.Fails ops log error) :
    drive.Fails ops' log' error := by
  have kept : ∀ {claim}, claim ∈ handed log → claim ∈ handed log' := by
    obtain ⟨more, rfl⟩ := extended
    rw [handed_append]
    exact List.mem_append_left _
  cases fails with
  | missing looked absent => exact .missing (looked.later grown extended) absent
  | superseded claimed made found stale =>
      exact .superseded (kept claimed) (made.later grown extended) found stale
  | unregistered claimed unknown => exact .unregistered (kept claimed) unknown
  | lapsed claimed made found late =>
      exact .lapsed (kept claimed) (made.later grown extended) found late
  | idled waited => exact .idled (waited.later extended)

/-- What an execution returned is a completion of its claim, or an error with its reason. -/
def Explains (drive : Drive) (ops : List Op) (log : List DriveTurn) (claim : StepClaim) :
    Except OrchestratorError StepCompletion → Prop
  | .ok completion => ∃ answer, completion = claim.completion answer
  | .error error => drive.Fails ops log error

theorem Explains.later {ops ops' : List Op} {log log' : List DriveTurn} {claim : StepClaim}
    {result : Except OrchestratorError StepCompletion} (grown : ops <+: ops')
    (extended : log <+: log') (explains : drive.Explains ops log claim result) :
    drive.Explains ops' log' claim result := by
  cases result with
  | ok completion => exact explains
  | error error => exact Fails.later grown extended explains

/-- What is known of a drive in its loop: its run is stored, the results of its executions are
explained, and since the instant from which its idle time counts it was handed the claims of
the batch that it gathers. -/
structure Runs (drive : Drive) (ops : List Op) (log : List DriveTurn) (stands : DriveCall) :
    Prop where
  stored : ∃ run, (repository.after ops).runs[drive.runId]? = some run
  explained : ∀ entry ∈ stands.phase.results, drive.Explains ops log entry.1 entry.2
  since : ∃ earlier first between clock, log = earlier ++ first :: between ∧
    first.move = .proceed clock stands.idleStarted ∧ handed between = stands.phase.gathered

/-- What is known of a drive. -/
structure Known (drive : Drive) (ops : List Op) (log : List DriveTurn) (stands : DriveCall) :
    Prop where
  unlooked : stands.phase = .loading → ∀ turn ∈ log, ∀ clock now, turn.move ≠ .proceed clock now
  runs : stands.phase.driving = true → drive.Runs ops log stands
  fails : ∀ error, stands.phase = .returned (.error error) → drive.Fails ops log error

section Step

variable {ops ops' : List Op} {log : List DriveTurn} {turn : DriveTurn} {stands stands' : DriveCall}

theorem Known.of_runs (runs : drive.Runs ops log stands) (driving : stands.phase.driving = true) :
    drive.Known ops log stands := by
  refine ⟨fun loading => ?_, fun _ => runs, fun error returned => ?_⟩
  · rw [loading] at driving
    cases driving
  · rw [returned] at driving
    cases driving

theorem Known.of_failure {t : Nat} {error : OrchestratorError}
    (fails : drive.Fails ops log error) : drive.Known ops log ⟨t, .returned (.error error)⟩ :=
  ⟨fun loading => (by cases loading), fun driving => (by cases driving),
    fun _ same => (by cases same; exact fails)⟩

theorem Known.of_return {t : Nat} {run : RunRecord} :
    drive.Known ops log ⟨t, .returned (.ok run)⟩ :=
  ⟨fun loading => (by cases loading), fun driving => (by cases driving),
    fun _ same => (by cases same)⟩

/-- The idle time goes on. -/
theorem Runs.next (runs : drive.Runs ops log stands) (grown : ops <+: ops')
    (same : stands'.idleStarted = stands.idleStarted)
    (gathers : stands'.phase.gathered =
      stands.phase.gathered ++ (handed? turn.exchange).toList)
    (explained : ∀ entry ∈ stands'.phase.results,
      drive.Explains ops' (log ++ [turn]) entry.1 entry.2) :
    drive.Runs ops' (log ++ [turn]) stands' := by
  obtain ⟨run, found⟩ := runs.stored
  obtain ⟨earlier, first, between, clock, rfl, reads, gathered⟩ := runs.since
  refine ⟨Repository.stored_later grown found, explained, earlier, first, between ++ [turn], clock,
    by simp, by rw [same]; exact reads, ?_⟩
  rw [handed_concat, gathered, gathers]

/-- The idle time begins again. -/
theorem Runs.begin {run : RunRecord} {clock : Clock}
    (found : (repository.after ops).runs[drive.runId]? = some run)
    (reads : turn.move = .proceed clock stands.idleStarted)
    (gathered : stands.phase.gathered = []) (empty : stands.phase.results = []) :
    drive.Runs ops (log ++ [turn]) stands := by
  refine ⟨⟨run, found⟩, ?_, log, turn, [], clock, rfl, reads, gathered.symm⟩
  rw [empty]
  exact fun entry member => absurd member List.not_mem_nil

theorem results_begin (claims : List StepClaim) :
    (claims.map Job.begin).filterMap Job.result? = [] := by
  rw [List.filterMap_map]
  exact List.filterMap_eq_nil_iff.mpr fun _ _ => rfl

/-- The executions of a batch begin. -/
theorem Runs.executes {now : Nat} {clock : Clock} (runs : drive.Runs ops log stands)
    (grown : ops <+: ops') (reads : turn.move = .proceed clock now) (claims : List StepClaim) :
    drive.Runs ops' (log ++ [turn]) ⟨now, .executing (claims.map .begin)⟩ := by
  obtain ⟨run, found⟩ := runs.stored
  obtain ⟨run', found'⟩ := Repository.stored_later grown found
  exact .begin found' reads rfl (results_begin claims)

/-- What the executions of a batch have returned after one of them has moved. -/
theorem mem_results_set {jobs : List Job} {i : Nat} {job : Job}
    {entry : StepClaim × Except OrchestratorError StepCompletion}
    (member : entry ∈ (jobs.set i job).filterMap Job.result?) :
    entry ∈ jobs.filterMap Job.result? ∨ job.result? = some entry := by
  obtain ⟨other, listed, result⟩ := List.mem_filterMap.mp member
  obtain old | rfl := List.mem_or_eq_of_mem_set listed
  · exact .inl (List.mem_filterMap.mpr ⟨other, old, result⟩)
  · exact .inr result

theorem results_joined {jobs : List Job}
    {batch : List (StepClaim × Except OrchestratorError StepCompletion)}
    (ended : jobs.mapM Job.result? = some batch) : batch = jobs.filterMap Job.result? := by
  have each := List.mapM_eq_some_iff.mp ended
  clear ended
  induction each with
  | nil => rfl
  | cons first _ ih => rw [List.filterMap_cons_some first, ← ih]

end Step

/-- Where a drive of its history stands, with the claims that it holds. -/
def Accounted (drive : Drive) (ops : List Op) (log : List DriveTurn) (stands : DriveCall) : Prop :=
  (∃ held, stands.phase.Holds drive.limits.maxParallelSteps held ∧
    handed log = committed log ++ held) ∧ (handed log).Sublist (issued ops)

theorem accounted_after (events : List (Client.Event Op DriveMove)) :
    drive.Accounted (drive.client.served repository events) (drive.client.log repository events)
      (drive.client.stands repository events) :=
  ⟨holds_after events, handed_issued events⟩

section Claims

variable {ops : List Op} {log : List DriveTurn} {stands : DriveCall} {t : Nat} {claim : StepClaim}

/-- The repository knows what a claim that was handed out may commit. -/
theorem Accounted.commits (accounted : drive.Accounted ops log stands)
    (member : claim ∈ handed log) :
    ∃ run, (repository.after ops).runs[claim.runId]? = some run ∧ ∀ answer,
      completionMatchesClaim (claim.completion answer) claim run.manifest = true := by
  obtain ⟨run, found, listed⟩ := listed_after ops claim (accounted.2.subset member)
  have sound := sound_after ops claim.runId run found
  exact ⟨run, found, fun answer => completionMatchesClaim_iff.mpr
    (claim.completion_commits (sound.fallback_known listed) answer)⟩

/-- The claims that are executed were handed out. -/
theorem Accounted.executing {jobs : List Job} {i : Nat} {job : Job}
    (accounted : drive.Accounted ops log ⟨t, .executing jobs⟩) (there : jobs[i]? = some job) :
    job.claim ∈ handed log := by
  obtain ⟨⟨held, holds, account⟩, -⟩ := accounted
  rw [account]
  refine List.mem_append_right _ ?_
  rw [holds.1]
  exact List.mem_map_of_mem (List.mem_of_getElem? there)

/-- The claims that are committed were handed out. -/
theorem Accounted.committing {batch : List (StepClaim × Except OrchestratorError StepCompletion)}
    {entry : StepClaim × Except OrchestratorError StepCompletion}
    (accounted : drive.Accounted ops log ⟨t, .committing batch⟩) (listed : entry ∈ batch) :
    entry.1 ∈ handed log := by
  obtain ⟨⟨held, holds, account⟩, -⟩ := accounted
  rw [account]
  refine List.mem_append_right _ ?_
  rw [holds.1]
  exact List.mem_map_of_mem listed

end Claims

section Step

variable {ops : List Op} {log : List DriveTurn} {move : DriveMove} {stands stands' : DriveCall}
  {exchange : Option (Op × Response)}

/-- The call of a transition gets one of the answers that a drive may get. -/
theorem Transition.answers
    (h : drive.Transition (repository.after ops) move stands exchange stands')
    (accounted : drive.Accounted ops log stands) (known : drive.Known ops log stands) {op : Op}
    {response : Response} (made : exchange = some (op, response)) :
    drive.Answers (handed log) op response := by
  have keyed := Repository.keyed_after ops
  cases h with
  | claimed | unclaimed | short =>
      cases made
      exact .claimed
  | finished | unfinished =>
      cases made
      exact .finished
  | recovered =>
      cases made
      exact .recovered
  | committed answer =>
      cases made
      exact .completed (accounted.committing List.mem_cons_self) fun error same => by cases same
  | refused answer =>
      obtain ⟨run, found⟩ := (known.runs rfl).stored
      obtain ⟨handed, answers⟩ := Repository.claimNextStep_answers keyed found _ _ _
      have impossible := answers.symm.trans (Response.claimed.inj answer)
      cases impossible
  | unknown answer =>
      obtain ⟨run, found⟩ := (known.runs rfl).stored
      obtain ⟨run', s', finished, -⟩ := Repository.finishRun_of_some _ keyed drive.metrics _ found
      have impossible := (congrArg Prod.fst finished).symm.trans (Response.finished.inj answer)
      cases impossible
  | unrecovered answer =>
      obtain ⟨listed, answers⟩ := Repository.recoverExpired_answers keyed (sound_after ops) _
      have impossible := answers.symm.trans (Response.recovered.inj answer)
      cases impossible
  | recorded there answer =>
      cases made
      have own := accounted.executing there
      obtain ⟨run, found, -⟩ := accounted.commits own
      refine .recorded own fun error same => ?_
      exact (Repository.recordEvent_refused keyed found
        ((Response.recorded.inj answer).trans same)).1
  | beaten there answer =>
      cases made
      have own := accounted.executing there
      obtain ⟨run, found, -⟩ := accounted.commits own
      refine .renewed own fun error same => ?_
      exact Repository.renewStep_refused found ((Response.renewed.inj answer).trans same)
  | @rejected t claim completion clock batch error answer =>
      cases made
      have own := accounted.committing List.mem_cons_self
      obtain ⟨run, found, commits⟩ := accounted.commits own
      obtain ⟨task, built⟩ := (known.runs rfl).explained (claim, .ok completion)
        List.mem_cons_self
      refine .completed own fun other same => ?_
      exact (Repository.completeStep_refused keyed found (built ▸ commits task)
        ((Response.completed.inj answer).trans same)).1
  | _ => cases made

/-- An execution that ends with the answer to the record of its start has a reason. -/
theorem Explains.started {claim : StepClaim} {clock : Clock}
    {result : Except RepositoryError EventEnvelope}
    {entry : StepClaim × Except OrchestratorError StepCompletion}
    (accounted : drive.Accounted ops log stands) (own : claim ∈ handed log)
    (answer : repository.answer (repository.after ops) (starts claim clock) = .recorded result)
    (ended : (drive.started ⟨claim, .starting⟩ (.recorded result)).result? = some entry) :
    drive.Explains (ops ++ [starts claim clock])
      (log ++ [⟨ops.length, move, some (starts claim clock, .recorded result)⟩])
      entry.1 entry.2 := by
  have own' : claim ∈ handed (log ++ [⟨ops.length, move, some (starts claim clock,
      .recorded result)⟩]) := by
    rw [handed_append]
    exact List.mem_append_left _ own
  cases result with
  | error error =>
      obtain rfl := Option.some.inj ended
      obtain ⟨run, found, -⟩ := accounted.commits own
      obtain ⟨rfl, stale⟩ := Repository.recordEvent_refused (Repository.keyed_after ops) found
        (Response.recorded.inj answer)
      refine Fails.superseded own' ⟨⟨move, ?_⟩, List.prefix_rfl⟩ found stale
      exact List.mem_append_right _ List.mem_cons_self
  | ok envelope =>
      simp only [Drive.started] at ended
      split at ended
      next unknown =>
        obtain rfl := Option.some.inj ended
        exact Fails.unregistered own' unknown
      · cases ended

/-- A transition keeps what is known of a drive. -/
theorem Transition.known (h : drive.Transition (repository.after ops) move stands exchange stands')
    (accounted : drive.Accounted ops log stands) (known : drive.Known ops log stands) :
    drive.Known (ops ++ (exchange.map Prod.fst).toList)
      (log ++ [⟨ops.length, move, exchange⟩]) stands' := by
  have grown : ops <+: ops ++ (exchange.map Prod.fst).toList := List.prefix_append _ _
  have extended : log <+: log ++ [⟨ops.length, move, exchange⟩] := List.prefix_append _ _
  have later : ∀ entry ∈ stands.phase.results, stands.phase.driving = true →
      drive.Explains (ops ++ (exchange.map Prod.fst).toList)
        (log ++ [⟨ops.length, move, exchange⟩]) entry.1 entry.2 :=
    fun entry member driving => ((known.runs driving).explained entry member).later grown extended
  have answers : ∀ {op response}, exchange = some (op, response) →
      drive.Answers (handed log) op response := h.answers accounted known
  cases h with
  | missing reads absent =>
      exact .of_failure (.missing ⟨log, _, _, [], by rw [reads], known.unlooked rfl, grown⟩ absent)
  | loaded reads found =>
      obtain ⟨run, found'⟩ := Repository.stored_later grown found
      exact .of_runs (.begin found' reads rfl rfl) rfl
  | claimed | unclaimed | empty | unfinished | recovered | again | done =>
      exact .of_runs ((known.runs rfl).next grown rfl rfl fun _ member => by cases member) rfl
  | short reads | full reads =>
      exact .of_runs ((known.runs rfl).executes grown reads _) rfl
  | finished => exact .of_return
  | refused => exact absurd (answers rfl) Answers.not_refused
  | unknown => exact absurd (answers rfl) Answers.not_unknown
  | unrecovered => exact absurd (answers rfl) Answers.not_unrecovered
  | idledOut reads out =>
      obtain ⟨earlier, first, between, clock, rfl, instant, quiet⟩ := (known.runs rfl).since
      exact .of_failure (.idled ⟨earlier, first, between, _, [], rfl, quiet, clock, _, _, _,
        instant, reads, out⟩)
  | recorded there answer =>
      refine .of_runs ((known.runs rfl).next grown rfl rfl fun entry member => ?_) rfl
      obtain old | new := mem_results_set member
      · exact later entry old rfl
      · exact .started accounted (accounted.executing there) answer new
  | beaten there answer =>
      refine .of_runs ((known.runs rfl).next grown rfl rfl fun entry member => ?_) rfl
      obtain old | new := mem_results_set member
      · exact later entry old rfl
      · cases new
  | answered there =>
      refine .of_runs ((known.runs rfl).next grown rfl rfl fun entry member => ?_) rfl
      obtain old | new := mem_results_set member
      · exact later entry old rfl
      · obtain rfl := Option.some.inj new
        exact ⟨_, rfl⟩
  | joined ended =>
      refine .of_runs ((known.runs rfl).next grown rfl rfl fun entry member => ?_) rfl
      rw [results_joined ended] at member
      exact later entry member rfl
  | committed answer =>
      exact .of_runs ((known.runs rfl).next grown rfl rfl fun entry member =>
        later entry (List.mem_cons_of_mem _ member) rfl) rfl
  | @rejected t claim completion clock batch error answer =>
      have own := accounted.committing List.mem_cons_self
      obtain ⟨run, found, commits⟩ := accounted.commits own
      obtain ⟨task, built⟩ := (known.runs rfl).explained (claim, .ok completion)
        List.mem_cons_self
      obtain ⟨rfl, late⟩ := Repository.completeStep_refused (Repository.keyed_after ops) found
        (built ▸ commits task) (Response.completed.inj answer)
      refine .of_failure (.lapsed ?_ ⟨⟨move, ?_⟩, List.prefix_rfl⟩ found late)
      · rw [handed_append]
        exact List.mem_append_left _ own
      · exact List.mem_append_right _ List.mem_cons_self
  | failed =>
      have explained := later _ List.mem_cons_self rfl
      exact .of_failure explained
  | still _ elsewhere =>
      refine ⟨fun loading turn member => ?_, fun driving => ?_,
        fun error same => (known.fails error same).later grown extended⟩
      · obtain old | new := List.mem_append.mp member
        · exact known.unlooked loading turn old
        · rw [List.mem_singleton.mp new]
          exact elsewhere loading
      · refine (known.runs driving).next grown rfl (List.append_nil _).symm fun entry member => ?_
        exact later entry member driving

end Step

theorem known_after (events : List (Client.Event Op DriveMove)) :
    drive.Known (drive.client.served repository events) (drive.client.log repository events)
      (drive.client.stands repository events) := by
  refine Client.rule_with (Q := fun is log stands => drive.Accounted is log stands)
    (P := fun is log stands => drive.Known is log stands) accounted_after ?_ ?_ events
  · exact ⟨fun _ turn member => absurd member List.not_mem_nil, fun driving => (by cases driving),
      fun _ same => (by cases same)⟩
  · intro is log stands is' log' stands' steps accounted known
    cases steps with
    | other i =>
        have grown := List.prefix_append is [i]
        refine ⟨known.unlooked, fun driving => ?_, fun error same => (known.fails error same).later
          grown List.prefix_rfl⟩
        obtain ⟨⟨run, found⟩, explained, since⟩ := known.runs driving
        exact ⟨Repository.stored_later grown found,
          fun entry member => (explained entry member).later grown List.prefix_rfl, since⟩
    | called call => exact (receive_transition _ _ call rfl).known accounted known
    | looked silent =>
        have moved := (look_transition _ _ silent).known accounted known
        rwa [Option.map_none, Option.toList_none, List.append_nil] at moved

/-- The answers that a drive has been given. -/
theorem answers_after (events : List (Client.Event Op DriveMove)) :
    ∀ turn ∈ drive.client.log repository events, ∀ op response,
      turn.exchange = some (op, response) →
        drive.Answers (handed (drive.client.log repository events)) op response := by
  refine Client.rule_with
    (Q := fun is log stands => drive.Accounted is log stands ∧ drive.Known is log stands)
    (P := fun _ log _ => ∀ turn ∈ log, ∀ op response, turn.exchange = some (op, response) →
      drive.Answers (handed log) op response)
    (fun events => ⟨accounted_after events, known_after events⟩)
    (fun turn member => absurd member List.not_mem_nil) ?_ events
  rintro is log stands is' log' stands' steps ⟨accounted, known⟩ ih
  obtain ⟨rfl, -⟩ | ⟨move, exchange, transition, rfl, -⟩ := steps_cases steps
  · exact ih
  · intro turn member op response made
    have more : handed log ⊆ handed (log ++ [⟨is.length, move, exchange⟩]) := by
      rw [handed_append]
      exact List.subset_append_left _ _
    obtain old | new := List.mem_append.mp member
    · exact (ih turn old op response made).mono more
    · rw [List.mem_singleton.mp new] at made
      exact (transition.answers accounted known made).mono more

end Drive

/-- A drive fails only for a reason that it cannot help: its run was not stored when it was
looked up, the start of a claimed attempt was no longer valid, a task was not registered, a
claim had lost its lease when it was to be committed, or no claim was handed to it for its
whole idle time. In no interleaving is a completion of it refused as invalid, or a claim, a
sweep or a finish request of it refused at all. -/
theorem drive_fails_for_cause (drive : Drive) (events : List (Client.Event Op DriveMove)) :
    (∀ error, (drive.client.stands repository events).phase = .returned (.error error) →
      drive.Fails (drive.client.served repository events) (drive.client.log repository events)
        error) ∧
    ∀ turn ∈ drive.client.log repository events, ∀ op response,
      turn.exchange = some (op, response) →
        drive.Answers (Drive.handed (drive.client.log repository events)) op response :=
  ⟨(Drive.known_after events).fails, Drive.answers_after events⟩

/-- The run is created, and a drive claims its step and executes it for longer than its lease,
which no heartbeat renews. -/
def Sample.overslept : List (Client.Event Op DriveMove) :=
  Sample.launched.map .other ++ [Sample.goOn 0, Sample.goOn 0, Sample.goOn 0,
    .move (.work 0 (.ok .null) (.at 0)), .move (.work 0 (.ok .null) (.at 20)), Sample.goOn 20,
    Sample.goOn 20]

/-- The error that a call of `resume` has returned. -/
def DrivePhase.error? : DrivePhase → Option OrchestratorError
  | .returned (.error error) => some error
  | _ => none

theorem DrivePhase.returned_of_error? {phase : DrivePhase} {error : OrchestratorError}
    (returned : phase.error? = some error) : phase = .returned (.error error) := by
  cases phase with
  | returned result =>
      cases result with
      | error other => exact congrArg (DrivePhase.returned ∘ .error) (Option.some.inj returned)
      | ok run => cases returned
  | _ => cases returned

/-- A drive that oversleeps its lease fails when it commits. -/
theorem drive_fails_for_cause_overslept :
    Sample.drive.Fails (Sample.drive.client.served repository Sample.overslept)
      (Sample.drive.client.log repository Sample.overslept)
      (.repository (.leaseLost Sample.runId Sample.only.id)) ∧
    ∀ turn ∈ Sample.drive.client.log repository Sample.overslept, ∀ op response,
      turn.exchange = some (op, response) → Sample.drive.Answers
        (Drive.handed (Sample.drive.client.log repository Sample.overslept)) op response := by
  obtain ⟨fails, answers⟩ := drive_fails_for_cause Sample.drive Sample.overslept
  exact ⟨fails _ (DrivePhase.returned_of_error? (by decide +kernel)), answers⟩

end Orchestrator
