import Orchestrator.Repository.Cancel
import Orchestrator.Repository.Ledger
import Orchestrator.Repository.Settled
import Orchestrator.Repository.Stream

/-!
# What the event log shows of a run

A reader of a run's events may fold them into a view of the run without ever loading
it. The view has the status and the error of the run and what is known of each step. A
claim logs nothing, and its worker need not record the start, so the view of a leased
step is that of its last attempt, with a count that says which number the leased one has.
A cancellation ends the steps that no event has named, too.
-/

namespace Orchestrator

/-- What a reader of events knows of a step. -/
structure StepView where
  status : StepStatus
  attempts : UInt32
  fallback : Option TaskId
  error : Option String
  deriving DecidableEq, Repr

namespace StepView

/-- A step that no event has named. -/
def unseen : StepView := { status := .pending, attempts := 0, fallback := none, error := none }

/-- The number of the attempt whose end comes next. -/
def current (view : StepView) : UInt32 :=
  if view.status = .running then view.attempts else view.attempts.saturatingAdd 1

/-- What an event of the step tells. A fallback selection names neither the attempt that
it ends nor its error. -/
def apply (view : StepView) : ExecutionEvent → StepView
  | .stepStarted _ _ _ attempt => { view with status := .running, attempts := attempt }
  | .stepRetrying _ _ attempt error =>
    { view with status := .retrying, attempts := attempt, error := some error }
  | .stepFallbackSelected _ _ task =>
    { status := .retrying, attempts := view.current, fallback := some task, error := none }
  | .stepSucceeded _ _ attempts =>
    { view with status := .succeeded, attempts := attempts, error := none }
  | .stepFailed _ _ attempts error =>
    { view with status := .failed, attempts := attempts, error := some error }
  | .runStarted .. | .runFinished .. => view

/-- A cancelled run cancels the steps that have not ended. -/
def cancel (view : StepView) : StepView :=
  if view.status = .succeeded ∨ view.status = .failed then view
  else { view with status := .cancelled }

end StepView

/-- What a reader of events knows of a run: its status and error, each step that an event has
named, and what all other steps are. -/
structure RunView where
  status : RunStatus
  error : Option String
  steps : BTreeMap StepId StepView
  others : StepView

/-- The error of a run whose gates failed. -/
def gatesFailed : String := "one or more evaluation gates failed"

/-- The error that a failed step leaves in its run. -/
def ExecutionEvent.failed? : ExecutionEvent → Option String
  | .stepFailed _ _ _ error => some error
  | _ => none

namespace RunView

/-- The view before any event. -/
def empty : RunView := { status := .pending, error := none, steps := ∅, others := .unseen }

/-- What is known of a step. -/
def step (view : RunView) (id : StepId) : StepView := (view.steps[id]?).getD view.others

def hasFailed (view : RunView) : Bool :=
  BTreeMap.anyValue view.steps fun step => step.status == .failed

/-- The view after an event of a step. -/
def note (view : RunView) (id : StepId) (event : ExecutionEvent) : RunView :=
  { view with
    error := event.failed? <|> view.error
    steps := view.steps.insert id ((view.step id).apply event) }

/-- The view after the end of the run. A run that fails without a failed step fails by
its gates. -/
def finish (view : RunView) (status : RunStatus) : RunView :=
  { status
    error := if status = .failed ∧ view.hasFailed = false then some gatesFailed else view.error
    steps := if status = .cancelled then view.steps.map fun _ step => step.cancel else view.steps
    others := if status = .cancelled then view.others.cancel else view.others }

theorem finish_cancelled (view : RunView) : view.finish .cancelled =
    { view with
      status := .cancelled
      steps := view.steps.map fun _ step => step.cancel
      others := view.others.cancel } := rfl

theorem finish_of_ne (view : RunView) {status : RunStatus} (uncancelled : status ≠ .cancelled) :
    view.finish status =
      { view with
        status
        error :=
          if status = .failed ∧ view.hasFailed = false then some gatesFailed else view.error } := by
  rw [finish, if_neg uncancelled, if_neg uncancelled]

/-- The view after an event of no step. -/
def mark (view : RunView) : ExecutionEvent → RunView
  | .runFinished _ status => view.finish status
  | _ => { view with status := .running }

def apply (view : RunView) (event : ExecutionEvent) : RunView :=
  match event.stepId? with
  | some id => view.note id event
  | none => view.mark event

/-- The view that the events of a log leave. -/
def replay (log : List EventEnvelope) : RunView :=
  log.foldl (fun view envelope => view.apply envelope.event) .empty

theorem replay_concat (log : List EventEnvelope) (envelope : EventEnvelope) :
    replay (log ++ [envelope]) = (replay log).apply envelope.event := by
  rw [replay, List.foldl_append]
  rfl

theorem apply_of_step {event : ExecutionEvent} {id : StepId} (view : RunView)
    (about : event.stepId? = some id) : view.apply event = view.note id event := by
  rw [apply, about]

theorem step_insert (view : RunView) (id other : StepId) (step : StepView) :
    ({ view with steps := view.steps.insert id step } : RunView).step other =
      if id = other then step else view.step other := by
  rw [RunView.step, BTreeMap.getElem?_insert]
  split <;> rfl

end RunView

/-- The view of a step shows its record. The last attempt of a leased step counts as
one to come, unless its start was recorded. So does an attempt that was cancelled with the run:
it is the last one of the history. -/
structure StepView.Shows (view : StepView) (workflow : WorkflowSpec) (id : StepId)
    (record : StepRecord) : Prop where
  leased : record.lease.isSome = true → view.current = record.attempts ∧
    (view.status = .pending ∨ view.status = .retrying ∨ view.status = .running)
  rested : record.lease = none → record.status ≠ .cancelled →
    view.status = record.status ∧ view.attempts = record.attempts
  cancelled : record.status = .cancelled → view.status = .cancelled ∧
    (view.attempts = record.attempts ∨ view.attempts.saturatingAdd 1 = record.attempts ∧
      ∃ attempt ∈ record.history.getLast?, attempt.status = .cancelled)
  fallback : record.fallbackUsed = view.fallback.isSome
  task : ∀ step ∈ workflow.steps, step.id = id →
    record.task = view.fallback.getD step.task
  error : ∀ error, view.error = some error → record.error = some error

/-- The view shows the run: its status and error, and each step that has a record. -/
structure RunView.Shows (view : RunView) (run : RunRecord) : Prop where
  status : view.status = run.status
  error : view.error = run.error
  others : view.others = .unseen ∨ view.others = StepView.unseen.cancel ∧ run.Closed
  unclaimed : ∀ id : StepId, run.steps[id]? = none → view.steps[id]? = none
  records : ∀ (id : StepId) (record : StepRecord), run.steps[id]? = some record →
    (view.step id).Shows run.workflow id record

namespace StepView.Shows

variable {view : StepView} {workflow : WorkflowSpec} {id : StepId} {record : StepRecord}

/-- A record without a lease, of a run that was not cancelled. -/
theorem of_rested (unleased : record.lease = none) (apart : record.status ≠ .cancelled)
    (status : view.status = record.status) (attempts : view.attempts = record.attempts)
    (fallback : record.fallbackUsed = view.fallback.isSome)
    (task : ∀ step ∈ workflow.steps, step.id = id → record.task = view.fallback.getD step.task)
    (error : ∀ error, view.error = some error → record.error = some error) :
    view.Shows workflow id record := by
  refine ⟨?_, fun _ _ => ⟨status, attempts⟩, fun cancelled => absurd cancelled apart, fallback,
    task, error⟩
  rw [unleased]
  intro leased
  cases leased

/-- Nothing is known of a step that was not claimed. -/
theorem unseen {step : StepSpec} (valid : workflow.validate = some (.ok ()))
    (listed : step ∈ workflow.steps) :
    StepView.unseen.Shows workflow step.id (.new step.id step.task) := by
  refine .of_rested rfl StepStatus.noConfusion rfl rfl rfl ?_ fun _ named => ?_
  · intro other member same
    rw [WorkflowSpec.step_eq_of_id valid member listed same]
    rfl
  · cases named

/-- A claim leaves the view as it is. -/
theorem claim (shows : view.Shows workflow id record) (unleased : record.lease = none)
    (awaits : record.status = .pending ∨ record.status = .retrying) (runId : RunId)
    (worker : WorkerId) (token now leaseMs : UInt64) :
    view.Shows workflow id (record.claim runId record.task worker token now leaseMs) := by
  have apart : record.status ≠ .cancelled := by
    obtain status | status := awaits <;> rw [status] <;> exact StepStatus.noConfusion
  obtain ⟨status, attempts⟩ := shows.rested unleased apart
  refine ⟨fun _ => ⟨?_, ?_⟩, ?_, ?_, shows.fallback, shows.task, shows.error⟩
  · have idle : view.status ≠ .running := by
      rw [status]
      obtain status | status := awaits <;> rw [status] <;> exact StepStatus.noConfusion
    rw [current, if_neg idle, attempts]
    rfl
  · rw [status]
    exact awaits.imp_right .inl
  · intro unleased
    cases unleased
  · intro cancelled
    cases cancelled

/-- So does another expiry of the lease. -/
theorem renew (shows : view.Shows workflow id record) (leased : record.lease.isSome = true)
    (running : record.status = .running) (lease : StepLease) :
    view.Shows workflow id { record with lease := some lease } := by
  refine ⟨fun _ => shows.leased leased, ?_, ?_, shows.fallback, shows.task, shows.error⟩
  · intro unleased
    cases unleased
  · intro cancelled
    rw [running] at cancelled
    cases cancelled

/-- The event of a completion shows the record that it leaves. -/
theorem commit (shows : view.Shows workflow id record) (leased : record.lease.isSome = true)
    {claim : StepClaim} {manifest : RunManifest} {completion : StepCompletion}
    (commits : Commits claim manifest completion) (attempt : claim.attempt = record.attempts)
    (retryNow finishNow : UInt64) :
    (view.apply completion.event).Shows workflow id
      (record.complete completion retryNow finishNow) := by
  have used : (record.fallbackUsed || false) = view.fallback.isSome :=
    (Bool.or_false _).trans shows.fallback
  cases commits with
  | retrying error artifacts retryAfterMs =>
      exact .of_rested rfl StepStatus.noConfusion rfl attempt used shows.task fun _ named => named
  | fallback task error artifacts =>
      refine .of_rested rfl StepStatus.noConfusion rfl (shows.leased leased).1 (Bool.or_true _)
        (fun _ _ _ => rfl) fun _ named => ?_
      cases named
  | succeeded output artifacts =>
      refine .of_rested rfl StepStatus.noConfusion rfl attempt used shows.task fun _ named => ?_
      cases named
  | failed error artifacts =>
      exact .of_rested rfl StepStatus.noConfusion rfl attempt used shows.task fun _ named => named

/-- So does the event of a recovery. -/
theorem recover (shows : view.Shows workflow id record) (leased : record.lease.isSome = true)
    {runId : RunId} {step : StepSpec} {recovered : StepRecord} {now : UInt64}
    {event : ExecutionEvent} (recovers : Recovers runId step record now recovered event) :
    (view.apply event).Shows workflow id recovered := by
  cases recovers with
  | retrying =>
      exact .of_rested rfl StepStatus.noConfusion rfl rfl shows.fallback shows.task
        fun _ named => named
  | fallback =>
      refine .of_rested rfl StepStatus.noConfusion rfl (shows.leased leased).1 rfl
        (fun _ _ _ => rfl) fun _ named => ?_
      cases named
  | failed =>
      exact .of_rested rfl StepStatus.noConfusion rfl rfl shows.fallback shows.task
        fun _ named => named

/-- The view knows whether a step has ended. -/
theorem ended_iff (shows : view.Shows workflow id record)
    (leased : record.lease.isSome = true ↔ record.status = .running) {status : StepStatus}
    (ended : status = .succeeded ∨ status = .failed) :
    view.status = status ↔ record.status = status := by
  cases lease : record.lease with
  | some _ =>
      rw [lease] at leased
      have seen := (shows.leased (lease ▸ rfl)).2
      rw [leased.mp rfl]
      grind
  | none =>
      by_cases cancelled : record.status = .cancelled
      · rw [cancelled, (shows.cancelled cancelled).1]
      · rw [(shows.rested lease cancelled).1]

/-- The view is at most one attempt behind, where that attempt is cancelled. -/
theorem attempts_cases (shows : view.Shows workflow id record) (booked : record.Booked)
    (going : ¬ (record.status = .succeeded ∨ record.status = .failed)) (now : UInt64) :
    view.attempts = record.attempts ∨ view.attempts.saturatingAdd 1 = record.attempts ∧
      ∃ attempt ∈ (record.cancel now).history.getLast?, attempt.status = .cancelled := by
  cases lease : record.lease with
  | some lease' =>
      have number := (shows.leased (lease ▸ rfl)).1
      unfold StepView.current at number
      split at number
      · exact .inl number
      · obtain ⟨earlier, attempt, history, -, under⟩ := booked.leased lease' lease
        refine .inr ⟨number, { attempt with finishedAtMs := some now, status := .cancelled },
          ?_, rfl⟩
        rw [StepRecord.cancel, if_neg (by simpa using going)]
        change _ ∈ (record.history.modifyLast _).getLast?
        rw [history, List.modifyLast_concat, if_pos (beq_iff_eq.mpr under.running)]
        exact List.getLast?_concat
  | none =>
      rw [booked.cancel_history lease]
      by_cases cancelled : record.status = .cancelled
      · exact (shows.cancelled cancelled).2
      · exact .inl (shows.rested lease cancelled).2

/-- A step that a cancellation of its run meets. -/
theorem cancel (shows : view.Shows workflow id record)
    (leased : record.lease.isSome = true ↔ record.status = .running) (booked : record.Booked)
    (now : UInt64) : view.cancel.Shows workflow id (record.cancel now) := by
  have ends : view.status = .succeeded ∨ view.status = .failed ↔
      record.status = .succeeded ∨ record.status = .failed :=
    or_congr (shows.ended_iff leased (.inl rfl)) (shows.ended_iff leased (.inr rfl))
  by_cases ended : record.status = .succeeded ∨ record.status = .failed
  · have same : record.cancel now = record := by
      rw [StepRecord.cancel, if_pos (by simpa using ended)]
    rw [same, StepView.cancel, if_pos (ends.mpr ended)]
    exact shows
  · have counted := shows.attempts_cases booked ended now
    have cancelled : record.cancel now = { record with
        history := (record.cancel now).history, status := .cancelled, lease := none } := by
      rw [StepRecord.cancel, if_neg (by simpa using ended)]
    rw [cancelled, StepView.cancel, if_neg fun seen => ended (ends.mp seen)]
    refine ⟨?_, fun _ apart => absurd rfl apart, fun _ => ⟨rfl, counted⟩,
      shows.fallback, shows.task, shows.error⟩
    intro leased
    cases leased

end StepView.Shows

/-- The end of an attempt, as a reader takes it. -/
theorem StepView.apply_of_ended {event : ExecutionEvent} {id : StepId} {attempt : UInt32}
    {status : StepStatus} (view : StepView) (ended : event.ended = some (id, attempt, status)) :
    view.apply event = { view with status, attempts := attempt, error := event.failure } := by
  cases event with
  | stepRetrying | stepSucceeded | stepFailed => cases ended; rfl
  | _ => cases ended

/-- An event that is recorded of a step tells nothing new but the start of an attempt. -/
theorem StepView.Shows.record {run : RunRecord} {event : ExecutionEvent} {id : StepId}
    {record : StepRecord} {view : StepView} (shows : view.Shows run.workflow id record)
    (leased : record.lease.isSome = true ↔ record.status = .running)
    (found : run.steps[id]? = some record) (about : event.stepId? = some id)
    (accepted : eventIsValidForRecord run event = true)
    (unselected : event.selection id = none) :
    (view.apply event).Shows run.workflow id record := by
  have of_ended : ∀ {attempt : UInt32} {status : StepStatus},
      event.ended = some (id, attempt, status) → status ≠ .running → status ≠ .cancelled →
        (view.apply event).Shows run.workflow id record := by
    intro attempt status ended idle apart
    obtain ⟨-, -, record', found', rfl, attempts, failure, -⟩ :=
      (recorded_iff_of_ended ended).mp accepted
    obtain rfl := Option.some.inj (found.symm.trans found')
    have unleased : record.lease = none :=
      Option.not_isSome_iff_eq_none.mp fun held => idle (leased.mp held)
    rw [StepView.apply_of_ended view ended]
    exact .of_rested unleased apart rfl attempts.symm shows.fallback shows.task failure
  cases event with
  | stepStarted runId stepId task attempt =>
      obtain rfl := Option.some.inj about
      simp [eventIsValidForRecord, found] at accepted
      obtain ⟨-, ⟨⟨⟨-, running⟩, -⟩, rfl⟩, -⟩ := accepted
      refine ⟨fun _ => ⟨rfl, .inr (.inr rfl)⟩, ?_, ?_, shows.fallback, shows.task, shows.error⟩
      · intro unleased
        rw [unleased] at leased
        cases leased.mpr running
      · intro cancelled
        rw [running] at cancelled
        cases cancelled
  | stepFallbackSelected runId stepId task =>
      obtain rfl := Option.some.inj about
      simp [ExecutionEvent.selection] at unselected
  | stepRetrying runId stepId attempt error =>
      obtain rfl := Option.some.inj about
      exact of_ended rfl StepStatus.noConfusion StepStatus.noConfusion
  | stepSucceeded runId stepId attempts =>
      obtain rfl := Option.some.inj about
      exact of_ended rfl StepStatus.noConfusion StepStatus.noConfusion
  | stepFailed runId stepId attempts error =>
      obtain rfl := Option.some.inj about
      exact of_ended rfl StepStatus.noConfusion StepStatus.noConfusion
  | runStarted | runFinished => cases about

namespace RunView

variable {view : RunView} {run run' : RunRecord} {id : StepId} {record' : StepRecord}

/-- One record is put into the run, and the others stay. -/
def Puts (run run' : RunRecord) (id : StepId) (record' : StepRecord) : Prop :=
  run'.workflow = run.workflow ∧
    ∀ other : StepId, run'.steps[other]? = if id = other then some record' else run.steps[other]?

theorem Puts.insert (workflow : run'.workflow = run.workflow)
    (steps : run'.steps = run.steps.insert id record') : Puts run run' id record' := by
  refine ⟨workflow, fun other => ?_⟩
  rw [steps, BTreeMap.getElem?_insert]

namespace Shows

/-- What is known of the other steps stays, while a closed run stays closed. -/
theorem others_kept (shows : view.Shows run) (closed : run.Closed → run'.Closed) :
    view.others = .unseen ∨ view.others = StepView.unseen.cancel ∧ run'.Closed :=
  shows.others.imp_right (And.imp_right closed)

/-- A change of which nothing is seen. -/
theorem same (shows : view.Shows run) (status : run'.status = run.status)
    (error : run'.error = run.error) (workflow : run'.workflow = run.workflow)
    (steps : run'.steps = run.steps) : view.Shows run' := by
  refine ⟨shows.status.trans status.symm, shows.error.trans error.symm, ?_, ?_, ?_⟩
  · refine shows.others_kept fun closed => ⟨status ▸ closed.ended, ?_⟩
    rw [RunRecord.Unleased, steps]
    exact closed.unleased
  · rw [steps]
    exact shows.unclaimed
  · rw [steps, workflow]
    exact shows.records

/-- A change of one record of which no event tells. -/
theorem keep (shows : view.Shows run) (closed : run.Closed → run'.Closed)
    (puts : Puts run run' id record') (status : run'.status = run.status)
    (error : run'.error = run.error) (one : (view.step id).Shows run.workflow id record') :
    view.Shows run' := by
  refine ⟨shows.status.trans status.symm, shows.error.trans error.symm, shows.others_kept closed,
    ?_, ?_⟩
  · intro other absent
    rw [puts.2] at absent
    split at absent
    · cases absent
    · exact shows.unclaimed other absent
  · intro other record found
    rw [puts.1]
    rw [puts.2] at found
    split at found
    next same =>
      subst same
      obtain rfl := Option.some.inj found
      exact one
    · exact shows.records other record found

/-- A change of one record with the event that tells of it. -/
theorem note (shows : view.Shows run) (closed : run.Closed → run'.Closed)
    {event : ExecutionEvent} (about : event.stepId? = some id) (puts : Puts run run' id record')
    (status : run'.status = run.status)
    (error : run'.error = (event.failed? <|> run.error))
    (one : ((view.step id).apply event).Shows run.workflow id record') :
    (view.apply event).Shows run' := by
  rw [apply_of_step view about]
  refine ⟨shows.status.trans status.symm, ?_, shows.others_kept closed, ?_, ?_⟩
  · rw [error, ← shows.error]
    rfl
  · intro other absent
    rw [puts.2] at absent
    split at absent
    · cases absent
    next apart =>
      rw [RunView.note, BTreeMap.getElem?_insert, if_neg apart]
      exact shows.unclaimed other absent
  · intro other record found
    have step : (view.note id event).step other =
        if id = other then (view.step id).apply event else view.step other :=
      step_insert _ id other _
    rw [puts.1, step]
    rw [puts.2] at found
    split at found
    next same =>
      subst same
      obtain rfl := Option.some.inj found
      rw [if_pos rfl]
      exact one
    next apart =>
      rw [if_neg apart]
      exact shows.records other record found

/-- The view knows whether a step has failed. -/
theorem hasFailed_eq (shows : view.Shows run) (sound : run.Sound) :
    view.hasFailed = run.hasFailed := by
  apply Bool.eq_iff_iff.mpr
  rw [RunRecord.hasFailed_iff]
  simp only [hasFailed, BTreeMap.anyValue_iff, beq_iff_eq]
  have agrees : ∀ {id : StepId} {record : StepRecord}, run.steps[id]? = some record →
      ((view.step id).status = .failed ↔ record.status = .failed) := fun found =>
    (shows.records _ _ found).ended_iff (sound.records _ _ found).leased (.inr rfl)
  constructor
  · rintro ⟨id, seen, known, failed⟩
    have step : view.step id = seen := by rw [step, known]; rfl
    cases found : run.steps[id]? with
    | none =>
        rw [shows.unclaimed id found] at known
        cases known
    | some record => exact ⟨id, record, found, (agrees found).mp (step ▸ failed)⟩
  · rintro ⟨id, record, found, failed⟩
    have failed := (agrees found).mpr failed
    cases known : view.steps[id]? with
    | none =>
        rw [step, known, Option.getD_none] at failed
        obtain unseen | ⟨stopped, -⟩ := shows.others
        · rw [unseen] at failed
          cases failed
        · rw [stopped] at failed
          cases failed
    | some seen =>
        rw [step, known] at failed
        exact ⟨id, seen, known, failed⟩

/-- The end of a run by its steps and gates. -/
theorem finish (shows : view.Shows run) (closed : run.Closed → run'.Closed) (sound : run.Sound)
    {status : RunStatus}
    (ended : run'.status = status) (uncancelled : status ≠ .cancelled)
    (workflow : run'.workflow = run.workflow) (steps : run'.steps = run.steps)
    (error : run'.error =
      if status = .failed ∧ run.hasFailed = false then some gatesFailed else run.error) :
    (view.finish status).Shows run' := by
  rw [finish_of_ne view uncancelled]
  refine ⟨ended.symm, ?_, shows.others_kept closed, ?_, ?_⟩
  · rw [error, ← shows.error, ← shows.hasFailed_eq sound]
  · intro id
    rw [steps]
    exact shows.unclaimed id
  · intro id record found
    rw [steps] at found
    rw [workflow]
    exact shows.records id record found

/-- The end of a run by a cancellation. -/
theorem cancel (shows : view.Shows run) (sound : run.Sound) (booked : run.Booked)
    (now : StepId → UInt64) : (view.finish .cancelled).Shows (run.cancelSteps now) := by
  refine ⟨rfl, shows.error, .inr ⟨?_, rfl, ?_⟩, ?_, ?_⟩
  · show view.others.cancel = _
    obtain unseen | ⟨stopped, -⟩ := shows.others
    · rw [unseen]
    · rw [stopped]
      rfl
  · intro id record found
    rw [RunRecord.cancelSteps_steps, Std.ExtTreeMap.getElem?_map, Option.map_eq_some_iff] at found
    obtain ⟨old, found, rfl⟩ := found
    exact (sound.records id old found).cancel_lease _
  · intro id absent
    rw [RunRecord.cancelSteps_steps, Std.ExtTreeMap.getElem?_map, Option.map_eq_none_iff] at absent
    show (view.steps.map fun _ step => step.cancel)[id]? = none
    rw [Std.ExtTreeMap.getElem?_map, shows.unclaimed id absent]
    rfl
  · intro id record found
    rw [RunRecord.cancelSteps_steps, Std.ExtTreeMap.getElem?_map, Option.map_eq_some_iff] at found
    obtain ⟨old, found, rfl⟩ := found
    have step : (view.finish .cancelled).step id = (view.step id).cancel := by
      rw [finish_cancelled, RunView.step, RunView.step, Std.ExtTreeMap.getElem?_map]
      cases view.steps[id]? <;> rfl
    rw [step]
    exact (shows.records id old found).cancel (sound.records id old found).leased
      (booked id old found) (now id)

end Shows

end RunView

/-- The event of a completion names the error that a failed record leaves in its run. -/
theorem Commits.failed? {claim : StepClaim} {manifest : RunManifest} {completion : StepCompletion}
    (h : Commits claim manifest completion) (error : Option String) :
    (completion.event.failed? <|> error) =
      if completion.status = .failed then completion.error else error := by
  cases h <;> rfl

theorem Recovers.failed? {runId : RunId} {step : StepSpec} {record recovered : StepRecord}
    {now : UInt64} {event : ExecutionEvent} (h : Recovers runId step record now recovered event)
    (error : Option String) :
    (event.failed? <|> error) =
      if recovered.status = .failed ∧ recovered.error.isSome then recovered.error else error := by
  cases h <;> rfl

/-- The start and the end of a run are logged when they happen, and not recorded again. -/
theorem RunRecord.Announced.stepId? {run : RunRecord} {event : ExecutionEvent}
    (announced : run.Announced) (accepted : eventIsValidForRecord run event = true) :
    ∃ id record, event.stepId? = some id ∧ run.steps[id]? = some record := by
  cases event with
  | runStarted runId workflowId =>
      obtain ⟨envelope, member, _, _, about⟩ := announced.started
      simp [eventIsValidForRecord, alreadyLogged] at accepted
      exact absurd (accepted.2.2 envelope member) (by rw [about]; simp)
  | runFinished runId status =>
      obtain ⟨terminal, unlogged⟩ := ended_of_runFinished accepted rfl
      obtain ⟨envelope, member, finished⟩ := List.countP_pos_iff.mp (announced.ended terminal)
      rw [unlogged envelope member] at finished
      cases finished
  | stepStarted _ id | stepRetrying _ id | stepFallbackSelected _ id | stepSucceeded _ id
    | stepFailed _ id =>
      cases found : run.steps[id]? with
      | none => simp [eventIsValidForRecord, found] at accepted
      | some record => exact ⟨id, record, rfl, found⟩

/-- The log of the run tells of the run as it stands. -/
structure RunRecord.Told (run : RunRecord) : Prop where
  shown : (RunView.replay run.eventLog).Shows run
  failures : ∀ (id : StepId) (record : StepRecord), run.steps[id]? = some record →
    record.status = .failed → ∃ envelope ∈ run.eventLog,
      envelope.event.ended = some (id, record.attempts, .failed)
  gates : run.status = .failed → run.hasFailed = true ∨ run.error = some gatesFailed

namespace RunRecord.Told

variable {token : UInt64} {action : RunAction} {run run' : RunRecord}

/-- A step that failed is not recorded as failed again. -/
theorem unfailed (told : run.Told) {event : ExecutionEvent}
    (accepted : eventIsValidForRecord run event = true) : event.failed? = none := by
  cases event with
  | stepFailed runId id attempts error =>
      obtain ⟨-, -, record, found, failed, rfl, -, unlogged⟩ :=
        (recorded_iff_of_ended rfl).mp accepted
      obtain ⟨envelope, member, ended⟩ := told.failures id record found failed
      exact absurd ended (unlogged envelope member)
  | _ => rfl

/-- The error that the end of a run leaves. -/
theorem settle_error (run : RunRecord) (metrics : List Metric) :
    (run.setMetrics metrics).settle.error =
      if (run.setMetrics metrics).verdict = .failed ∧ run.hasFailed = false then some gatesFailed
      else run.error := by
  rw [settle_eq, verdict, setMetrics_hasFailed]
  cases run.hasFailed with
  | true => simp [setMetrics]
  | false => cases (run.setMetrics metrics).gatesPassed <;> simp [setMetrics, gatesFailed]

theorem shows (told : run.Told) (h : RunStep token action run run') (sound : run.Sound)
    (booked : run.Booked) (announced : run.Announced) (budgeted : run.Budgeted)
    (presented : Presented run action) : (RunView.replay run'.eventLog).Shows run' := by
  have shown := told.shown
  have closed := h.closed_kept
  have workflow := h.sameRequest.workflow
  cases h with
  | @claim _ step taskId task dependencies worker seen now leaseMs running listed candidate known =>
      have awaits : ∀ {record : StepRecord}, run.steps[step.id]? = some record →
          record.lease = none ∧ (record.status = .pending ∨ record.status = .retrying) :=
        fun found => Repository.waits_of_candidate candidate found
      obtain ⟨-, rfl, -⟩ := Repository.claimCandidate_eq_some.mp candidate
      refine shown.keep closed (.insert rfl rfl) rfl rfl ?_
      cases found : run.steps[step.id]? with
      | none =>
          have unseen : (RunView.replay run.eventLog).step step.id = .unseen := by
            rw [RunView.step, shown.unclaimed _ found]
            refine shown.others.resolve_right fun stopped => ?_
            have ended := stopped.2.ended
            rw [running] at ended
            cases ended
          have task : selectedTask run step = step.task := by rw [selectedTask, found]
          rw [claimed, entry, found, unseen, task]
          exact (StepView.Shows.unseen sound.accepted.valid listed).claim rfl (.inl rfl) _ _ _ _ _
      | some record =>
          have task : selectedTask run step = record.task := by rw [selectedTask, found]
          obtain ⟨unleased, status⟩ := awaits found
          rw [claimed, entry, found, task]
          exact (shown.records _ _ found).claim unleased status _ _ _ _ _
  | @renew _ record lease claim now again leaseMs found leased valid =>
      have safe := sound.records _ _ found
      have held : record.lease.isSome = true := leased ▸ rfl
      exact shown.keep closed (.insert rfl rfl) rfl rfl
        ((shown.records _ _ found).renew held (safe.leased.mp held) _)
  | @complete _ record lease claim completion now retryNow finishNow sequence eventNow found leased
      valid accepted =>
      have commits := completionMatchesClaim_iff.mp accepted
      simp only [StepLease.validFor, Bool.and_eq_true, beq_iff_eq] at valid
      have mirrors := presented claim completion record lease rfl found leased valid.1.2
      rw [logged_eventLog, commit_eventLog, RunView.replay_concat]
      refine shown.note closed commits.stepId? (.insert workflow (commit_steps _ _ _))
        (commit_status _ _ _) ?_
        ((shown.records _ _ found).commit (leased ▸ rfl) commits mirrors.attempt retryNow finishNow)
      change (noteFailure _ _).error = _
      rw [noteFailure_eq]
      exact (commits.failed? run.error).symm
  | record event sequence eventNow accepted =>
      rw [logged_eventLog, RunView.replay_concat]
      obtain ⟨id, record, about, found⟩ := announced.stepId? accepted
      have safe := sound.records _ _ found
      refine shown.note closed about ⟨rfl, ?_⟩ rfl ?_ ((shown.records _ _ found).record safe.leased
        found about accepted (selection_of_recorded (budgeted.logged id) accepted))
      · intro other
        split
        next same => exact same ▸ found
        · rfl
      · change run.error = (event.failed? <|> run.error)
        rw [told.unfailed accepted]
        rfl
  | measure => exact shown.same rfl rfl rfl rfl
  | settle metrics settled same =>
      rw [settle_status] at same
      have error : (run.setMetrics metrics).settle.error = run.error := by
        rw [settle_error, same, ite_eq_right_iff]
        rintro ⟨failed, unfailed⟩
        obtain failures | gates := told.gates failed
        · rw [unfailed] at failures
          cases failures
        · exact gates.symm
      rw [settle_eventLog]
      exact shown.same ((settle_status _).trans same) error workflow (settle_steps _)
  | finish metrics sequence eventNow settled changed =>
      rw [settle_status] at closed
      rw [logged_eventLog, settle_eventLog, RunView.replay_concat, settle_status]
      exact shown.finish closed sound (settle_status _) (verdict_ne_cancelled _) workflow
        (settle_steps _)
        (settle_error run metrics)
  | cancel now sequence eventNow active =>
      rw [logged_eventLog, RunView.replay_concat]
      exact (shown.cancel sound booked now).same rfl rfl rfl rfl
  | @recover _ step record recovered event now sequence eventNow listed found expired =>
      obtain ⟨⟨lease, leased, -⟩, recovers⟩ := recoverExpiredStep_eq_some expired
      have safe := sound.records _ _ found
      rw [logged_eventLog, noteRecovery_eventLog, RunView.replay_concat]
      refine shown.note closed (recovers.stepId?.trans (congrArg some safe.named))
        (.insert workflow (noteRecovery_steps _ _)) (noteRecovery_status _ _) ?_
        ((shown.records _ _ found).recover (leased ▸ rfl) recovers)
      change (noteRecovery _ _).error = _
      rw [noteRecovery_eq]
      exact (recovers.failed? run.error).symm

/-- A record that fails in this step does so with the event of its failure. -/
theorem failure (h : RunStep token action run run') (presented : Presented run action)
    (sound : run.Sound) {id : StepId} {record : StepRecord}
    (found : run'.steps[id]? = some record) (failed : record.status = .failed) :
    run.steps[id]? = some record ∨ ∃ envelope, run'.eventLog = run.eventLog ++ [envelope] ∧
      envelope.event.ended = some (id, record.attempts, .failed) := by
  have put : ∀ {k : StepId} {new : StepRecord}, run'.steps = run.steps.insert k new →
      (new.status = .failed → ∃ envelope, run'.eventLog = run.eventLog ++ [envelope] ∧
        envelope.event.ended = some (k, new.attempts, .failed)) →
      run.steps[id]? = some record ∨ ∃ envelope, run'.eventLog = run.eventLog ++ [envelope] ∧
        envelope.event.ended = some (id, record.attempts, .failed) := by
    intro k new steps ends
    rw [steps, BTreeMap.getElem?_insert] at found
    split at found
    next same =>
      subst same
      obtain rfl := Option.some.inj found
      exact .inr (ends failed)
    · exact .inl found
  cases h with
  | claim =>
      refine put rfl fun failed => ?_
      cases failed
  | renew claim now again leaseMs before leased =>
      exact put rfl fun failed =>
        absurd (congrArg StepStatus.final failed) ((sound.records _ _ before).not_final leased)
  | @complete _ old lease claim completion now retryNow finishNow sequence eventNow before leased
      valid accepted =>
      simp only [StepLease.validFor, Bool.and_eq_true, beq_iff_eq] at valid
      have mirrors := presented claim completion old lease rfl before leased valid.1.2
      refine put (commit_steps _ _ _) fun failed =>
        ⟨_, congrArg (· ++ _) (commit_eventLog _ _ _), ?_⟩
      cases completionMatchesClaim_iff.mp accepted with
      | failed => exact congrArg (fun n => some (_, n, _)) mirrors.attempt
      | _ => cases failed
  | record => exact .inl found
  | measure => exact .inl found
  | settle => exact .inl (by simpa using found)
  | finish => exact .inl (by simpa using found)
  | cancel now =>
      rw [logged_steps, cancelSteps_steps, Std.ExtTreeMap.getElem?_map,
        Option.map_eq_some_iff] at found
      obtain ⟨old, before, rfl⟩ := found
      unfold StepRecord.cancel at failed ⊢
      split at failed
      next settled =>
        rw [if_pos settled]
        exact .inl before
      · cases failed
  | @recover _ step old recovered event now sequence eventNow listed before expired =>
      have named := (sound.records _ _ before).named
      refine put (noteRecovery_steps _ _) fun failed =>
        ⟨_, congrArg (· ++ _) (noteRecovery_eventLog _ _), ?_⟩
      cases (recoverExpiredStep_eq_some expired).2 with
      | failed => exact congrArg (fun k => some (k, _, _)) named
      | _ => cases failed

/-- A run that failed has a failed step or failed by its gates. -/
theorem gates_next (told : run.Told) (h : RunStep token action run run') (sound : run.Sound)
    (failed : run'.status = .failed) : run'.hasFailed = true ∨ run'.error = some gatesFailed := by
  cases failure : run'.hasFailed with
  | true => exact .inl rfl
  | false =>
      have nothing : ∀ (id : StepId) {record : StepRecord}, run'.steps[id]? = some record →
          record.status ≠ .failed := by
        intro id record found status
        rw [hasFailed_iff.mpr ⟨id, record, found, status⟩] at failure
        cases failure
      have unfailed : run.hasFailed = false := by
        refine Bool.eq_false_iff.mpr fun failed => ?_
        obtain ⟨id, record, found, status⟩ := hasFailed_iff.mp failed
        exact nothing id (h.final_kept sound found (congrArg StepStatus.final status)) status
      have before : run.status = .failed → run.error = some gatesFailed := fun failed =>
        (told.gates failed).resolve_left (by rw [unfailed]; exact Bool.false_ne_true)
      right
      cases h with
      | claim worker seen now leaseMs running =>
          rw [bump_status, setStep_status, running] at failed
          cases failed
      | renew => exact before failed
      | complete claim completion now retryNow finishNow =>
          rw [logged_status, commit_status] at failed
          change (noteFailure _ _).error = _
          rw [noteFailure_eq]
          refine (if_neg (nothing claim.step.id ?_)).trans (before failed)
          rw [logged_steps, commit_steps, BTreeMap.getElem?_insert, if_pos rfl]
      | record => exact before failed
      | measure => exact before failed
      | settle metrics =>
          rw [settle_status] at failed
          rw [settle_error, if_pos ⟨failed, unfailed⟩]
      | finish metrics =>
          rw [logged_status, settle_status] at failed
          exact (settle_error run metrics).trans (if_pos ⟨failed, unfailed⟩)
      | cancel =>
          rw [logged_status, cancelSteps_status] at failed
          cases failed
      | @recover _ step record recovered =>
          rw [logged_status, noteRecovery_status] at failed
          change (noteRecovery _ _).error = _
          rw [noteRecovery_eq]
          refine (if_neg fun gone => nothing step.id ?_ gone.1).trans (before failed)
          rw [logged_steps, noteRecovery_steps, setStep_steps, BTreeMap.getElem?_insert, if_pos rfl]

theorem step (told : run.Told) (h : RunStep token action run run') (sound : run.Sound)
    (booked : run.Booked) (announced : run.Announced) (budgeted : run.Budgeted)
    (presented : Presented run action) : run'.Told := by
  refine ⟨told.shows h sound booked announced budgeted presented, ?_, told.gates_next h sound⟩
  intro id record found failed
  obtain kept | ⟨envelope, log, ended⟩ := failure h presented sound found failed
  · obtain ⟨envelope, member, ended⟩ := told.failures id record kept failed
    refine ⟨envelope, ?_, ended⟩
    obtain same | ⟨last, log, -⟩ := h.log_cases
    · exact same ▸ member
    · exact log ▸ List.mem_append_left _ member
  · exact ⟨envelope, log ▸ List.mem_append_right _ (List.mem_singleton_self _), ended⟩

theorem created (request : RunRequest) (now sequence eventNow : UInt64) :
    (RunRecord.created request now sequence eventNow).Told := by
  refine ⟨⟨rfl, rfl, .inl rfl, fun _ _ => rfl, ?_⟩, ?_, fun failed => ?_⟩
  · intro id record found
    simp [RunRecord.created, RunRecord.new] at found
  · intro id record found
    simp [RunRecord.created, RunRecord.new] at found
  · cases failed

end RunRecord.Told

theorem RunRecord.Announced.created (request : RunRequest) (now sequence eventNow : UInt64) :
    (RunRecord.created request now sequence eventNow).Announced := by
  refine ⟨⟨_, List.mem_singleton_self _, _, _, rfl⟩, fun terminal => ?_⟩
  cases terminal

theorem RunRecord.Booked.created (request : RunRequest) (now sequence eventNow : UInt64) :
    (RunRecord.created request now sequence eventNow).Booked := by
  intro id record found
  simp [RunRecord.created, RunRecord.new] at found

/-- A step that was cancelled under its first lease is seen as cancelled, although no event has
named it. -/
example : (RunView.replay ((repository.after (cancelledUnderLease ++
    [.cancelRun Sample.runId (.at 1)])).log Sample.runId)).step ⟨"left"⟩ =
      { StepView.unseen with status := .cancelled } := by decide +kernel

end Orchestrator
