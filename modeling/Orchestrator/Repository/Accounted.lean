import Orchestrator.Repository.LateWork

/-!
# The account of a log

`event_is_valid_for_record` compares an event with the record of its step and looks for
the number of the attempt in the log. It finds the event that a completion or a recovery
logged when that event has the number of the attempt it ended. A fallback selection has
no number, and a completion has the number of the claim that the caller presents.
`RunRecord.Accounted` is what a log keeps while the numbers of ended attempts are logged.
-/

namespace Orchestrator

open Json (Value)

/-- The attempt that an event says has ended, and the status it left. -/
def ExecutionEvent.ended : ExecutionEvent → Option (StepId × UInt32 × StepStatus)
  | .stepRetrying _ stepId attempt _ => some (stepId, attempt, .retrying)
  | .stepSucceeded _ stepId attempts => some (stepId, attempts, .succeeded)
  | .stepFailed _ stepId attempts _ => some (stepId, attempts, .failed)
  | _ => none

/-- The error that the event of a failed attempt names. -/
def ExecutionEvent.failure : ExecutionEvent → Option String
  | .stepRetrying _ _ _ error | .stepFailed _ _ _ error => some error
  | _ => none

/-- The attempt whose outcome an event is: the one it names, and for a fallback selection
the one that the step is on. -/
def ExecutionEvent.outcome (run : RunRecord) (event : ExecutionEvent) : Option (StepId × UInt32) :=
  match event with
  | .stepFallbackSelected _ stepId _ =>
    run.steps[stepId]?.map fun record => (stepId, record.attempts)
  | event => event.ended.map fun (stepId, attempt, _) => (stepId, attempt)

/-- The outcomes in the log of the run after its first `n` events. -/
def RunRecord.outcomesSince (run : RunRecord) (n : Nat) : List (StepId × UInt32) :=
  (run.eventLog.drop n).filterMap fun envelope => envelope.event.outcome run

section Ended

variable {run : RunRecord} {event : ExecutionEvent} {id : StepId} {attempt : UInt32}
  {status : StepStatus}

theorem ExecutionEvent.outcome_of_ended (ended : event.ended = some (id, attempt, status)) :
    event.outcome run = some (id, attempt) := by
  cases event with
  | stepFallbackSelected => cases ended
  | _ => simp [outcome, ended]

theorem ExecutionEvent.ended_of_outcome (silent : event.outcome run = none) :
    event.ended = none := by
  cases event with
  | stepFallbackSelected => rfl
  | _ => simpa [outcome] using silent

/-- The search in the log is for the attempt and the status. -/
theorem alreadyLogged_ended {same : ExecutionEvent → Bool}
    (agrees : ∀ event : ExecutionEvent,
      same event = true ↔ event.ended = some (id, attempt, status)) :
    alreadyLogged run same = false ↔
      ∀ envelope ∈ run.eventLog, envelope.event.ended ≠ some (id, attempt, status) := by
  simp only [alreadyLogged, List.any_eq_false, agrees, ne_eq]

/-- When the outcome of an attempt is recorded: the record of the step has it, and the log
does not. -/
theorem recorded_iff_of_ended (ended : event.ended = some (id, attempt, status)) :
    eventIsValidForRecord run event = true ↔
      event.runId = run.runId ∧ run.status = .running ∧
        ∃ record, run.steps[id]? = some record ∧ record.status = status ∧
          record.attempts = attempt ∧
          (∀ error, event.failure = some error → record.error = some error) ∧
          ∀ envelope ∈ run.eventLog, envelope.event.ended ≠ some (id, attempt, status) := by
  cases event with
  | stepRetrying runId stepId number error =>
      obtain ⟨rfl, rfl, rfl⟩ : stepId = id ∧ number = attempt ∧ .retrying = status := by
        simpa [ExecutionEvent.ended] using ended
      cases found : run.steps[stepId]? with
      | none => simp [eventIsValidForRecord, found]
      | some record =>
          simp only [eventIsValidForRecord, bne_iff_ne, ne_eq, found, ite_not, Bool.if_false_right,
            Bool.and_eq_true, decide_eq_true_eq, beq_iff_eq, and_assoc, Bool.not_eq_eq_eq_not,
            Bool.not_true, Option.some.injEq, ExecutionEvent.failure, forall_eq',
            exists_eq_left', and_congr_right_iff]
          exact fun _ _ _ _ _ => alreadyLogged_ended fun event => by
            cases event <;> simp [ExecutionEvent.ended]
  | stepSucceeded runId stepId number =>
      obtain ⟨rfl, rfl, rfl⟩ : stepId = id ∧ number = attempt ∧ .succeeded = status := by
        simpa [ExecutionEvent.ended] using ended
      cases found : run.steps[stepId]? with
      | none => simp [eventIsValidForRecord, found]
      | some record =>
          simp only [eventIsValidForRecord, bne_iff_ne, ne_eq, found, ite_not, Bool.if_false_right,
            Bool.and_eq_true, decide_eq_true_eq, beq_iff_eq, and_assoc, Bool.not_eq_eq_eq_not,
            Bool.not_true, Option.some.injEq, ExecutionEvent.failure, reduceCtorEq,
            IsEmpty.forall_iff, implies_true, true_and, exists_eq_left', and_congr_right_iff]
          exact fun _ _ _ _ => alreadyLogged_ended fun event => by
            cases event <;> simp [ExecutionEvent.ended]
  | stepFailed runId stepId number error =>
      obtain ⟨rfl, rfl, rfl⟩ : stepId = id ∧ number = attempt ∧ .failed = status := by
        simpa [ExecutionEvent.ended] using ended
      cases found : run.steps[stepId]? with
      | none => simp [eventIsValidForRecord, found]
      | some record =>
          simp only [eventIsValidForRecord, bne_iff_ne, ne_eq, found, ite_not, Bool.if_false_right,
            Bool.and_eq_true, decide_eq_true_eq, beq_iff_eq, and_assoc, Bool.not_eq_eq_eq_not,
            Bool.not_true, Option.some.injEq, ExecutionEvent.failure, forall_eq',
            exists_eq_left', and_congr_right_iff]
          exact fun _ _ _ _ _ => alreadyLogged_ended fun event => by
            cases event <;> simp [ExecutionEvent.ended]
  | _ => cases ended

end Ended

/-- A completion selects a fallback, or its event has the number of the claim. -/
theorem Commits.ended_cases {claim : StepClaim} {manifest : RunManifest}
    {completion : StepCompletion} (h : Commits claim manifest completion) :
    completion.status ≠ .running ∧
      (completion.fallbackUsed = true ∧ completion.status = .retrying ∧
          completion.error.isSome = true ∧
          (∃ task, completion.event = .stepFallbackSelected claim.runId claim.step.id task) ∨
        completion.fallbackUsed = false ∧
          (completion.status = .succeeded ∨
            (completion.status = .retrying ∨ completion.status = .failed) ∧
              completion.error.isSome = true) ∧
          completion.event.ended = some (claim.step.id, claim.attempt, completion.status)) := by
  cases h with
  | retrying => exact ⟨StepStatus.noConfusion, .inr ⟨rfl, .inr ⟨.inl rfl, rfl⟩, rfl⟩⟩
  | fallback => exact ⟨StepStatus.noConfusion, .inl ⟨rfl, rfl, rfl, _, rfl⟩⟩
  | succeeded => exact ⟨StepStatus.noConfusion, .inr ⟨rfl, .inl rfl, rfl⟩⟩
  | failed => exact ⟨StepStatus.noConfusion, .inr ⟨rfl, .inr ⟨.inr rfl, rfl⟩, rfl⟩⟩

/-- A recovery selects a fallback, or its event has the number of the record. -/
theorem Recovers.ended_cases {runId : RunId} {step : StepSpec} {record recovered : StepRecord}
    {now : UInt64} {event : ExecutionEvent} (h : Recovers runId step record now recovered event) :
    recovered.attempts = record.attempts ∧ recovered.lease = none ∧
      recovered.status ≠ .running ∧
      ((∃ task, step.policy.fallbackTask = some task ∧
          ¬ record.attempts < step.policy.retry.budget ∧ record.fallbackUsed = false ∧
          recovered.status = .retrying ∧ recovered.error.isSome = true ∧
          event = .stepFallbackSelected runId record.id task) ∨
        recovered.fallbackUsed = record.fallbackUsed ∧
          event.ended = some (record.id, record.attempts, recovered.status)) := by
  cases h with
  | retrying => exact ⟨rfl, rfl, StepStatus.noConfusion, .inr ⟨rfl, rfl⟩⟩
  | fallback spent unused selected =>
      exact ⟨rfl, rfl, StepStatus.noConfusion, .inl ⟨_, selected, spent, unused, rfl, rfl, rfl⟩⟩
  | failed => exact ⟨rfl, rfl, StepStatus.noConfusion, .inr ⟨rfl, rfl⟩⟩

/-- A recovery of the step's lease would select its fallback while the run is active. -/
def RunRecord.Selects (run : RunRecord) (id : StepId) : Prop :=
  run.status = .running ∧ ∃ step record task, step ∈ run.workflow.steps ∧ step.id = id ∧
    run.steps[id]? = some record ∧ record.lease.isSome = true ∧
    ¬ record.attempts < step.policy.retry.budget ∧ record.fallbackUsed = false ∧
    step.policy.fallbackTask = some task

/-- The completion logs the number of the attempt that it ends: always in an active run,
and in an ended one no number of an earlier attempt. -/
def StepRecord.Numbers (record : StepRecord) (active : Prop) (claim : StepClaim)
    (completion : StepCompletion) : Prop :=
  (active → completion.fallbackUsed = false ∧ claim.attempt = record.attempts) ∧
    (completion.fallbackUsed = false → claim.attempt = 0 ∨ record.attempts ≤ claim.attempt)

/-- A change that ends an attempt logs its number. -/
def RunRecord.Numbers (run : RunRecord) : RunAction → Prop
  | .complete claim completion => ∀ record, run.steps[claim.step.id]? = some record →
    record.Numbers (run.status = .running) claim completion
  | .recover id => ¬ run.Selects id
  | _ => True

/-- The log of the run accounts for the attempts of its steps. `outs` are the outcomes that
have been logged: those of the earlier attempts of a leased step, and in an active run
those of all attempts of the others, the last with the status of the record. -/
structure RunRecord.Accounted (run : RunRecord) (outs : List (StepId × UInt32)) : Prop where
  nodup : outs.Nodup
  known : ∀ id attempt, (id, attempt) ∈ outs → ∃ record, run.steps[id]? = some record
  started : ∀ (id : StepId) (record : StepRecord), run.steps[id]? = some record →
    0 < record.attempts
  traced : ∀ envelope ∈ run.eventLog, ∀ (id : StepId) (attempt : UInt32) (status : StepStatus),
    envelope.event.ended = some (id, attempt, status) → (id, attempt) ∈ outs
  leased : ∀ (id : StepId) (record : StepRecord), run.steps[id]? = some record →
    record.status = .running → ∀ attempt, (id, attempt) ∈ outs ↔ 0 < attempt ∧
      attempt < record.attempts
  rested : run.status = .running → ∀ (id : StepId) (record : StepRecord),
    run.steps[id]? = some record → record.status ≠ .running → ∀ attempt,
      (id, attempt) ∈ outs ↔ 0 < attempt ∧ attempt ≤ record.attempts
  logged : run.status = .running → ∀ (id : StepId) (record : StepRecord),
    run.steps[id]? = some record → record.status ≠ .running → ∃ envelope ∈ run.eventLog,
      envelope.event.ended = some (id, record.attempts, record.status)
  unused : run.status = .running → ∀ (id : StepId) (record : StepRecord),
    run.steps[id]? = some record → record.fallbackUsed = false

/-- The log has the start of the run, and its end once it has ended. -/
structure RunRecord.Announced (run : RunRecord) : Prop where
  started : ∃ envelope ∈ run.eventLog, ∃ runId workflowId,
    envelope.event = .runStarted runId workflowId
  ended : run.status.isTerminal = true → 0 < run.ends

theorem RunRecord.Announced.step {token : UInt64} {action : RunAction} {run run' : RunRecord}
    (announced : run.Announced) (move : RunStep token action run run') : run'.Announced where
  started := by
    obtain ⟨envelope, member, about⟩ := announced.started
    obtain kept | ⟨last, extended, -⟩ := move.log_cases
    · exact ⟨envelope, kept ▸ member, about⟩
    · exact ⟨envelope, extended ▸ List.mem_append_left _ member, about⟩
  ended terminal := by
    cases move.statusStep with
    | kept status ends => exact ends ▸ announced.ended (status ▸ terminal)
    | recorded _ _ _ ends => exact ends ▸ Nat.one_pos
    | finished metrics settled status changed ends => exact ends ▸ Nat.succ_pos _
    | cancelled active status ends => exact ends ▸ Nat.succ_pos _

theorem announced_after (ops : List Op) : (repository.after ops).Every RunRecord.Announced := by
  refine Repository.runs_invariant ?_ (fun move announced => announced.step move) ops
  intro request now sequence eventNow _
  exact ⟨⟨_, List.mem_singleton_self _, _, _, rfl⟩, fun terminal => by cases terminal⟩

namespace RunRecord.Accounted

variable {run run' : RunRecord} {outs : List (StepId × UInt32)}

/-- The record of a step in a run that got one record. -/
theorem found_cases {id other : StepId} {record record' : StepRecord}
    (steps : run'.steps = run.steps.insert id record) (found : run'.steps[other]? = some record') :
    other = id ∧ record' = record ∨ other ≠ id ∧ run.steps[other]? = some record' := by
  rw [steps, BTreeMap.getElem?_insert] at found
  split at found
  next same => exact .inl ⟨same.symm, (Option.some.inj found).symm⟩
  next apart => exact .inr ⟨fun same => apart same.symm, found⟩

/-- A run whose steps stay and whose log gains no outcome. -/
theorem frame (accounted : run.Accounted outs) (steps : run'.steps = run.steps)
    (active : run'.status = .running → run.status = .running) {more : List EventEnvelope}
    (log : run'.eventLog = run.eventLog ++ more)
    (silent : ∀ envelope ∈ more, envelope.event.outcome run' = none) :
    run'.Accounted (outs ++ run'.outcomesSince run.eventLog.length) := by
  have nothing : run'.outcomesSince run.eventLog.length = [] := by
    rw [outcomesSince, log, List.drop_left]
    exact List.filterMap_eq_nil_iff.mpr silent
  rw [nothing, List.append_nil]
  refine ⟨accounted.nodup, ?_, ?_, ?_, ?_, ?_, ?_, ?_⟩
  · rw [steps]
    exact accounted.known
  · rw [steps]
    exact accounted.started
  · intro envelope member id attempt status ended
    rw [log] at member
    obtain old | new := List.mem_append.mp member
    · exact accounted.traced envelope old id attempt status ended
    · rw [ExecutionEvent.ended_of_outcome (silent envelope new)] at ended
      cases ended
  · rw [steps]
    exact accounted.leased
  · intro running
    rw [steps]
    exact accounted.rested (active running)
  · intro running id record found resting
    rw [steps] at found
    obtain ⟨envelope, member, ended⟩ := accounted.logged (active running) id record found resting
    exact ⟨envelope, log ▸ List.mem_append_left _ member, ended⟩
  · intro running
    rw [steps]
    exact accounted.unused (active running)

/-- A step that takes or keeps a lease, with the outcomes of its earlier attempts. -/
theorem lease (accounted : run.Accounted outs) {id : StepId} {record : StepRecord}
    (steps : run'.steps = run.steps.insert id record) (status : run'.status = run.status)
    (log : run'.eventLog = run.eventLog) (running : record.status = .running)
    (before : ∀ attempt, (id, attempt) ∈ outs ↔ 0 < attempt ∧ attempt < record.attempts)
    (started : 0 < record.attempts)
    (unused : run.status = .running → record.fallbackUsed = false) :
    run'.Accounted (outs ++ run'.outcomesSince run.eventLog.length) := by
  have nothing : run'.outcomesSince run.eventLog.length = [] := by
    rw [outcomesSince, log, List.drop_length]
    rfl
  rw [nothing, List.append_nil]
  refine ⟨accounted.nodup, ?_, ?_, ?_, ?_, ?_, ?_, ?_⟩
  · intro other attempt member
    rw [steps, BTreeMap.getElem?_insert]
    split
    · exact ⟨record, rfl⟩
    · exact accounted.known other attempt member
  · intro other record' found
    obtain ⟨rfl, rfl⟩ | ⟨-, found⟩ := found_cases steps found
    · exact started
    · exact accounted.started other record' found
  · rw [log]
    exact accounted.traced
  · intro other record' found leased
    obtain ⟨rfl, rfl⟩ | ⟨-, found⟩ := found_cases steps found
    · exact before
    · exact accounted.leased other record' found leased
  · intro active other record' found resting
    obtain ⟨rfl, rfl⟩ | ⟨-, found⟩ := found_cases steps found
    · exact absurd running resting
    · exact accounted.rested (status ▸ active) other record' found resting
  · intro active other record' found resting
    rw [log]
    obtain ⟨rfl, rfl⟩ | ⟨-, found⟩ := found_cases steps found
    · exact absurd running resting
    · exact accounted.logged (status ▸ active) other record' found resting
  · intro active other record' found
    obtain ⟨rfl, rfl⟩ | ⟨-, found⟩ := found_cases steps found
    · exact unused (status ▸ active)
    · exact accounted.unused (status ▸ active) other record' found

/-- A leased step whose attempt ends, with the event that says so. -/
theorem settle (accounted : run.Accounted outs) {id : StepId} {old record : StepRecord}
    {envelope : EventEnvelope} {attempt : UInt32} (found : run.steps[id]? = some old)
    (leased : old.status = .running) (steps : run'.steps = run.steps.insert id record)
    (status : run'.status = run.status) (log : run'.eventLog = run.eventLog ++ [envelope])
    (resting : record.status ≠ .running) (attempts : record.attempts = old.attempts)
    (outcome : envelope.event.outcome run' = some (id, attempt))
    (fresh : attempt = 0 ∨ old.attempts ≤ attempt)
    (active : run.status = .running → record.fallbackUsed = false ∧
      envelope.event.ended = some (id, old.attempts, record.status)) :
    run'.Accounted (outs ++ run'.outcomesSince run.eventLog.length) := by
  have one : run'.outcomesSince run.eventLog.length = [(id, attempt)] := by
    rw [outcomesSince, log, List.drop_left, List.filterMap_cons, outcome]
    rfl
  have before := accounted.leased id old found leased
  rw [one]
  have others : ∀ {other : StepId}, other ≠ id → ∀ n : UInt32,
      (other, n) ∈ outs ++ [(id, attempt)] ↔ (other, n) ∈ outs := by
    intro other apart n
    simp [apart]
  refine ⟨?_, ?_, ?_, ?_, ?_, ?_, ?_, ?_⟩
  · -- the attempts logged so far are earlier ones
    refine List.nodup_append.mpr ⟨accounted.nodup, List.nodup_singleton _, ?_⟩
    rintro pair member _ new rfl
    obtain rfl := List.mem_singleton.mp new
    obtain ⟨positive, below⟩ := (before attempt).mp member
    obtain rfl | above := fresh
    · exact absurd positive (by decide)
    · exact UInt32.not_le.mpr below above
  · intro other n member
    rw [steps, BTreeMap.getElem?_insert]
    split
    · exact ⟨record, rfl⟩
    next apart => exact accounted.known other n ((others (fun same => apart same.symm) n).mp member)
  · intro other record' found'
    obtain ⟨rfl, rfl⟩ | ⟨-, found'⟩ := found_cases steps found'
    · rw [attempts]
      exact accounted.started other old found
    · exact accounted.started other record' found'
  · intro logged member other n status ended
    rw [log] at member
    obtain earlier | new := List.mem_append.mp member
    · exact List.mem_append_left _ (accounted.traced logged earlier other n status ended)
    · obtain rfl := List.mem_singleton.mp new
      rw [ExecutionEvent.outcome_of_ended ended] at outcome
      exact List.mem_append_right _ (List.mem_singleton.mpr (Option.some.inj outcome))
  · intro other record' found' running
    obtain ⟨rfl, rfl⟩ | ⟨apart, found'⟩ := found_cases steps found'
    · exact absurd running resting
    · intro n
      rw [others apart]
      exact accounted.leased other record' found' running n
  · intro running other record' found' rests
    rw [status] at running
    obtain ⟨rfl, rfl⟩ | ⟨apart, found'⟩ := found_cases steps found'
    · -- the number of the attempt is the one of the event
      obtain ⟨-, ended⟩ := active running
      rw [ExecutionEvent.outcome_of_ended ended] at outcome
      obtain rfl := (Prod.mk.inj (Option.some.inj outcome)).2
      intro n
      rw [List.mem_append, before, attempts, List.mem_singleton, Prod.mk.injEq]
      have positive := accounted.started other old found
      rw [UInt32.lt_iff_toNat_lt] at positive
      simp only [UInt32.lt_iff_toNat_lt, UInt32.le_iff_toNat_le, ← UInt32.toNat_inj, true_and]
      omega
    · intro n
      rw [others apart]
      exact accounted.rested running other record' found' rests n
  · intro running other record' found' rests
    rw [status] at running
    rw [log]
    obtain ⟨rfl, rfl⟩ | ⟨-, found'⟩ := found_cases steps found'
    · refine ⟨envelope, List.mem_append_right _ (List.mem_singleton_self _), ?_⟩
      rw [attempts]
      exact (active running).2
    · obtain ⟨logged, member, ended⟩ := accounted.logged running other record' found' rests
      exact ⟨logged, List.mem_append_left _ member, ended⟩
  · intro running other record' found'
    rw [status] at running
    obtain ⟨rfl, rfl⟩ | ⟨-, found'⟩ := found_cases steps found'
    · exact (active running).1
    · exact accounted.unused running other record' found'

/-- An ended run in which no step holds a lease. -/
theorem close (accounted : run.Accounted outs) (unleased : ∀ (id : StepId) (record : StepRecord),
      run'.steps[id]? = some record → record.status ≠ .running)
    (records : ∀ (id : StepId), run'.steps[id]?.map StepRecord.attempts =
      run.steps[id]?.map StepRecord.attempts)
    (ended : run'.status ≠ .running) {envelope : EventEnvelope}
    (log : run'.eventLog = run.eventLog ++ [envelope])
    (silent : envelope.event.outcome run' = none) :
    run'.Accounted (outs ++ run'.outcomesSince run.eventLog.length) := by
  have nothing : run'.outcomesSince run.eventLog.length = [] := by
    rw [outcomesSince, log, List.drop_left, List.filterMap_cons, silent]
    rfl
  rw [nothing, List.append_nil]
  refine ⟨accounted.nodup, ?_, ?_, ?_, ?_, ?_, ?_, ?_⟩
  · intro id attempt member
    obtain ⟨record, found⟩ := accounted.known id attempt member
    have same := records id
    rw [found, Option.map_some, Option.map_eq_some_iff] at same
    obtain ⟨record', found', -⟩ := same
    exact ⟨record', found'⟩
  · intro id record' found'
    have same := records id
    rw [found', Option.map_some, eq_comm, Option.map_eq_some_iff] at same
    obtain ⟨record, found, attempts⟩ := same
    exact attempts ▸ accounted.started id record found
  · intro logged member id attempt status about
    rw [log] at member
    obtain earlier | new := List.mem_append.mp member
    · exact accounted.traced logged earlier id attempt status about
    · obtain rfl := List.mem_singleton.mp new
      rw [ExecutionEvent.ended_of_outcome silent] at about
      cases about
  · exact fun id record found running => absurd running (unleased id record found)
  · exact fun running => absurd running ended
  · exact fun running => absurd running ended
  · exact fun running => absurd running ended

/-- Only the start of a step's leased attempt can be recorded. -/
theorem recorded (accounted : run.Accounted outs) (announced : run.Announced) (sound : run.Sound)
    {event : ExecutionEvent} (valid : eventIsValidForRecord run event = true) :
    ∃ id record lease, run.steps[id]? = some record ∧ record.lease = some lease ∧
      event = .stepStarted run.runId id record.task record.attempts := by
  -- an outcome is in the log, or the step has not left its attempt
  have unended : ∀ {id : StepId} {attempt : UInt32} {status : StepStatus}, status ≠ .running →
      event.ended ≠ some (id, attempt, status) := by
    intro id attempt status resting ended
    obtain ⟨-, running, record, found, rfl, rfl, -, unlogged⟩ :=
      (recorded_iff_of_ended ended).mp valid
    obtain ⟨envelope, member, logged⟩ := accounted.logged running id record found resting
    exact unlogged envelope member logged
  cases event with
  | runStarted runId workflowId =>
      obtain ⟨envelope, member, _, _, about⟩ := announced.started
      simp only [eventIsValidForRecord] at valid
      split at valid
      · cases valid
      · simp only [Bool.and_eq_true, Bool.not_eq_true', alreadyLogged, List.any_eq_false] at valid
        have absent := valid.2 envelope member
        simp [about] at absent
  | stepStarted runId stepId task attempt =>
      simp only [eventIsValidForRecord] at valid
      split at valid
      · cases valid
      next own =>
        split at valid
        · cases valid
        next record found =>
          simp only [Bool.and_eq_true, beq_iff_eq] at valid
          obtain ⟨⟨⟨⟨-, running⟩, rfl⟩, rfl⟩, -⟩ := valid
          obtain ⟨lease, leased⟩ :=
            Option.isSome_iff_exists.mp ((sound.records stepId record found).leased.mpr running)
          have same : runId = run.runId := by simpa [ExecutionEvent.runId] using own
          exact ⟨stepId, record, lease, found, leased, by rw [same]⟩
  | stepFallbackSelected runId stepId task =>
      simp only [eventIsValidForRecord] at valid
      split at valid
      · cases valid
      · split at valid
        · cases valid
        next record found =>
          simp only [Bool.and_eq_true, beq_iff_eq] at valid
          obtain ⟨⟨⟨⟨running, -⟩, used⟩, -⟩, -⟩ := valid
          rw [accounted.unused running stepId record found] at used
          cases used
  | runFinished runId status =>
      obtain ⟨terminal, unlogged⟩ := ended_of_runFinished valid rfl
      have ends := announced.ended terminal
      obtain ⟨envelope, member, finished⟩ := List.countP_pos_iff.mp ends
      rw [unlogged envelope member] at finished
      cases finished
  | stepRetrying => exact absurd rfl (unended StepStatus.noConfusion)
  | stepSucceeded => exact absurd rfl (unended StepStatus.noConfusion)
  | stepFailed => exact absurd rfl (unended StepStatus.noConfusion)

variable {token : UInt64} {action : RunAction}

/-- A step is claimed in an active run, for the attempt after those that are logged. -/
theorem claimed (accounted : run.Accounted outs) (sound : run.Sound) {step : StepSpec}
    {taskId : TaskId} {dependencies : BTreeMap String Value} {worker : WorkerProfile}
    {seen : UInt64} (now leaseMs : UInt64) (running : run.status = .running)
    (candidate : claimCandidate run worker seen step = some (step, taskId, dependencies)) :
    (run.setStep step.id (run.claimed step.id taskId worker.id token now leaseMs)).bump.Accounted
      (outs ++ (run.setStep step.id (run.claimed step.id taskId worker.id token now
        leaseMs)).bump.outcomesSince run.eventLog.length) := by
  obtain ⟨-, -, -, -, -, available⟩ := Repository.claimCandidate_eq_some.mp candidate
  cases found : run.steps[step.id]? with
  | none =>
      have first : (run.claimed step.id taskId worker.id token now leaseMs).attempts = 1 := by
        rw [RunRecord.claimed, RunRecord.entry, found]
        show (0 : UInt32).saturatingAdd 1 = 1
        decide
      refine accounted.lease rfl rfl rfl rfl (fun attempt => ?_) (by rw [first]; decide) fun _ => ?_
      · rw [first]
        constructor
        · intro member
          obtain ⟨record, found'⟩ := accounted.known _ _ member
          rw [found] at found'
          cases found'
        · rintro ⟨positive, below⟩
          rw [UInt32.lt_iff_toNat_lt] at positive below
          exact absurd positive (by simpa using below)
      · rw [RunRecord.claimed, RunRecord.entry, found]
        rfl
  | some record =>
      have unused := accounted.unused running step.id record found
      rw [found, stepAvailable, Option.all_some, unused] at available
      simp only [Bool.and_eq_true, Option.isNone_iff_eq_none, Bool.false_and, Bool.or_false,
        decide_eq_true_eq] at available
      obtain ⟨⟨⟨unleased, -⟩, -⟩, below⟩ := available
      have resting : record.status ≠ .running := by
        intro same
        have leased := (sound.records step.id record found).leased.mpr same
        rw [unleased] at leased
        cases leased
      -- below its budget the number of the attempt is a new one
      have next : (run.claimed step.id taskId worker.id token now leaseMs).attempts.toNat =
          record.attempts.toNat + 1 := by
        rw [RunRecord.claimed, RunRecord.entry, found]
        show (record.attempts.saturatingAdd 1).toNat = _
        have bound := step.policy.retry.budget.toNat_lt
        rw [UInt32.lt_iff_toNat_lt] at below
        rw [UInt32.toNat_saturatingAdd, UInt32.toNat_one, UInt32.maxNat]
        omega
      refine accounted.lease rfl rfl rfl rfl (fun attempt => ?_) ?_ fun _ => ?_
      · rw [accounted.rested running step.id record found resting, UInt32.lt_iff_toNat_lt,
          UInt32.lt_iff_toNat_lt, UInt32.le_iff_toNat_le, next, Nat.lt_succ_iff]
      · rw [UInt32.lt_iff_toNat_lt, next]
        exact Nat.succ_pos _
      · rw [RunRecord.claimed, RunRecord.entry, found]
        exact unused

/-- What one change keeps that logs the numbers of the attempts it ends. -/
theorem step (accounted : run.Accounted outs) (move : RunStep token action run run')
    (sound : run.Sound) (announced : run.Announced) (numbers : run.Numbers action) :
    run'.Accounted (outs ++ run'.outcomesSince run.eventLog.length) := by
  cases move with
  | claim worker seen now leaseMs running listed candidate known =>
      exact accounted.claimed sound now leaseMs running candidate
  | @renew _ record lease claim now again leaseMs found leased valid =>
      have status := (sound.records _ _ found).leased.mp (by rw [leased]; rfl)
      exact accounted.lease rfl rfl rfl status (accounted.leased _ record found status)
        (accounted.started _ record found) fun active => accounted.unused active _ record found
  | @complete _ record lease claim completion now retryNow finishNow sequence eventNow found leased
      valid accepted =>
      have status := (sound.records _ _ found).leased.mp (by rw [leased]; rfl)
      have unused := fun active => accounted.unused active _ record found
      obtain ⟨active, ended⟩ := numbers record found
      have log := RunRecord.logged_eventLog (run.commit claim.step.id (record.complete completion
        retryNow finishNow)) completion.event sequence eventNow
      rw [RunRecord.commit_eventLog] at log
      obtain ⟨resting, ⟨selects, -, -, task, event⟩ | ⟨plain, -, event⟩⟩ :=
        (completionMatchesClaim_iff.mp accepted).ended_cases
      · refine accounted.settle found status
          (RunRecord.commit_steps _ _ _) (RunRecord.commit_status _ _ _) log resting rfl ?_
          (.inr (UInt32.le_refl record.attempts)) ?_
        · simp [eventEnvelope, event, ExecutionEvent.outcome, StepRecord.complete]
        · intro running
          rw [(active running).1] at selects
          cases selects
      · refine accounted.settle found status (RunRecord.commit_steps _ _ _)
          (RunRecord.commit_status _ _ _) log resting rfl (ExecutionEvent.outcome_of_ended event)
          (ended plain) ?_
        intro running
        obtain ⟨-, number⟩ := active running
        refine ⟨?_, number ▸ event⟩
        show (record.fallbackUsed || completion.fallbackUsed) = false
        rw [unused running, plain]
        rfl
  | record event sequence eventNow valid =>
      obtain ⟨id, record, lease, -, -, rfl⟩ := accounted.recorded announced sound valid
      refine accounted.frame rfl (fun active => active) (RunRecord.logged_eventLog _ _ _ _) ?_
      intro envelope member
      obtain rfl := List.mem_singleton.mp member
      rfl
  | measure metrics =>
      exact accounted.frame rfl (fun active => active) (List.append_nil _).symm
        fun _ member => absurd member List.not_mem_nil
  | settle metrics settled same =>
      have log : (run.setMetrics metrics).settle.eventLog = run.eventLog ++ [] := by simp
      exact accounted.frame (by simp) (fun active => same ▸ active) log
        fun _ member => absurd member List.not_mem_nil
  | finish metrics sequence eventNow settled changed =>
      refine accounted.frame (by simp) (fun active => ?_) (by rw [RunRecord.logged_eventLog,
        RunRecord.settle_eventLog, RunRecord.setMetrics_eventLog]) ?_
      · have terminal := RunRecord.verdict_isTerminal (run.setMetrics metrics)
        rw [RunRecord.logged_status, RunRecord.settle_status] at active
        rw [active] at terminal
        cases terminal
      · intro envelope member
        obtain rfl := List.mem_singleton.mp member
        rfl
  | cancel now sequence eventNow active =>
      refine accounted.close ?_ ?_ (by simp) (RunRecord.logged_eventLog _ _ _ _) rfl
      · intro id record' found running
        simp only [RunRecord.logged_steps, RunRecord.cancelSteps_steps,
          Std.ExtTreeMap.getElem?_map, Option.map_eq_some_iff] at found
        obtain ⟨record, found, rfl⟩ := found
        unfold StepRecord.cancel at running
        split at running
        next settled => simp [running] at settled
        · cases running
      · intro id
        rw [RunRecord.logged_steps, RunRecord.cancelSteps_steps, Std.ExtTreeMap.getElem?_map,
          Option.map_map]
        congr 1
        funext record
        show (record.cancel (now id)).attempts = record.attempts
        unfold StepRecord.cancel
        split <;> rfl
  | @recover _ step record recovered event now sequence eventNow listed found expired =>
      obtain ⟨⟨lease, leased, -⟩, recovers⟩ := recoverExpiredStep_eq_some expired
      have status := (sound.records _ _ found).leased.mp (by rw [leased]; rfl)
      have named := (sound.records _ _ found).named
      have log := RunRecord.logged_eventLog ((run.setStep step.id recovered).noteRecovery recovered)
        event sequence eventNow
      rw [RunRecord.noteRecovery_eventLog, RunRecord.setStep_eventLog] at log
      obtain ⟨attempts, -, resting, ⟨task, selected, spent, unused, -, -, rfl⟩ | ⟨flag, ended⟩⟩ :=
        recovers.ended_cases
      · refine accounted.settle found status (by simp) (by simp) log
          resting attempts ?_ (.inr (UInt32.le_refl record.attempts)) ?_
        · simp [eventEnvelope, ExecutionEvent.outcome, named, attempts]
        · intro running
          exact absurd ⟨running, step, record, task, listed, rfl, found, by rw [leased]; rfl, spent,
            unused, selected⟩ numbers
      · rw [named] at ended
        refine accounted.settle found status (by simp) (by simp) log resting attempts
          (ExecutionEvent.outcome_of_ended ended) (.inr (UInt32.le_refl record.attempts)) ?_
        intro running
        exact ⟨flag.trans (accounted.unused running _ record found), ended⟩

theorem created {request : RunRequest} (now sequence eventNow : UInt64) :
    (RunRecord.created request now sequence eventNow).Accounted
      ((RunRecord.created request now sequence eventNow).outcomesSince 0) := by
  have absent : ∀ id : StepId,
      (RunRecord.created request now sequence eventNow).steps[id]? = none := by
    intro id
    simp [RunRecord.created, RunRecord.new]
  have unfound : ∀ {id : StepId} {record : StepRecord},
      (RunRecord.created request now sequence eventNow).steps[id]? ≠ some record := by
    intro id record found
    rw [absent] at found
    cases found
  refine ⟨List.nodup_nil, fun id attempt member => ?_, fun id record found => ?_, ?_,
    fun id record found => ?_, fun _ id record found => ?_, fun _ id record found => ?_,
    fun _ id record found => ?_⟩
  · cases member
  · exact absurd found unfound
  · intro envelope member id attempt status ended
    obtain rfl := List.mem_singleton.mp member
    cases ended
  · exact absurd found unfound
  · exact absurd found unfound
  · exact absurd found unfound
  · exact absurd found unfound

end RunRecord.Accounted

end Orchestrator
