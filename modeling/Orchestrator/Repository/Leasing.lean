import Orchestrator.Foundation.Leasing
import Orchestrator.Repository.Budget
import Orchestrator.Repository.Cancel
import Orchestrator.Repository.Recorded

/-!
# The lease of a step in time

The calls and answers of a history, as far as they are about one step, are the events of a
lease: a claim grants it until its deadline, a renewal extends it, a completion gives it
back, a sweep lets it lapse at the time that it reads, and a cancellation withdraws the step.
The claims of a step therefore exclude each other in time, and a worker that goes by the
deadline it was told last can still renew and commit, unless the run was cancelled.
-/

namespace Orchestrator

/-- When a lease taken at `now` runs out. -/
def leaseDeadline (now leaseMs : UInt64) : UInt64 := now.saturatingAdd (max leaseMs 1)

/-- What a call and its answer tell about the lease of the step. Leases go by their tokens. -/
def leaseEvent (k : RunId) (id : StepId) (op : Op) (response : Response) :
    Option (Leasing.Event UInt64 UInt64) :=
  match op, response with
  | .claimNextStep _ _ leaseMs clock, .claimed (.ok (some claim)) =>
    if claim.runId = k ∧ claim.step.id = id then
      some (.grant claim.leaseToken (leaseDeadline (clock.call 0) leaseMs))
    else none
  | .renewStep claim leaseMs clock, .renewed (.ok ()) =>
    if claim.runId = k ∧ claim.step.id = id then
      some (.extend claim.leaseToken (leaseDeadline (clock.call 1) leaseMs))
    else none
  | .completeStep claim _ _, .completed (.ok _) =>
    if claim.runId = k ∧ claim.step.id = id then some (.release claim.leaseToken) else none
  | .recoverExpired clock, .recovered (.ok expired) =>
    if (k, id) ∈ expired then some (.lapse (clock.call 0)) else none
  | .cancelRun runId _, .cancelled (.ok run) =>
    if runId = k ∧ run.status = .cancelled then some .revoke else none
  | _, _ => none

/-- The events of a step's lease along a history. -/
def leaseEvents (k : RunId) (id : StepId) (ops : List Op) : List (Leasing.Event UInt64 UInt64) :=
  (ops.zip (repository.transcript ops)).filterMap fun turn => leaseEvent k id turn.1 turn.2

theorem leaseEvents_concat (k : RunId) (id : StepId) (ops : List Op) (op : Op) :
    leaseEvents k id (ops ++ [op]) = leaseEvents k id ops ++
      (leaseEvent k id op (repository.answer (repository.after ops) op)).toList := by
  rw [leaseEvents, Machine.transcript_concat,
    List.zip_append (Machine.length_transcript _ ops).symm, List.filterMap_append, leaseEvents]
  cases h : leaseEvent k id op (repository.answer (repository.after ops) op) with
  | none => simp [h]
  | some event => simp [h]

/-- The step whose record a change may replace. A cancellation is about all of them. -/
def RunAction.stepId? : RunAction → Option StepId
  | .claim held | .renew held | .complete held _ => some held.step.id
  | .recover id => some id
  | .record _ | .finish _ | .cancel => none

/-- A change of one record leaves the others. -/
theorem RunStep.other_kept {token : UInt64} {action : RunAction} {run run' : RunRecord}
    (h : RunStep token action run run') (going : action ≠ .cancel) {id : StepId}
    (apart : action.stepId? ≠ some id) : run'.steps[id]? = run.steps[id]? := by
  have other : ∀ {own : StepId} {record : StepRecord}, some own ≠ some id →
      (run.steps.insert own record)[id]? = run.steps[id]? := by
    intro own record apart
    exact BTreeMap.getElem?_insert_ne fun same => apart (congrArg some same)
  cases h with
  | claim => exact other apart
  | renew => exact other apart
  | complete =>
      rw [RunRecord.logged_steps, RunRecord.commit_steps]
      exact other apart
  | record => rfl
  | measure => rfl
  | settle => rw [RunRecord.settle_steps, RunRecord.setMetrics_steps]
  | finish => rw [RunRecord.logged_steps, RunRecord.settle_steps, RunRecord.setMetrics_steps]
  | cancel => exact absurd rfl going
  | recover =>
      rw [RunRecord.logged_steps, RunRecord.noteRecovery_steps]
      exact other apart

namespace Repository

/-- The lease that a step holds. -/
def lease (s : Repository) (k : RunId) (id : StepId) : Option StepLease :=
  s.record k id >>= StepRecord.lease

theorem lease_eq_some {s : Repository} {k : RunId} {id : StepId} {lease : StepLease} :
    s.lease k id = some lease ↔ ∃ run record, s.runs[k]? = some run ∧
      run.steps[id]? = some record ∧ record.lease = some lease := by
  simp only [Repository.lease, Repository.record, Option.bind_eq_bind, Option.bind_eq_some_iff]
  constructor
  · rintro ⟨record, ⟨run, found, foundStep⟩, leased⟩
    exact ⟨run, record, found, foundStep, leased⟩
  · rintro ⟨run, record, found, foundStep, leased⟩
    exact ⟨record, ⟨run, found, foundStep⟩, leased⟩

/-- A step of a stored run holds the lease of its record. -/
theorem lease_of_found {s : Repository} {k : RunId} {run : RunRecord}
    (found : s.runs[k]? = some run) (id : StepId) :
    s.lease k id = run.steps[id]? >>= StepRecord.lease := by
  rw [Repository.lease, Repository.record, found]
  rfl

/-- The run under the id has ended and holds no lease. -/
def Closed (s : Repository) (k : RunId) : Prop := ∃ run, s.runs[k]? = some run ∧ run.Closed

theorem Closed.lease {s : Repository} {k : RunId} (closed : s.Closed k) (id : StepId) :
    s.lease k id = none := by
  obtain ⟨run, found, closed⟩ := closed
  rw [lease_of_found found]
  cases foundStep : run.steps[id]? with
  | none => rfl
  | some record => exact closed.unleased id record foundStep

/-- The repository has the step as the slot of its lease says. -/
def Holding (s : Repository) (k : RunId) (id : StepId) : Leasing.Slot UInt64 UInt64 → Prop
  | .free => s.lease k id = none
  | .held token deadline => ∃ worker, s.lease k id = some ⟨worker, token, deadline⟩
  | .revoked => s.Closed k

section Moves

variable {s s' : Repository} {k own : RunId} {id : StepId} {action : RunAction}
  {run run' : RunRecord}

/-- A step that holds a lease is in the slot of this lease. -/
theorem Holding.held {slot : Leasing.Slot UInt64 UInt64} (holding : s.Holding k id slot)
    {lease : StepLease} (leased : s.lease k id = some lease) :
    slot = .held lease.token lease.expiresAtMs := by
  cases slot with
  | free => cases holding.symm.trans leased
  | held token deadline =>
      obtain ⟨worker, same⟩ := holding
      obtain rfl := Option.some.inj (same.symm.trans leased)
      rfl
  | revoked => cases (holding.lease id).symm.trans leased

/-- A change of another run, or of another step of the run, leaves the record. -/
theorem Moves.record_kept (move : s.Moves own action run run' s') (going : action ≠ .cancel)
    (apart : own = k → action.stepId? ≠ some id) : s'.record k id = s.record k id := by
  rw [Repository.record, Repository.record, move.runs]
  split
  next same =>
    subst same
    rw [move.found]
    exact move.step.other_kept going (apart rfl)
  · rfl

/-- A sweep leaves the records of the steps that it does not list. -/
theorem Recovery.record_kept {listed : List (RunId × StepId)} (recovery : s.Recovery listed s')
    (outside : (k, id) ∉ listed) : s'.record k id = s.record k id := by
  induction recovery with
  | done => rfl
  | next move rest ih =>
      obtain ⟨apart, outside⟩ := not_or.mp (mt List.mem_cons.mpr outside)
      rw [ih outside]
      refine move.record_kept RunAction.noConfusion fun same stepId => apart ?_
      rw [same, Option.some.inj stepId]

/-- A new run has no records. -/
theorem Creates.record_kept {request : RunRequest} {now sequence eventNow : UInt64}
    (creation : s.Creates (.created request now sequence eventNow) s') :
    s'.record k id = s.record k id := by
  rw [Repository.record, Repository.record, creation.runs]
  split
  next same =>
    have fresh : s.runs[k]? = none := same ▸ creation.fresh
    rw [fresh]
    simp [RunRecord.created, RunRecord.new]
  · rfl

end Moves

section History

variable {ops : List Op} {op : Op} {k : RunId} {id : StepId}

/-- A call that is not about the lease of the step leaves its record. -/
theorem record_kept
    (silent : leaseEvent k id op (repository.answer (repository.after ops) op) = none) :
    (repository.after (ops ++ [op])).record k id = (repository.after ops).record k id := by
  have keyed := keyed_after ops
  have effect := effect_after ops op
  generalize repository.answer (repository.after ops) op = response at effect silent
  generalize repository.after (ops ++ [op]) = s' at effect ⊢
  have about : ∀ {claim : StepClaim} {event : Leasing.Event UInt64 UInt64},
      (if claim.runId = k ∧ claim.step.id = id then some event else none) = none →
        claim.runId = k → some claim.step.id ≠ some id := by
    intro claim event silent own same
    rw [if_pos ⟨own, Option.some.inj same⟩] at silent
    cases silent
  cases effect with
  | unchanged => rfl
  | create accepted creation => exact creation.record_kept
  | claim move =>
      have own := move.step.claim_fields.2.trans (move.own keyed)
      exact move.record_kept RunAction.noConfusion fun same => about silent (own.trans same)
  | renew move => exact move.record_kept RunAction.noConfusion (about silent)
  | complete move => exact move.record_kept RunAction.noConfusion (about silent)
  | record move =>
      exact move.record_kept RunAction.noConfusion fun _ => (Option.some_ne_none id).symm
  | finish move =>
      exact move.record_kept RunAction.noConfusion fun _ => (Option.some_ne_none id).symm
  | @cancel runId clock run run' _ move =>
      have cancelled : run'.status = .cancelled := by
        cases move.step
        rfl
      have apart : runId ≠ k := by
        intro same
        rw [leaseEvent, if_pos ⟨same, cancelled⟩] at silent
        cases silent
      rw [Repository.record, Repository.record, move.runs, if_neg apart]
  | recover recovery =>
      refine recovery.record_kept fun listed => ?_
      rw [leaseEvent, if_pos listed] at silent
      cases silent

/-- Hence its lease. -/
theorem lease_kept
    (silent : leaseEvent k id op (repository.answer (repository.after ops) op) = none) :
    (repository.after (ops ++ [op])).lease k id = (repository.after ops).lease k id :=
  congrArg (· >>= StepRecord.lease) (record_kept silent)

/-- A run without leases that has ended stays so. -/
theorem Closed.next (closed : (repository.after ops).Closed k) :
    (repository.after (ops ++ [op])).Closed k := by
  obtain ⟨run, found, closed⟩ := closed
  obtain ⟨run', found', closed', -⟩ := closed_later ops [op] found closed
  exact ⟨run', found', closed'⟩

end History

/-- What a renewal that succeeds has been checked against. -/
theorem renewStep_held {s : Repository} {claim : StepClaim} {leaseMs : UInt64} {clock : Clock}
    (renewed : (s.renewStep claim leaseMs clock).1 = .ok ()) :
    ∃ run record lease, s.runs[claim.runId]? = some run ∧
      run.steps[claim.step.id]? = some record ∧ record.lease = some lease ∧
      lease.validFor claim (clock.call 0) = true := by
  unfold renewStep at renewed
  split at renewed
  · cases renewed
  next run found =>
    split at renewed
    · cases renewed
    next record foundStep =>
      split at renewed
      · cases renewed
      next lease leased =>
        split at renewed
        · cases renewed
        next valid =>
          rw [Bool.not_eq_true', Bool.not_eq_false] at valid
          exact ⟨run, record, lease, found, foundStep, leased, valid⟩

/-- What a claim request does that hands out a claim: the step's record before and after. -/
theorem claimNextStep_some {s : Repository} (keyed : s.Keyed) {k : RunId} {worker : WorkerProfile}
    {leaseMs : UInt64} {clock : Clock} {claim : StepClaim}
    (handed : (s.claimNextStep k worker leaseMs clock).1 = .ok (some claim)) :
    ∃ run taskId dependencies record, s.runs[k]? = some run ∧ run.status = .running ∧
      claimCandidate run worker (clock.step k claim.step.id) claim.step =
        some (claim.step, taskId, dependencies) ∧
      record = run.claimed claim.step.id taskId worker.id claim.leaseToken (clock.call 0) leaseMs ∧
      s.Moves k (.claim claim) run (run.setStep claim.step.id record).bump
        (s.claimNextStep k worker leaseMs clock).2 := by
  cases found : s.runs[k]? with
  | none =>
      simp only [claimNextStep, found] at handed
      cases handed
  | some run =>
      by_cases running : run.status = .running
      · cases chosen : run.workflow.steps.findSome? fun step =>
            claimCandidate run worker (clock.step k step.id) step with
        | none =>
            simp only [claimNextStep, found, running, chosen] at handed
            cases handed
        | some candidate =>
            obtain ⟨step, taskId, dependencies⟩ := candidate
            obtain ⟨examined, -, granted⟩ := List.exists_of_findSome?_eq_some chosen
            obtain ⟨rfl, rfl, -, ⟨task, known, -⟩, -⟩ := claimCandidate_eq_some.mp granted
            obtain ⟨record, claim', s', same, rfl, claimed, move⟩ :=
              claimNextStep_of_candidate s keyed leaseMs clock found running chosen known
            rw [claimed] at handed ⊢
            obtain rfl := Option.some.inj (Except.ok.inj handed)
            exact ⟨run, _, dependencies, record, rfl, running, granted, same, move⟩
      · simp only [claimNextStep, found] at handed
        rw [if_pos running] at handed
        cases handed

section Events

variable {ops : List Op} {k : RunId} {id : StepId} {slot : Leasing.Slot UInt64 UInt64}

/-- A claim finds the step free and takes its lease. -/
theorem granted {worker : WorkerProfile} {leaseMs : UInt64} {clock : Clock} {claim : StepClaim}
    (handed : ((repository.after ops).claimNextStep k worker leaseMs clock).1 = .ok (some claim))
    (holding : (repository.after ops).Holding k claim.step.id slot) :
    slot = .free ∧ (repository.after (ops ++ [.claimNextStep k worker leaseMs clock])).Holding k
      claim.step.id (.held claim.leaseToken (leaseDeadline (clock.call 0) leaseMs)) := by
  obtain ⟨run, taskId, dependencies, record, found, running, candidate, rfl, move⟩ :=
    claimNextStep_some (keyed_after ops) handed
  constructor
  · cases slot with
    | free => rfl
    | held token deadline =>
        obtain ⟨worker, leased⟩ := holding
        obtain ⟨run', record, found', foundStep, leased⟩ := lease_eq_some.mp leased
        obtain rfl := Option.some.inj (found.symm.trans found')
        rw [(waits_of_candidate candidate foundStep).1] at leased
        cases leased
    | revoked =>
        obtain ⟨run', found', closed⟩ := holding
        obtain rfl := Option.some.inj (found.symm.trans found')
        have ended := closed.ended
        rw [running] at ended
        cases ended
  · refine ⟨worker.id, ?_⟩
    rw [Machine.after_concat, next_claimNextStep,
      lease_of_found ((move.runs k).trans (if_pos rfl)), RunRecord.bump_steps,
      RunRecord.setStep_steps, BTreeMap.getElem?_insert, if_pos rfl]
    rfl

/-- A renewal finds the lease of its claim and moves its deadline. -/
theorem extended {claim : StepClaim} {leaseMs : UInt64} {clock : Clock}
    (renewed : ((repository.after ops).renewStep claim leaseMs clock).1 = .ok ())
    (holding : (repository.after ops).Holding claim.runId claim.step.id slot) :
    (∃ deadline, slot = .held claim.leaseToken deadline) ∧
      (repository.after (ops ++ [.renewStep claim leaseMs clock])).Holding claim.runId claim.step.id
        (.held claim.leaseToken (leaseDeadline (clock.call 1) leaseMs)) := by
  obtain ⟨run, record, lease, found, foundStep, leased, valid⟩ := renewStep_held renewed
  obtain ⟨s', result, move⟩ := renewStep_of_lease _ leaseMs clock found foundStep leased valid
  simp only [StepLease.validFor, Bool.and_eq_true, beq_iff_eq] at valid
  have before := holding.held (lease_eq_some.mpr ⟨run, record, found, foundStep, leased⟩)
  refine ⟨⟨lease.expiresAtMs, valid.1.2 ▸ before⟩, lease.worker, ?_⟩
  have state : repository.after (ops ++ [.renewStep claim leaseMs clock]) = s' := by
    rw [Machine.after_concat]
    exact congrArg Prod.snd result
  rw [state, lease_of_found ((move.runs _).trans (if_pos rfl)), RunRecord.bump_steps,
    RunRecord.setStep_steps, BTreeMap.getElem?_insert, if_pos rfl, ← valid.1.2]
  rfl

/-- A completion finds the lease of its claim and gives it back. -/
theorem released {claim : StepClaim} {completion : StepCompletion} {clock : Clock} {run : RunRecord}
    (completed : ((repository.after ops).completeStep claim completion clock).1 = .ok run)
    (holding : (repository.after ops).Holding claim.runId claim.step.id slot) :
    (∃ deadline, slot = .held claim.leaseToken deadline) ∧
      (repository.after (ops ++ [.completeStep claim completion clock])).Holding claim.runId
        claim.step.id .free := by
  obtain ⟨run, record, lease, found, foundStep, leased, valid, accepted⟩ :=
    completeStep_ok completed
  obtain ⟨sequence, run', s', rfl, result, move⟩ := completeStep_of_lease _ (keyed_after ops) claim
    completion clock found foundStep leased valid accepted
  simp only [StepLease.validFor, Bool.and_eq_true, beq_iff_eq] at valid
  have before := holding.held (lease_eq_some.mpr ⟨run, record, found, foundStep, leased⟩)
  refine ⟨⟨lease.expiresAtMs, valid.1.2 ▸ before⟩, ?_⟩
  change (repository.after (ops ++ [.completeStep claim completion clock])).lease _ _ = none
  rw [Machine.after_concat, next_completeStep, result,
    lease_of_found ((move.runs _).trans (if_pos rfl)), RunRecord.logged_steps,
    RunRecord.commit_steps, BTreeMap.getElem?_insert, if_pos rfl]
  rfl

/-- A sweep finds a lease that has run out and takes it away. -/
theorem lapsed {clock : Clock} {expired : List (RunId × StepId)}
    (swept : ((repository.after ops).recoverExpired clock).1 = .ok expired)
    (listed : (k, id) ∈ expired) (holding : (repository.after ops).Holding k id slot) :
    (∃ token deadline, slot = .held token deadline ∧ deadline ≤ clock.call 0) ∧
      (repository.after (ops ++ [.recoverExpired clock])).Holding k id .free := by
  obtain ⟨expired', s', result, recovery, exact_list⟩ :=
    recoverExpired_listed (keyed_after ops) (sound_after ops) clock
  have same : expired' = expired := Except.ok.inj ((congrArg Prod.fst result).symm.trans swept)
  subst same
  obtain ⟨run, record, lease, found, foundStep, leased, late⟩ := (exact_list k id).mp listed
  have before := holding.held (lease_eq_some.mpr ⟨run, record, found, foundStep, leased⟩)
  refine ⟨⟨lease.token, lease.expiresAtMs, before, late⟩, ?_⟩
  have state : repository.after (ops ++ [.recoverExpired clock]) = s' := by
    rw [Machine.after_concat]
    exact congrArg Prod.snd result
  obtain ⟨run', found', unleased⟩ := recovery.unleased (sound_after ops) listed
  change (repository.after (ops ++ [.recoverExpired clock])).lease k id = none
  rw [state, lease_of_found found']
  cases foundStep' : run'.steps[id]? with
  | none => rfl
  | some record' => exact unleased record' foundStep'

/-- A cancellation closes the run. -/
theorem revoked {clock : Clock} {run : RunRecord}
    (cancelled : ((repository.after ops).cancelRun k clock).1 = .ok run)
    (status : run.status = .cancelled) :
    (repository.after (ops ++ [.cancelRun k clock])).Holding k id .revoked := by
  have found := cancelRun_stored ops cancelled
  refine ⟨run, found, by rw [status]; rfl, ?_⟩
  exact (phased_after _ k run found).cancelled status

theorem holding_next {op : Op} {event : Leasing.Event UInt64 UInt64}
    (holding : (repository.after ops).Holding k id slot)
    (about : leaseEvent k id op (repository.answer (repository.after ops) op) = some event) :
    ∃ slot', Leasing.Step slot event slot' ∧
      (repository.after (ops ++ [op])).Holding k id slot' := by
  generalize answered : repository.answer (repository.after ops) op = response at about
  unfold leaseEvent at about
  split at about
  next runId worker leaseMs clock claim =>
    split at about
    next own =>
      obtain ⟨rfl, rfl⟩ := own
      obtain rfl := Option.some.inj about
      have handed := Response.claimed.inj answered
      obtain ⟨run, _, _, _, _, _, _, _, move⟩ := claimNextStep_some (keyed_after ops) handed
      obtain rfl := move.step.claim_fields.2.trans (move.own (keyed_after ops))
      obtain ⟨rfl, after⟩ := granted handed holding
      exact ⟨_, .grant _ _, after⟩
    · cases about
  next claim leaseMs clock =>
    split at about
    next own =>
      obtain ⟨rfl, rfl⟩ := own
      obtain rfl := Option.some.inj about
      obtain ⟨⟨deadline, rfl⟩, after⟩ := extended (Response.renewed.inj answered) holding
      exact ⟨_, .extend _ _ _, after⟩
    · cases about
  next claim completion clock run =>
    split at about
    next own =>
      obtain ⟨rfl, rfl⟩ := own
      obtain rfl := Option.some.inj about
      obtain ⟨⟨deadline, rfl⟩, after⟩ := released (Response.completed.inj answered) holding
      exact ⟨_, .release _ _, after⟩
    · cases about
  next clock expired =>
    split at about
    next listed =>
      obtain rfl := Option.some.inj about
      obtain ⟨⟨token, deadline, rfl, late⟩, after⟩ :=
        lapsed (Response.recovered.inj answered) listed holding
      exact ⟨_, .lapse _ _ _ late, after⟩
    · cases about
  next runId clock run =>
    split at about
    next own =>
      obtain ⟨rfl, status⟩ := own
      obtain rfl := Option.some.inj about
      exact ⟨_, .revoke _, revoked (Response.cancelled.inj answered) status⟩
    · cases about
  · cases about

end Events

/-- The events of a step's lease are a run of it, and the repository has the step in the slot
that they lead to. -/
theorem holding_after (ops : List Op) (k : RunId) (id : StepId) :
    ∃ slot, Leasing.Run (leaseEvents k id ops) slot ∧
      (repository.after ops).Holding k id slot := by
  induction ops using Machine.history_induction with
  | nil => exact ⟨.free, .start, rfl⟩
  | concat ops op ih =>
      obtain ⟨slot, run, holding⟩ := ih
      rw [leaseEvents_concat]
      cases about : leaseEvent k id op (repository.answer (repository.after ops) op) with
      | none =>
          rw [Option.toList_none, List.append_nil]
          refine ⟨slot, run, ?_⟩
          cases slot with
          | free => exact (lease_kept about).trans holding
          | held =>
              obtain ⟨worker, leased⟩ := holding
              exact ⟨worker, (lease_kept about).trans leased⟩
          | revoked => exact holding.next
      | some event =>
          obtain ⟨slot', step, holding'⟩ := holding_next holding about
          exact ⟨slot', run.next step, holding'⟩

end Repository

/-- Only sweeps let a lease lapse. -/
theorem leaseEvent_lapse {k : RunId} {id : StepId} {op : Op} {response : Response} {time : UInt64}
    (about : leaseEvent k id op response = some (.lapse time)) :
    ∃ clock, op = .recoverExpired clock ∧ clock.call 0 = time := by
  unfold leaseEvent at about
  split at about
  · split at about <;> cases about
  · split at about <;> cases about
  · split at about <;> cases about
  next clock expired =>
    split at about
    · exact ⟨clock, rfl, Leasing.Event.lapse.inj (Option.some.inj about)⟩
    · cases about
  · split at about <;> cases about
  · cases about

/-- Only calls that cancel the run withdraw a step. -/
theorem leaseEvent_revoke {k : RunId} {id : StepId} {op : Op} {response : Response}
    (about : leaseEvent k id op response = some .revoke) : ∃ clock run,
    op = .cancelRun k clock ∧ response = .cancelled (.ok run) ∧ run.status = .cancelled := by
  unfold leaseEvent at about
  split at about
  · split at about <;> cases about
  · split at about <;> cases about
  · split at about <;> cases about
  · split at about <;> cases about
  next runId clock run =>
    split at about
    next own => exact ⟨clock, run, by rw [own.1], rfl, own.2⟩
    · cases about
  · cases about

/-- An event of a step's lease comes from a call of the history. -/
theorem mem_leaseEvents {k : RunId} {id : StepId} {ops : List Op}
    {event : Leasing.Event UInt64 UInt64} (member : event ∈ leaseEvents k id ops) :
    ∃ before op, before ++ [op] <+: ops ∧
      leaseEvent k id op (repository.answer (repository.after before) op) = some event := by
  induction ops using Machine.history_induction with
  | nil => cases member
  | concat ops op ih =>
      rw [leaseEvents_concat] at member
      obtain old | new := List.mem_append.mp member
      · obtain ⟨before, earlier, within, about⟩ := ih old
        exact ⟨before, earlier, within.trans (List.prefix_append ops [op]), about⟩
      · exact ⟨ops, op, List.prefix_rfl, Option.mem_toList.mp new⟩

/-- The holder of the claim goes by the deadline that it was told last. -/
def Trusts (ops : List Op) (now : UInt64) (claim : StepClaim) : Prop :=
  Leasing.Believes (leaseEvents claim.runId claim.step.id ops) now claim.leaseToken

instance (ops : List Op) (now : UInt64) (claim : StepClaim) : Decidable (Trusts ops now claim) :=
  inferInstanceAs (Decidable (Leasing.Believes _ _ _))

/-- No two claims of a step are trusted at once. -/
def Exclusive (ops : List Op) (now : UInt64) : Prop :=
  ∀ claim ∈ issued ops, ∀ other ∈ issued ops, claim.runId = other.runId →
    claim.step.id = other.step.id → Trusts ops now claim → Trusts ops now other → claim = other

/-- A call of the history has cancelled the run. -/
def WasCancelled (ops : List Op) (k : RunId) : Prop :=
  ∃ before clock run, before ++ [.cancelRun k clock] <+: ops ∧
    ((repository.after before).cancelRun k clock).1 = .ok run ∧ run.status = .cancelled

/-- A trusted claim is renewed, and commits what it may, unless its run was cancelled. -/
def Honest (ops : List Op) (now : UInt64) : Prop :=
  ∀ claim ∈ issued ops, Trusts ops now claim →
    WasCancelled ops claim.runId ∨
    ∃ run, (repository.after ops).runs[claim.runId]? = some run ∧
      ∀ clock : Clock, clock.call 0 = now →
        (∀ leaseMs, ((repository.after ops).renewStep claim leaseMs clock).1 = .ok ()) ∧
        ∀ completion, completionMatchesClaim completion claim run.manifest = true →
          ∃ run', ((repository.after ops).completeStep claim completion clock).1 = .ok run'

/-- At no time that sweeps have not passed do two claims of a step trust in their leases, and
one that does is right. -/
theorem leases_exclude (ops : List Op) (few : (issued ops).length < 2 ^ 64) (now : UInt64)
    (past : ∀ clock, Op.recoverExpired clock ∈ ops → clock.call 0 ≤ now) :
    Exclusive ops now ∧ Honest ops now := by
  have swept : ∀ {k : RunId} {id : StepId} (time : UInt64),
      .lapse time ∈ leaseEvents k id ops → time ≤ now := by
    intro k id time member
    obtain ⟨before, op, within, about⟩ := mem_leaseEvents member
    obtain ⟨clock, rfl, rfl⟩ := leaseEvent_lapse about
    exact past clock (within.subset (List.mem_append_right _ List.mem_cons_self))
  constructor
  · intro claim member other member' sameRun sameStep first second
    obtain ⟨slot, run, -⟩ := Repository.holding_after ops claim.runId claim.step.id
    rw [Trusts, ← sameRun, ← sameStep] at second
    exact (counted_after ops).eq_of_token (Nat.le_of_lt_succ few) member member'
      (run.exclusive swept first second)
  · intro claim member trusts
    obtain ⟨slot, leasing, holding⟩ := Repository.holding_after ops claim.runId claim.step.id
    obtain rfl | ⟨deadline, rfl, early⟩ := leasing.honest swept trusts
    · left
      obtain ⟨before, op, within, about⟩ := mem_leaseEvents leasing.mem_of_revoked
      obtain ⟨clock, run, rfl, answer, cancelled⟩ := leaseEvent_revoke about
      exact ⟨before, clock, run, within, Response.cancelled.inj answer, cancelled⟩
    · right
      obtain ⟨owner, leased⟩ := holding
      obtain ⟨run, record, found, foundStep, leased⟩ := Repository.lease_eq_some.mp leased
      obtain ⟨holder, holds, -, -, same, worker⟩ := held_after ops _ _ _ _ _ found foundStep leased
      obtain rfl := (counted_after ops).eq_of_token (Nat.le_of_lt_succ few) holds member same
      refine ⟨run, found, fun clock reading => ?_⟩
      have valid : (StepLease.mk owner holder.leaseToken deadline).validFor holder (clock.call 0) =
          true := by
        rw [StepLease.validFor, ← worker, reading]
        simpa using early
      constructor
      · intro leaseMs
        obtain ⟨s', renewed, -⟩ := Repository.renewStep_of_lease _ leaseMs clock found foundStep
          leased valid
        rw [renewed]
      · intro completion accepted
        obtain ⟨sequence, run', s', -, completed, -⟩ := Repository.completeStep_of_lease _
          (Repository.keyed_after ops) holder completion clock found foundStep leased valid accepted
        exact ⟨run', by rw [completed]⟩

/-- The first claim of a step has lapsed, and the second one is trusted. -/
theorem leases_exclude_fallenBack :
    (issued fallenBack).length < 2 ^ 64 ∧
      (∀ clock, Op.recoverExpired clock ∈ fallenBack → clock.call 0 ≤ 25) ∧
      Exclusive fallenBack 25 ∧ Honest fallenBack 25 := by
  have few : (issued fallenBack).length < 2 ^ 64 := by decide +kernel
  have past : ∀ clock, Op.recoverExpired clock ∈ fallenBack → clock.call 0 ≤ 25 := by
    intro clock member
    obtain rfl : clock = .at 20 := by simpa [fallenBack, Sample.ask] using member
    decide
  exact ⟨few, past, leases_exclude fallenBack few 25 past⟩

/-- The second claim is trusted at that time. -/
example : (issued fallenBack).map (fun claim => decide (Trusts fallenBack 25 claim)) =
    [false, true] := by decide +kernel

end Orchestrator
