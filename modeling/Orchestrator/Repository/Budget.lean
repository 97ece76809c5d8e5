import Mathlib.Algebra.Order.BigOperators.Group.List
import Mathlib.Algebra.Order.Group.Nat
import Orchestrator.Repository.Inputs
import Orchestrator.Repository.LateWork

/-!
# The attempt budget

A claim snapshots its record's attempt number and fallback flag. As long as
tokens are unique, the snapshot of a live lease is exact (`Mirrored`), so the
checks made on the claim at completion are checks on the record. With those made
by claims and by recovery they keep every record within its budget: one attempt
more than the policy allows, and that one only for a fallback.
-/

namespace Orchestrator

/-- Every completion of the history presents a claim handed out before. -/
def Genuine (ops : List Op) : Prop :=
  ∀ (pre : List Op) (claim : StepClaim) (completion : StepCompletion) (clock : Clock),
    pre ++ [.completeStep claim completion clock] <+: ops → claim ∈ issued pre

/-- A completion presents a claim that was handed out. -/
def Presents (claims : List StepClaim) (action : RunAction) (_run : RunRecord) : Prop :=
  ∀ claim completion, action = .complete claim completion → claim ∈ claims

theorem Genuine.guarded {ops : List Op} (genuine : Genuine ops) : Guarded Presents ops := by
  rintro pre op k _ run run' within performs move claim completion rfl
  cases op with
  | completeStep presented committed clock =>
      obtain ⟨rfl, rfl, -⟩ := performs
      exact genuine pre _ _ clock within
  | _ => cases performs

theorem Genuine.of_within {pre ops : List Op} (genuine : Genuine ops) (h : pre <+: ops) :
    Genuine pre :=
  fun first claim completion clock within => genuine first claim completion clock (within.trans h)

/-- A history without completions presents nothing. -/
theorem Genuine.of_plain {ops : List Op}
    (plain : ∀ op ∈ ops, ∀ claim completion clock, op ≠ .completeStep claim completion clock) :
    Genuine ops := by
  intro pre claim completion clock within
  have member := within.subset (List.mem_append_right pre List.mem_cons_self)
  exact absurd rfl (plain _ member claim completion clock)

/-- The claim describes the record as it stands. -/
structure Mirrors (claim : StepClaim) (run : RunRecord) (record : StepRecord) : Prop where
  listed : claim.step ∈ run.workflow.steps
  attempt : claim.attempt = record.attempts
  fallbackUsed : claim.fallbackUsed = record.fallbackUsed

/-- Claims describe the records whose leases they hold. -/
def Mirrored (claims : List StepClaim) (s : Repository) : Prop :=
  ∀ claim ∈ claims, ∀ (run : RunRecord) (record : StepRecord) (lease : StepLease),
    s.runs[claim.runId]? = some run → run.steps[claim.step.id]? = some record →
      record.lease = some lease → lease.token = claim.leaseToken → Mirrors claim run record

/-- A record with a lease has been claimed just now, or was under the same lease
with the same attempt before. -/
theorem RecordStep.attempt_cases {token : UInt64} {action : RunAction} {run : RunRecord}
    {id : StepId} {record' : StepRecord} {lease' : StepLease}
    (h : RecordStep token run action id record') (leased : record'.lease = some lease') :
    (∃ claim, action = .claim claim ∧ claim.step.id = id ∧ lease'.token = token ∧
      claim.step ∈ run.workflow.steps ∧ claim.attempt = record'.attempts ∧
      claim.fallbackUsed = record'.fallbackUsed) ∨
    ∃ record lease, run.steps[id]? = some record ∧ record.lease = some lease ∧
      lease.token = lease'.token ∧ record'.attempts = record.attempts ∧
      record'.fallbackUsed = record.fallbackUsed := by
  cases h with
  | claim worker seen now leaseMs running listed =>
      obtain rfl := Option.some.inj leased
      exact .inl ⟨_, rfl, rfl, rfl, listed, rfl, rfl⟩
  | renew claim now again leaseMs found before =>
      obtain rfl := Option.some.inj leased
      exact .inr ⟨_, _, found, before, rfl, rfl, rfl⟩
  | complete => cases leased
  | cancel id now found active =>
      unfold StepRecord.cancel at leased ⊢
      split at leased
      next settled => exact .inr ⟨_, _, found, leased, rfl, by rw [if_pos settled]; simp⟩
      · cases leased
  | recover now listed found expired =>
      cases (recoverExpiredStep_eq_some expired).2 <;> cases leased

theorem mirrored_kept : Kept (fun _ _ _ => True) (fun claims s =>
    Counted claims s ∧ Held claims s ∧ (claims.length ≤ UInt64.maxNat → Mirrored claims s)) where
  free _ _ _ := trivial
  create request now sequence eventNow accepted creation := by
    rintro ⟨counted, held, mirrored⟩
    refine ⟨counted_kept.create _ _ _ _ accepted creation counted,
      held_kept.create _ _ _ _ accepted creation held, fun few claim member run record lease
        found foundStep leased token => ?_⟩
    rw [creation.runs] at found
    split at found
    · obtain rfl := Option.some.inj found
      simp [RunRecord.created, RunRecord.new] at foundStep
    · exact mirrored few claim member run record lease found foundStep leased token
  move {C s k action run run' s'} keyed sound move _ := by
    rintro ⟨counted, held, mirrored⟩
    refine ⟨counted_kept.move keyed sound move trivial counted,
      held_kept.move keyed sound move trivial held, fun few claim member other record lease
        found foundStep leased token => ?_⟩
    rw [List.length_append] at few
    have mirrored := mirrored (Nat.le_of_add_right_le few)
    -- a token above the counter is on no old claim and on no old lease
    have fresh : ∀ {handed : StepClaim}, action = .claim handed →
        s.nextLeaseToken.toNat < handed.leaseToken.toNat := by
      rintro handed rfl
      rw [RunAction.issued, List.length_singleton] at few
      rw [move.step.claim_fields.1, UInt64.toNat_saturatingAdd_one (by rw [counted.counter]; omega)]
      exact Nat.lt_succ_self _
    have old : ∀ {run : RunRecord} {record : StepRecord} {lease : StepLease},
        s.runs[claim.runId]? = some run → run.steps[claim.step.id]? = some record →
        record.lease = some lease → lease.token = claim.leaseToken → Mirrors claim run record := by
      intro run record lease found foundStep leased token
      obtain member | new := List.mem_append.mp member
      · exact mirrored claim member run record lease found foundStep leased token
      · cases action with
        | claim handed =>
            obtain rfl := List.mem_singleton.mp new
            obtain ⟨holder, holds, -, -, same, -⟩ :=
              held _ run _ record lease found foundStep leased
            have spent := counted.token_le holds
            have above := fresh rfl
            rw [same, token] at spent
            omega
        | _ => cases new
    rw [move.runs] at found
    split at found
    next own =>
      subst own
      obtain rfl := Option.some.inj found
      have workflow := move.step.sameRequest.workflow
      obtain kept | changed := move.step.record_cases foundStep
      · have before := old move.found kept leased token
        exact ⟨workflow ▸ before.listed, before.attempt, before.fallbackUsed⟩
      · obtain ⟨handed, rfl, stepId, leaseToken, listed, attempt, fallbackUsed⟩ |
          ⟨record, lease, kept, before, same, attempts, flag⟩ := changed.attempt_cases leased
        · obtain member | new := List.mem_append.mp member
          · have spent := counted.token_le member
            have above := fresh rfl
            rw [← token, leaseToken, ← move.step.claim_fields.1] at spent
            omega
          · obtain rfl := List.mem_singleton.mp new
            exact ⟨workflow ▸ listed, attempt, fallbackUsed⟩
        · have before := old move.found kept before (same.trans token)
          exact ⟨workflow ▸ before.listed, before.attempt.trans attempts.symm,
            before.fallbackUsed.trans flag.symm⟩
    · exact old found foundStep leased token

/-- A record within its budget: at most one attempt more, made by a fallback, and
a record that awaits a retry has an attempt left. -/
structure StepRecord.Budgeted (record : StepRecord) (budget : Nat) : Prop where
  within : record.history.length ≤ budget ∨
    record.history.length = budget + 1 ∧ record.fallbackUsed = true ∧ record.status ≠ .retrying
  waiting : record.status = .retrying → record.history.length < budget ∨
    record.history.length = budget ∧ record.fallbackUsed = true

namespace StepRecord.Budgeted

variable {record : StepRecord} {budget : Nat}

/-- A record whose fallback is unused has made no attempt beyond the budget. -/
theorem unused (h : record.Budgeted budget) (unused : record.fallbackUsed = false) :
    record.history.length ≤ budget := by
  obtain below | ⟨-, used, -⟩ := h.within
  · exact below
  · rw [unused] at used
    cases used

/-- The record after an attempt that ended without a retry. -/
theorem ended {record' : StepRecord} (h : record.Budgeted budget)
    (length : record'.history.length = record.history.length)
    (flag : record'.fallbackUsed = record.fallbackUsed) (status : record'.status ≠ .retrying) :
    record'.Budgeted budget := by
  refine ⟨?_, fun retrying => absurd retrying status⟩
  rw [length, flag]
  obtain below | ⟨exceeds, used, -⟩ := h.within
  · exact .inl below
  · exact .inr ⟨exceeds, used, status⟩

/-- The record that awaits a retry with an attempt left. -/
theorem retried {record' : StepRecord} (length : record'.history.length < budget) :
    record'.Budgeted budget :=
  ⟨.inl (Nat.le_of_lt length), fun _ => .inl length⟩

/-- The record whose fallback was just selected. -/
theorem selected {record' : StepRecord} (length : record'.history.length ≤ budget)
    (flag : record'.fallbackUsed = true) : record'.Budgeted budget :=
  ⟨.inl length, fun _ => (Nat.lt_or_eq_of_le length).imp_right fun equal => ⟨equal, flag⟩⟩

end StepRecord.Budgeted

/-- With a count as far as a word can, an attempt number below a word is exact. -/
theorem StepRecord.Sound.below {workflow : WorkflowSpec} {manifest : RunManifest} {id : StepId}
    {record : StepRecord} (sound : record.Sound workflow manifest id) {budget : UInt32}
    (below : record.attempts < budget) : record.history.length < budget.toNat := by
  have counted := sound.counted
  have bound := budget.toNat_le_maxNat
  rw [UInt32.lt_iff_toNat_lt] at below
  omega

/-- The task of a fallback selection of the step. -/
def ExecutionEvent.selection (id : StepId) : ExecutionEvent → Option TaskId
  | .stepFallbackSelected _ stepId task => if stepId = id then some task else none
  | _ => none

theorem ExecutionEvent.selection_of_ne {event : ExecutionEvent} {k id : StepId}
    (about : event.stepId? = some k) (other : k ≠ id) : event.selection id = none := by
  cases event with
  | stepFallbackSelected runId stepId task =>
      obtain rfl := Option.some.inj about
      exact if_neg other
  | _ => rfl

/-- The fallback that the record has selected. -/
def StepRecord.selected (record : StepRecord) : List TaskId :=
  if record.fallbackUsed then [record.task] else []

namespace RunRecord

/-- The fallback selections that the log has for the step. -/
def selections (run : RunRecord) (id : StepId) : List TaskId :=
  run.eventLog.filterMap fun envelope => envelope.event.selection id

/-- The fallback that the step's record has selected. -/
def selected (run : RunRecord) (id : StepId) : List TaskId :=
  (run.steps[id]?).elim [] StepRecord.selected

/-- All records are within the budgets of their steps, and the log has exactly the
fallback selections of the records. -/
structure Budgeted (run : RunRecord) : Prop where
  records : ∀ step ∈ run.workflow.steps, ∀ (record : StepRecord),
    run.steps[step.id]? = some record → record.Budgeted step.policy.retry.budget.toNat
  logged : ∀ id, run.selections id = run.selected id

end RunRecord

section Step

variable {token : UInt64} {action : RunAction} {run run' : RunRecord}

/-- A completion that the claim of the leased record may commit. -/
def Presented (run : RunRecord) (action : RunAction) : Prop :=
  ∀ claim completion record lease, action = .complete claim completion →
    run.steps[claim.step.id]? = some record → record.lease = some lease →
      lease.token = claim.leaseToken → Mirrors claim run record

theorem RecordStep.budgeted {id : StepId} {record' : StepRecord}
    (h : RecordStep token run action id record') (sound : run.Sound) (budgeted : run.Budgeted)
    (presented : Presented run action) {step : StepSpec} (listed : step ∈ run.workflow.steps)
    (own : step.id = id) : record'.Budgeted step.policy.retry.budget.toNat := by
  have spec : ∀ {other : StepSpec}, other ∈ run.workflow.steps → other.id = step.id →
      other = step :=
    fun member same => WorkflowSpec.step_eq_of_id sound.accepted.valid member listed same
  cases h with
  | @claim claimed taskId task dependencies worker seen now leaseMs running member candidate
      known =>
      obtain rfl := spec member own.symm
      obtain ⟨-, -, -, -, -, available⟩ := Repository.claimCandidate_eq_some.mp candidate
      rw [RunRecord.claimed, RunRecord.entry]
      cases found : run.steps[claimed.id]? with
      | none =>
          refine ⟨.inl ?_, fun retrying => by cases retrying⟩
          simpa [StepRecord.claim, StepRecord.new] using RetryPolicy.budget_pos _
      | some record =>
          have old := budgeted.records claimed member record found
          have safe := sound.records _ _ found
          simp only [stepAvailable, found, Option.all_some, Bool.and_eq_true, Bool.or_eq_true,
            beq_iff_eq, decide_eq_true_eq] at available
          obtain ⟨-, below | ⟨⟨used, retrying⟩, -⟩⟩ := available
          · have left := safe.below below
            refine ⟨.inl ?_, fun retrying => by cases retrying⟩
            simpa [StepRecord.claim] using Nat.succ_le_of_lt left
          · refine ⟨?_, fun retrying => by cases retrying⟩
            obtain left | ⟨full, -⟩ := old.waiting retrying
            · exact .inl (by simpa [StepRecord.claim] using Nat.succ_le_of_lt left)
            · exact .inr ⟨by simp [StepRecord.claim, full], used, by simp [StepRecord.claim]⟩
  | renew claim now again leaseMs found leased valid =>
      have old := budgeted.records step listed _ (own ▸ found)
      exact ⟨old.within, old.waiting⟩
  | @complete record lease claim completion now retryNow finishNow found leased valid accepted =>
      simp only [StepLease.validFor, Bool.and_eq_true, beq_iff_eq] at valid
      have mirrors := presented claim completion record lease rfl found leased valid.1.2
      have old := budgeted.records step listed record (own ▸ found)
      have safe := sound.records _ _ found
      have same := spec mirrors.listed own.symm
      have length : ∀ completion, (record.complete completion retryNow finishNow).history.length =
          record.history.length := fun _ => RunRecord.Sound.history_length _ _
      cases completionMatchesClaim_iff.mp accepted with
      | retrying error artifacts retryAfterMs below =>
          rw [mirrors.attempt, same] at below
          exact .retried (by rw [length]; exact safe.below below)
      | fallback task error artifacts unused selected known =>
          refine .selected ?_ (Bool.or_true _)
          rw [length]
          exact old.unused (mirrors.fallbackUsed ▸ unused)
      | succeeded output artifacts =>
          exact old.ended (length _) (Bool.or_false _) (by simp [StepRecord.complete,
            StepCompletion.succeeded])
      | failed error artifacts spent =>
          exact old.ended (length _) (Bool.or_false _) (by simp [StepRecord.complete,
            StepCompletion.failed])
  | cancel _ now found active =>
      have old := budgeted.records step listed _ (own ▸ found)
      unfold StepRecord.cancel
      split
      · exact old
      · exact old.ended (RunRecord.Sound.history_length _ _) rfl (by simp)
  | @recover recovering record recovered event now member found expired =>
      obtain rfl := spec member own.symm
      have old := budgeted.records recovering member record found
      have safe := sound.records _ _ found
      have length : ∀ status task flag, (record.released now status task flag).history.length =
          record.history.length := fun _ _ _ => RunRecord.Sound.history_length _ _
      cases (recoverExpiredStep_eq_some expired).2 with
      | retrying below => exact .retried (by rw [length]; exact safe.below below)
      | fallback spent unused selected =>
          exact .selected (by rw [length]; exact old.unused unused) rfl
      | failed spent final => exact old.ended (length _ _ _) rfl (by simp [StepRecord.released])

namespace RunRecord

theorem selections_logged (run : RunRecord) (event : ExecutionEvent) (sequence now : UInt64)
    (id : StepId) :
    (run.logged event sequence now).selections id =
      run.selections id ++ (event.selection id).toList := by
  rw [selections, logged_eventLog, List.filterMap_append]
  cases h : event.selection id with
  | none => simp [selections, eventEnvelope, h]
  | some task => simp [selections, eventEnvelope, h]

/-- The selection of a record that replaces the one of step `k`. -/
theorem selected_of_insert (run : RunRecord) {k : StepId} {record : StepRecord}
    (steps : run'.steps = run.steps.insert k record) (id : StepId) :
    run'.selected id = if k = id then record.selected else run.selected id := by
  rw [selected, steps, BTreeMap.getElem?_insert]
  split <;> rfl

theorem selected_of_found {id : StepId} {record : StepRecord}
    (found : run.steps[id]? = some record) : run.selected id = record.selected := by
  rw [selected, found]
  rfl

end RunRecord

/-- A selection that the log already has is not recorded again. -/
theorem selection_of_recorded {event : ExecutionEvent} {id : StepId}
    (logged : run.selections id = run.selected id)
    (accepted : eventIsValidForRecord run event = true) : event.selection id = none := by
  cases event with
  | stepFallbackSelected runId stepId task =>
      rw [ExecutionEvent.selection, ite_eq_right_iff]
      rintro rfl
      simp only [eventIsValidForRecord] at accepted
      split at accepted
      · cases accepted
      · split at accepted
        · cases accepted
        next record found =>
          simp only [Bool.and_eq_true, beq_iff_eq, Bool.not_eq_true', alreadyLogged,
            List.any_eq_false] at accepted
          obtain ⟨⟨⟨-, used⟩, rfl⟩, unlogged⟩ := accepted
          rw [RunRecord.selected_of_found found, StepRecord.selected, if_pos used] at logged
          have member : record.task ∈ run.selections stepId := by
            rw [logged]
            exact List.mem_singleton_self _
          obtain ⟨envelope, present, selection⟩ := List.mem_filterMap.mp member
          have absent := unlogged envelope present
          cases about : envelope.event with
          | stepFallbackSelected _ eventStep eventTask =>
              simp only [about, ExecutionEvent.selection, Option.ite_none_right_eq_some,
                Option.some.injEq] at selection
              simp [about, selection.1, selection.2] at absent
          | _ => simp [about, ExecutionEvent.selection] at selection
  | _ => rfl

/-- A completion selects what its event says. -/
theorem Commits.selected {claim : StepClaim} {manifest : RunManifest}
    {completion : StepCompletion} (h : Commits claim manifest completion) {record : StepRecord}
    (flag : claim.fallbackUsed = record.fallbackUsed) (retryNow finishNow : UInt64) :
    (record.complete completion retryNow finishNow).selected =
      record.selected ++ (completion.event.selection claim.step.id).toList := by
  cases h with
  | fallback task error artifacts unused =>
      rw [flag] at unused
      simp [StepRecord.selected, StepRecord.complete, StepCompletion.fallback,
        ExecutionEvent.selection, unused]
  | retrying =>
      simp [StepRecord.selected, StepRecord.complete, StepCompletion.retrying,
        ExecutionEvent.selection]
  | succeeded =>
      simp [StepRecord.selected, StepRecord.complete, StepCompletion.succeeded,
        ExecutionEvent.selection]
  | failed =>
      simp [StepRecord.selected, StepRecord.complete, StepCompletion.failed,
        ExecutionEvent.selection]

/-- So does a recovery. -/
theorem Recovers.selected {runId : RunId} {step : StepSpec} {record recovered : StepRecord}
    {now : UInt64} {event : ExecutionEvent}
    (h : Recovers runId step record now recovered event) :
    recovered.selected = record.selected ++ (event.selection record.id).toList := by
  cases h with
  | fallback spent unused =>
      simp [StepRecord.selected, StepRecord.released, ExecutionEvent.selection, unused]
  | retrying => exact (List.append_nil _).symm
  | failed => exact (List.append_nil _).symm

theorem StepRecord.cancel_selected (record : StepRecord) (now : UInt64) :
    (record.cancel now).selected = record.selected := by
  unfold StepRecord.cancel
  split <;> rfl

/-- One step of a run logs the selection that it makes in a record. -/
theorem RunStep.logged (h : RunStep token action run run') (sound : run.Sound)
    (presented : Presented run action) {id : StepId}
    (logged : run.selections id = run.selected id) : run'.selections id = run'.selected id := by
  cases h with
  | @claim _ step taskId task dependencies worker seen now leaseMs running listed candidate known =>
      obtain ⟨-, named, -⟩ := Repository.claimCandidate_eq_some.mp candidate
      change run.selections id = _
      rw [RunRecord.selected_of_insert run rfl, logged]
      split
      next same =>
        subst same
        rw [RunRecord.selected, RunRecord.claimed, RunRecord.entry, named, selectedTask]
        cases run.steps[step.id]? <;> rfl
      · rfl
  | renew claim now again leaseMs found leased valid =>
      change run.selections id = _
      rw [RunRecord.selected_of_insert run rfl, logged]
      split
      next same =>
        rw [← same, RunRecord.selected_of_found found]
        rfl
      · rfl
  | @complete _ record lease claim completion now retryNow finishNow sequence eventNow found leased
      valid accepted =>
      simp only [StepLease.validFor, Bool.and_eq_true, beq_iff_eq] at valid
      have mirrors := presented claim completion record lease rfl found leased valid.1.2
      have commits := completionMatchesClaim_iff.mp accepted
      rw [RunRecord.selections_logged, RunRecord.selections, RunRecord.commit_eventLog]
      change run.selections id ++ _ = RunRecord.selected (run.commit _ _) id
      rw [RunRecord.selected_of_insert run (run.commit_steps _ _), logged]
      split
      next same =>
        rw [← same, RunRecord.selected_of_found found, commits.selected mirrors.fallbackUsed]
      next other =>
        rw [ExecutionEvent.selection_of_ne commits.stepId? other, Option.toList_none,
          List.append_nil]
  | record event sequence eventNow accepted =>
      rw [RunRecord.selections_logged, logged, selection_of_recorded logged accepted]
      exact List.append_nil _
  | measure => exact logged
  | settle metrics => simpa [RunRecord.selections, RunRecord.selected] using logged
  | finish metrics =>
      rw [RunRecord.selections_logged]
      simpa [RunRecord.selections, RunRecord.selected, ExecutionEvent.selection] using logged
  | cancel now sequence eventNow active =>
      have same : (run.cancelSteps now).selected id = run.selected id := by
        rw [RunRecord.selected, RunRecord.cancelSteps_steps, Std.ExtTreeMap.getElem?_map]
        cases found : run.steps[id]? with
        | none => simp [RunRecord.selected, found]
        | some record => simp [RunRecord.selected, found, StepRecord.cancel_selected]
      rw [RunRecord.selections_logged]
      change run.selections id ++ [] = (run.cancelSteps now).selected id
      rw [List.append_nil, same, logged]
  | @recover _ step record recovered event now sequence eventNow listed found expired =>
      have named := (sound.records _ _ found).named
      have recovers := (recoverExpiredStep_eq_some expired).2
      rw [RunRecord.selections_logged, RunRecord.selections, RunRecord.noteRecovery_eventLog]
      change run.selections id ++ _ = RunRecord.selected (RunRecord.noteRecovery _ _) id
      rw [RunRecord.selected_of_insert run (RunRecord.noteRecovery_steps _ _), logged]
      split
      next same =>
        rw [← same, RunRecord.selected_of_found found, recovers.selected, named]
      next other =>
        rw [ExecutionEvent.selection_of_ne recovers.stepId? (named ▸ other), Option.toList_none,
          List.append_nil]

theorem RunStep.budgeted (h : RunStep token action run run') (sound : run.Sound)
    (presented : Presented run action) (budgeted : run.Budgeted) : run'.Budgeted := by
  refine ⟨fun step listed record found => ?_, fun id => h.logged sound presented
    (budgeted.logged id)⟩
  rw [h.sameRequest.workflow] at listed
  obtain old | changed := h.record_cases found
  · exact budgeted.records step listed record old
  · exact changed.budgeted sound budgeted presented listed rfl

end Step

/-- The attempts of the record exceed the budget, or the attempt it awaits will. -/
def StepRecord.Over (record : StepRecord) (budget : Nat) : Prop :=
  budget < record.history.length ∨ budget ≤ record.history.length ∧ record.status = .retrying

/-- What a change of a record does to its fallback flag. A record with a fallback
gets over its budget only if it already is, and selecting one is no attempt. -/
structure StepRecord.Continues (record record' : StepRecord) (budget : Nat) : Prop where
  used : record.fallbackUsed = true → record'.fallbackUsed = true
  exceeds : record.fallbackUsed = true → record'.Over budget → record.Over budget
  selected : record.fallbackUsed = false → record'.fallbackUsed = true →
    record'.attempts = record.attempts ∧ record'.history.length = record.history.length

/-- A change of a record that makes no attempt. -/
structure StepRecord.Rests (record record' : StepRecord) (budget : Nat) : Prop
    extends StepRecord.Continues record record' budget where
  attempts : record'.attempts = record.attempts
  length : record'.history.length = record.history.length

namespace StepRecord.Rests

variable {record record' record'' : StepRecord} {budget : Nat}

theorem refl (record : StepRecord) (budget : Nat) : record.Rests record budget :=
  ⟨⟨fun used => used, fun _ exceeds => exceeds, fun _ _ => ⟨rfl, rfl⟩⟩, rfl, rfl⟩

theorem trans (h : record.Rests record' budget) (h' : record'.Rests record'' budget) :
    record.Rests record'' budget :=
  ⟨⟨fun used => h'.used (h.used used), fun used exceeds =>
    h.exceeds used (h'.exceeds (h.used used) exceeds),
    fun _ _ => ⟨h'.attempts.trans h.attempts, h'.length.trans h.length⟩⟩,
    h'.attempts.trans h.attempts, h'.length.trans h.length⟩

/-- The record after an attempt that ended without a retry. -/
theorem ended (attempts : record'.attempts = record.attempts)
    (length : record'.history.length = record.history.length)
    (flag : record'.fallbackUsed = record.fallbackUsed) (status : record'.status ≠ .retrying) :
    record.Rests record' budget := by
  refine ⟨⟨fun used => flag.trans used, ?_, fun _ _ => ⟨attempts, length⟩⟩, attempts, length⟩
  rintro - (beyond | ⟨-, retrying⟩)
  · exact .inl (length ▸ beyond)
  · exact absurd retrying status

/-- The record that awaits a retry with an attempt left. -/
theorem retried (attempts : record'.attempts = record.attempts)
    (length : record'.history.length = record.history.length)
    (flag : record'.fallbackUsed = record.fallbackUsed)
    (below : record.history.length < budget) : record.Rests record' budget := by
  refine ⟨⟨fun used => flag.trans used, ?_, fun _ _ => ⟨attempts, length⟩⟩, attempts, length⟩
  rintro - (beyond | ⟨beyond, -⟩)
  · omega
  · omega

/-- The record whose fallback was just selected. -/
theorem switched (attempts : record'.attempts = record.attempts)
    (length : record'.history.length = record.history.length)
    (unused : record.fallbackUsed = false) : record.Rests record' budget :=
  ⟨⟨fun used => absurd used (by simp [unused]), fun used => absurd used (by simp [unused]),
    fun _ _ => ⟨attempts, length⟩⟩, attempts, length⟩

end StepRecord.Rests

section Continuation

variable {token : UInt64} {action : RunAction} {run run' : RunRecord} {id : StepId}
  {step : StepSpec}

/-- Apart from claims, no change of a record makes an attempt. -/
theorem RecordStep.rests {record' : StepRecord} (h : RecordStep token run action id record')
    (sound : run.Sound) (presented : Presented run action) (plain : action.isClaim = false)
    (listed : step ∈ run.workflow.steps) (own : step.id = id) :
    ∃ record, run.steps[id]? = some record ∧
      record.Rests record' step.policy.retry.budget.toNat := by
  have spec : ∀ {other : StepSpec}, other ∈ run.workflow.steps → other.id = step.id →
      other = step :=
    fun member same => WorkflowSpec.step_eq_of_id sound.accepted.valid member listed same
  cases h with
  | claim => cases plain
  | renew claim now again leaseMs found leased valid =>
      exact ⟨_, found, ⟨⟨fun used => used, fun _ exceeds => exceeds, fun _ _ => ⟨rfl, rfl⟩⟩,
        rfl, rfl⟩⟩
  | @complete record lease claim completion now retryNow finishNow found leased valid accepted =>
      simp only [StepLease.validFor, Bool.and_eq_true, beq_iff_eq] at valid
      have mirrors := presented claim completion record lease rfl found leased valid.1.2
      have safe := sound.records _ _ found
      have same := spec mirrors.listed own.symm
      refine ⟨record, found, ?_⟩
      cases completionMatchesClaim_iff.mp accepted with
      | retrying error artifacts retryAfterMs below =>
          rw [mirrors.attempt, same] at below
          exact .retried rfl (RunRecord.Sound.history_length _ _) (Bool.or_false _)
            (safe.below below)
      | fallback task error artifacts unused selected known =>
          exact .switched rfl (RunRecord.Sound.history_length _ _) (mirrors.fallbackUsed ▸ unused)
      | succeeded output artifacts =>
          exact .ended rfl (RunRecord.Sound.history_length _ _) (Bool.or_false _)
            (by simp [StepRecord.complete, StepCompletion.succeeded])
      | failed error artifacts spent =>
          exact .ended rfl (RunRecord.Sound.history_length _ _) (Bool.or_false _)
            (by simp [StepRecord.complete, StepCompletion.failed])
  | @cancel record _ now found active =>
      refine ⟨record, found, ?_⟩
      unfold StepRecord.cancel
      split
      · exact .refl record _
      · exact .ended rfl (RunRecord.Sound.history_length _ _) rfl (by simp)
  | @recover recovering record recovered event now member found expired =>
      obtain rfl := spec member own.symm
      have safe := sound.records _ _ found
      refine ⟨record, found, ?_⟩
      cases (recoverExpiredStep_eq_some expired).2 with
      | retrying below =>
          exact .retried rfl (RunRecord.Sound.history_length _ _) rfl (safe.below below)
      | fallback spent unused selected =>
          exact .switched rfl (RunRecord.Sound.history_length _ _) unused
      | failed spent final =>
          exact .ended rfl (RunRecord.Sound.history_length _ _) rfl (by simp [StepRecord.released])

/-- A claim takes a record over its budget only where it awaits that attempt. -/
theorem RunStep.claim_continues {claim : StepClaim} {record' : StepRecord}
    (h : RunStep token (.claim claim) run run') (sound : run.Sound)
    (listed : step ∈ run.workflow.steps) (found : run'.steps[step.id]? = some record') :
    record'.fallbackUsed = false ∨ ∃ record, run.steps[step.id]? = some record ∧
      record.Continues record' step.policy.retry.budget.toNat := by
  cases h with
  | @claim _ claimed taskId task dependencies worker seen now leaseMs running member candidate
      known =>
      obtain ⟨-, -, -, -, -, available⟩ := Repository.claimCandidate_eq_some.mp candidate
      rw [RunRecord.bump_steps, RunRecord.setStep_steps, BTreeMap.getElem?_insert] at found
      split at found
      next same =>
        obtain rfl := WorkflowSpec.step_eq_of_id sound.accepted.valid member listed same
        obtain rfl := Option.some.inj found
        rw [RunRecord.claimed, RunRecord.entry]
        cases before : run.steps[claimed.id]? with
        | none => exact .inl rfl
        | some record =>
            have safe := sound.records _ _ before
            simp only [stepAvailable, before, Option.all_some, Bool.and_eq_true, Bool.or_eq_true,
              beq_iff_eq, decide_eq_true_eq] at available
            refine .inr ⟨record, rfl, fun used => used, ?_, ?_⟩
            · rintro - (beyond | ⟨-, retrying⟩)
              · obtain ⟨-, below | ⟨⟨-, retrying⟩, -⟩⟩ := available
                · have left := safe.below below
                  simp [StepRecord.claim] at beyond
                  omega
                · exact .inr ⟨by simpa [StepRecord.claim, Nat.lt_succ_iff] using beyond, retrying⟩
              · cases retrying
            · intro unused used
              exact absurd (used.symm.trans unused) (by simp)
      · exact .inr ⟨record', found, (StepRecord.Rests.refl record' _).toContinues⟩

end Continuation

/-- While tokens are unique, a token is on one claim. -/
theorem Counted.eq_of_token {claims : List StepClaim} {s : Repository} (h : Counted claims s)
    (few : claims.length ≤ UInt64.maxNat) {claim other : StepClaim} (member : claim ∈ claims)
    (member' : other ∈ claims) (same : claim.leaseToken = other.leaseToken) : claim = other :=
  List.inj_on_of_nodup_map (h.nodup few) member member' same

/-- What is known of a repository and the claims handed out, while tokens are unique. -/
structure Tracked (claims : List StepClaim) (s : Repository) : Prop where
  counted : Counted claims s
  held : Held claims s
  mirrored : claims.length ≤ UInt64.maxNat → Mirrored claims s
  budgeted : claims.length ≤ UInt64.maxNat → s.Every RunRecord.Budgeted

/-- A presented claim describes the record whose lease it holds. -/
theorem Tracked.presented {claims : List StepClaim} {s : Repository} (h : Tracked claims s)
    (few : claims.length ≤ UInt64.maxNat) {k : RunId} {action : RunAction} {run : RunRecord}
    (found : s.runs[k]? = some run) (presents : Presents claims action run) :
    Presented run action := by
  intro claim completion record lease performed foundStep leased token
  have member := presents claim completion performed
  obtain ⟨holder, holds, runId, -, same, -⟩ := h.held k run _ record lease found foundStep leased
  obtain rfl := h.counted.eq_of_token few holds member (same.trans token)
  exact h.mirrored few _ member run record lease (runId.symm ▸ found) foundStep leased token

theorem RunRecord.Budgeted.created (request : RunRequest) (now sequence eventNow : UInt64) :
    (RunRecord.created request now sequence eventNow).Budgeted := by
  refine ⟨fun step _ record found => ?_, fun id => ?_⟩
  · simp [RunRecord.created, RunRecord.new] at found
  · simp [RunRecord.created, RunRecord.selections, RunRecord.selected, RunRecord.new,
      eventEnvelope, ExecutionEvent.selection]

theorem tracked_kept : Kept Presents Tracked where
  free C id run claim completion performed := by cases performed
  create request now sequence eventNow accepted creation tracked := by
    obtain ⟨counted, held, mirrored⟩ := mirrored_kept.create _ _ _ _ accepted creation
      ⟨tracked.counted, tracked.held, tracked.mirrored⟩
    exact ⟨counted, held, mirrored, fun few =>
      creation.lift (.created request now sequence eventNow) (tracked.budgeted few)⟩
  move {C s k action run run' s'} keyed sound move presents tracked := by
    obtain ⟨counted, held, mirrored⟩ := mirrored_kept.move keyed sound move trivial
      ⟨tracked.counted, tracked.held, tracked.mirrored⟩
    refine ⟨counted, held, mirrored, fun few => ?_⟩
    rw [List.length_append] at few
    have few := Nat.le_of_add_right_le few
    exact move.lift (move.step.budgeted (sound _ _ move.found)
      (tracked.presented few move.found presents)) (tracked.budgeted few)

theorem tracked_after {ops : List Op} (genuine : Genuine ops) :
    Tracked (issued ops) (repository.after ops) := by
  refine tracked_kept.after ⟨⟨rfl, by simp⟩, ?_, ?_, ?_⟩ ops genuine.guarded
  · intro k run id record lease found
    simp [Repository.empty] at found
  · intro _ claim member
    cases member
  · intro _ k run found
    simp [Repository.empty] at found

/-- The record of a step of a stored run. -/
def Repository.record (s : Repository) (k : RunId) (id : StepId) : Option StepRecord :=
  s.runs[k]? >>= fun run => run.steps[id]?

theorem Repository.record_eq_some {s : Repository} {k : RunId} {id : StepId} {record : StepRecord} :
    s.record k id = some record ↔
      ∃ run, s.runs[k]? = some run ∧ run.steps[id]? = some record := by
  rw [Repository.record]
  exact Option.bind_eq_some_iff

/-- The step is one of the run's workflow and has the record. -/
def Repository.Records (s : Repository) (k : RunId) (step : StepSpec) (record : StepRecord) :
    Prop :=
  ∃ run, s.runs[k]? = some run ∧ step ∈ run.workflow.steps ∧ run.steps[step.id]? = some record

/-- A record of the repository after a move other than a claim comes from one
before it. -/
theorem Repository.Moves.rests {s s' : Repository} {k id : RunId} {action : RunAction}
    {run run' : RunRecord} (h : s.Moves k action run run' s') (sound : s.Every RunRecord.Sound)
    (presented : Presented run action) (plain : action.isClaim = false) {step : StepSpec}
    {record' : StepRecord} (found : s'.Records id step record') :
    ∃ record, s.Records id step record ∧ record.Rests record' step.policy.retry.budget.toNat := by
  obtain ⟨other, foundRun, listed, foundStep⟩ := found
  rw [h.runs] at foundRun
  split at foundRun
  next own =>
    subst own
    obtain rfl := Option.some.inj foundRun
    rw [h.step.sameRequest.workflow] at listed
    obtain old | changed := h.step.record_cases foundStep
    · exact ⟨record', ⟨run, h.found, listed, old⟩, .refl record' _⟩
    · obtain ⟨record, before, rests⟩ :=
        changed.rests (sound _ _ h.found) presented plain listed rfl
      exact ⟨record, ⟨run, h.found, listed, before⟩, rests⟩
  · exact ⟨record', ⟨other, foundRun, listed, foundStep⟩, .refl record' _⟩

/-- A record with a fallback continues a record that the step had one call before. -/
theorem record_continues {ops : List Op} {op : Op} (genuine : Genuine (ops ++ [op]))
    (few : (issued ops).length ≤ UInt64.maxNat) {k : RunId} {step : StepSpec}
    {record' : StepRecord} (found : (repository.after (ops ++ [op])).Records k step record')
    (used : record'.fallbackUsed = true) :
    ∃ record, (repository.after ops).Records k step record ∧
      record.Continues record' step.policy.retry.budget.toNat := by
  have sound := sound_after ops
  have tracked := tracked_after (genuine.of_within (List.prefix_append ops [op]))
  have effect := Repository.effect_after ops op
  have allowed := genuine.guarded ops op
  generalize repository.after (ops ++ [op]) = s' at found effect allowed
  generalize repository.answer (repository.after ops) op = response at effect
  have moved : ∀ {k' : RunId} {action : RunAction} {run run' : RunRecord},
      (repository.after ops).Moves k' action run run' s' → op.Performs k' action →
      action.isClaim = false → ∃ record, (repository.after ops).Records k step record ∧
        record.Continues record' step.policy.retry.budget.toNat := by
    intro k' action run run' move performs plain
    have presented := tracked.presented few move.found
      (allowed _ _ _ _ List.prefix_rfl performs move)
    obtain ⟨record, before, rests⟩ := move.rests sound presented plain found
    exact ⟨record, before, rests.toContinues⟩
  cases effect with
  | unchanged => exact ⟨record', found, (StepRecord.Rests.refl record' _).toContinues⟩
  | create accepted creation =>
      obtain ⟨run, foundRun, listed, foundStep⟩ := found
      rw [creation.runs] at foundRun
      split at foundRun
      · obtain rfl := Option.some.inj foundRun
        simp [RunRecord.created, RunRecord.new] at foundStep
      · exact ⟨record', ⟨run, foundRun, listed, foundStep⟩,
          (StepRecord.Rests.refl record' _).toContinues⟩
  | claim move =>
      obtain ⟨other, foundRun, listed, foundStep⟩ := found
      rw [move.runs] at foundRun
      split at foundRun
      next own =>
        subst own
        obtain rfl := Option.some.inj foundRun
        rw [move.step.sameRequest.workflow] at listed
        obtain unused | ⟨record, before, continues⟩ :=
          move.step.claim_continues (sound _ _ move.found) listed foundStep
        · rw [unused] at used
          cases used
        · exact ⟨record, ⟨_, move.found, listed, before⟩, continues⟩
      · exact ⟨record', ⟨other, foundRun, listed, foundStep⟩,
          (StepRecord.Rests.refl record' _).toContinues⟩
  | renew move => exact moved move ⟨rfl, rfl⟩ rfl
  | complete move => exact moved move ⟨rfl, rfl, rfl⟩ rfl
  | record move => exact moved move ⟨rfl, rfl⟩ rfl
  | finish move => exact moved move ⟨rfl, rfl⟩ rfl
  | cancel move => exact moved move rfl rfl
  | recover recovery =>
      have rests : ∀ record', s'.Records k step record' → ∃ record,
          (repository.after ops).Records k step record ∧
            record.Rests record' step.policy.retry.budget.toNat := by
        refine recovery.invariant (I := fun s => ∀ record', s.Records k step record' → ∃ record,
          (repository.after ops).Records k step record ∧
            record.Rests record' step.policy.retry.budget.toNat) ?_ (Repository.keyed_after ops)
          sound (fun record found => ⟨record, found, .refl record _⟩)
        intro s k' id run run' s' _ sound move before record' found
        obtain ⟨middle, between, rests⟩ := move.rests sound
          (fun claim completion record lease performed => by cases performed) rfl found
        obtain ⟨record, found, earlier⟩ := before middle between
        exact ⟨record, found, earlier.trans rests⟩
      obtain ⟨record, before, rests⟩ := rests record' found
      exact ⟨record, before, rests.toContinues⟩

/-- A call of the history gave the step its fallback when it had made the attempts. -/
def SelectedAt (ops : List Op) (k : RunId) (id : StepId) (attempts : UInt32) : Prop :=
  ∃ (pre : List Op) (op : Op) (before after : StepRecord), pre ++ [op] <+: ops ∧
    (repository.after pre).record k id = some before ∧
    (repository.after (pre ++ [op])).record k id = some after ∧
    before.fallbackUsed = false ∧ after.fallbackUsed = true ∧
    before.attempts = attempts ∧ after.attempts = attempts

theorem Repository.Records.record {s : Repository} {k : RunId} {step : StepSpec}
    {record : StepRecord} (h : s.Records k step record) : s.record k step.id = some record := by
  obtain ⟨run, found, -, foundStep⟩ := h
  exact Repository.record_eq_some.mpr ⟨run, found, foundStep⟩

/-- A record over its budget got its fallback when the budget was spent. -/
theorem selectedAt_of_over {ops : List Op} (genuine : Genuine ops)
    (few : (issued ops).length ≤ UInt64.maxNat) {k : RunId} {step : StepSpec}
    {record : StepRecord} (found : (repository.after ops).Records k step record)
    (exceeds : record.Over step.policy.retry.budget.toNat) :
    SelectedAt ops k step.id step.policy.retry.budget := by
  induction ops using Machine.history_induction generalizing record with
  | nil =>
      obtain ⟨run, foundRun, -⟩ := found
      simp [repository, Repository.empty] at foundRun
  | concat ops op ih =>
      have within : ops <+: ops ++ [op] := List.prefix_append ops [op]
      have fewer := Nat.le_trans (issued_extends within).length_le few
      have used : record.fallbackUsed = true := by
        obtain ⟨run, foundRun, listed, foundStep⟩ := found
        have budgeted :=
          ((tracked_after genuine).budgeted few _ _ foundRun).records step listed record foundStep
        obtain below | ⟨-, used, -⟩ := budgeted.within
        · obtain beyond | ⟨full, retrying⟩ := exceeds
          · omega
          · obtain left | ⟨-, used⟩ := budgeted.waiting retrying
            · omega
            · exact used
        · exact used
      obtain ⟨earlier, before, continues⟩ := record_continues genuine fewer found used
      cases unused : earlier.fallbackUsed with
      | true =>
          obtain ⟨pre, op, earlier, later, inside, selected⟩ :=
            ih (genuine.of_within within) fewer before (continues.exceeds unused exceeds)
          exact ⟨pre, op, earlier, later, inside.trans within, selected⟩
      | false =>
          obtain ⟨attempts, length⟩ := continues.selected unused used
          have spent : earlier.attempts = step.policy.retry.budget := by
            obtain ⟨run, foundRun, listed, foundStep⟩ := before
            have tracked := tracked_after (genuine.of_within within)
            have most := ((tracked.budgeted fewer _ _ foundRun).records step listed earlier
              foundStep).unused unused
            have counted := ((sound_after ops _ _ foundRun).records _ _ foundStep).counted
            have bound := step.policy.retry.budget.toNat_le_maxNat
            apply UInt32.toNat_inj.mp
            obtain beyond | ⟨beyond, -⟩ := exceeds <;> omega
          exact ⟨ops, op, earlier, record, List.prefix_rfl, before.record, found.record, unused,
            used, spent, attempts.trans spent⟩

/-! Claims of a step, counted against the attempts in its record. -/

/-- The number of attempts that a step of the run has made. -/
def RunRecord.tries (run : RunRecord) (id : StepId) : Nat :=
  (run.steps[id]?).elim 0 fun record => record.history.length

/-- The number of attempts that a step of a stored run has made. -/
def Repository.tries (s : Repository) (k : RunId) (id : StepId) : Nat :=
  (s.runs[k]?).elim 0 fun run => run.tries id

/-- The claim is of this step of this run. -/
def StepClaim.isFor (claim : StepClaim) (k : RunId) (id : StepId) : Bool :=
  claim.runId == k && claim.step.id == id

theorem RunRecord.tries_of_insert (run : RunRecord) {run' : RunRecord} {k : StepId}
    {record : StepRecord}
    (steps : run'.steps = run.steps.insert k record) (id : StepId) :
    run'.tries id = if k = id then record.history.length else run.tries id := by
  rw [tries, steps, BTreeMap.getElem?_insert]
  split <;> rfl

theorem RunRecord.tries_of_found {run : RunRecord} {id : StepId} {record : StepRecord}
    (found : run.steps[id]? = some record) : run.tries id = record.history.length := by
  rw [tries, found]
  rfl

/-- A step of a run makes an attempt for each claim that it hands out. -/
theorem RunStep.tries {token : UInt64} {action : RunAction} {run run' : RunRecord}
    (h : RunStep token action run run') (id : StepId) :
    run'.tries id = run.tries id + action.issued.countP fun claim => claim.step.id == id := by
  cases h with
  | @claim _ step taskId task dependencies worker seen now leaseMs =>
      rw [RunRecord.tries_of_insert run rfl, RunAction.issued, List.countP_singleton]
      by_cases same : step.id = id
      · subst same
        rw [RunRecord.claimed, RunRecord.entry, RunRecord.tries]
        cases run.steps[step.id]? <;> simp [StepRecord.claim, StepRecord.new, RunRecord.claimOf]
      · simp [same, RunRecord.claimOf]
  | renew claim now again leaseMs found =>
      change _ = _ + 0
      rw [RunRecord.tries_of_insert run rfl]
      split
      next same => rw [← same, RunRecord.tries_of_found found]; rfl
      · rfl
  | complete claim completion now retryNow finishNow sequence eventNow found =>
      change RunRecord.tries (run.commit _ _) id = _ + 0
      rw [RunRecord.tries_of_insert run (run.commit_steps _ _)]
      split
      next same =>
        rw [← same, RunRecord.tries_of_found found]
        exact RunRecord.Sound.history_length _ _
      · rfl
  | record => rfl
  | measure => rfl
  | settle => simp [RunRecord.tries, RunAction.issued]
  | finish => simp [RunRecord.tries, RunAction.issued]
  | cancel now sequence eventNow active =>
      change RunRecord.tries (run.cancelSteps now) id = _ + 0
      rw [RunRecord.tries, RunRecord.tries, RunRecord.cancelSteps_steps,
        Std.ExtTreeMap.getElem?_map]
      cases run.steps[id]? with
      | none => rfl
      | some record =>
          change (record.cancel (now id)).history.length = record.history.length
          unfold StepRecord.cancel
          split
          · rfl
          · exact RunRecord.Sound.history_length _ _
  | @recover _ step record recovered event now sequence eventNow listed found expired =>
      change RunRecord.tries (RunRecord.noteRecovery _ _) id = _ + 0
      rw [RunRecord.tries_of_insert run (RunRecord.noteRecovery_steps _ _)]
      split
      next same =>
        rw [← same, RunRecord.tries_of_found found]
        cases (recoverExpiredStep_eq_some expired).2 <;>
          exact RunRecord.Sound.history_length _ _
      · rfl

/-- The claims of a step are the attempts in its record. -/
def Tried (claims : List StepClaim) (s : Repository) : Prop :=
  ∀ (k : RunId) (id : StepId), claims.countP (fun claim => claim.isFor k id) = s.tries k id

theorem tried_kept : Kept (fun _ _ _ => True) Tried where
  free _ _ _ := trivial
  create {C s s'} request now sequence eventNow accepted creation tried := by
    intro k id
    rw [tried, Repository.tries, Repository.tries, creation.runs]
    split
    next own =>
      rw [← own, creation.fresh]
      simp [RunRecord.tries, RunRecord.created, RunRecord.new]
    · rfl
  move {C s k action run run' s'} keyed sound move _ tried := by
    intro k' id
    have handed : action.issued.countP (fun claim => claim.isFor k' id) =
        if k = k' then action.issued.countP (fun claim => claim.step.id == id) else 0 := by
      cases action with
      | claim claim =>
          have own := move.step.claim_fields.2.trans (move.own keyed)
          simp only [RunAction.issued, List.countP_singleton, StepClaim.isFor, own]
          by_cases same : k = k' <;> simp [same]
      | _ => exact (ite_self 0).symm
    rw [List.countP_append, tried, handed, Repository.tries, Repository.tries, move.runs]
    split
    next own =>
      rw [← own, move.found]
      exact (move.step.tries id).symm
    · rfl

theorem tried_after (ops : List Op) : Tried (issued ops) (repository.after ops) :=
  tried_kept.after (by intro k id; simp [Repository.tries, Repository.empty]) ops (guarded_true ops)

/-- A list whose entries with a property all have a listed key has at most as many
of them as the keys have together. -/
theorem countP_le_sum_keys {α κ : Type} [DecidableEq κ] (key : α → κ) (p : α → Bool)
    (keys : List κ) (entries : List α) (listed : ∀ a ∈ entries, p a = true → key a ∈ keys) :
    entries.countP p ≤ (keys.map fun k => entries.countP fun a => p a && key a == k).sum := by
  induction entries with
  | nil => simp
  | cons a entries ih =>
      have rest := ih fun b member => listed b (List.mem_cons_of_mem _ member)
      simp only [List.countP_cons, List.sum_map_add]
      by_cases counted : p a = true
      · have one : 1 ≤ (keys.map fun k => if (p a && key a == k) = true then 1 else 0).sum := by
          refine List.le_sum_of_mem (List.mem_map.mpr
            ⟨key a, listed a List.mem_cons_self counted, ?_⟩)
          rw [counted, Bool.true_and, beq_self_eq_true, if_pos rfl]
        rw [if_pos counted]
        omega
      · rw [if_neg counted]
        omega

/-- The events of a run are never taken from its log. -/
theorem log_extends {pre ops : List Op} (within : pre <+: ops) {k : RunId} {run run' : RunRecord}
    (found : (repository.after pre).runs[k]? = some run)
    (found' : (repository.after ops).runs[k]? = some run') : run.eventLog <+: run'.eventLog := by
  obtain ⟨later, rfl⟩ := within
  obtain ⟨last, foundLast, grown⟩ := related_later
    (R := fun run run' => run.eventLog <+: run'.eventLog) (A := fun _ _ => True)
    (fun _ => List.prefix_rfl) (fun h h' => h.trans h')
    (fun {token action run run'} change _ _ => by
      obtain same | ⟨envelope, appended, -⟩ := change.log_cases
      · exact same ▸ List.prefix_rfl
      · rw [appended]
        exact List.prefix_append _ _)
    (fun _ _ => trivial) pre later (guarded_true _) found
  obtain rfl := Option.some.inj (foundLast.symm.trans found')
  exact grown

/-- Every step of every run makes at most one attempt beyond its budget, and that
one for a fallback selected when the budget was spent; the fallback is selected
at most once and for good; and the claims of a run are at most as many as the
budgets of its steps allow. -/
def WithinBudget (ops : List Op) : Prop :=
  ∀ (k : RunId) (run : RunRecord), (repository.after ops).runs[k]? = some run →
    (∀ step ∈ run.workflow.steps, ∀ record, run.steps[step.id]? = some record →
      record.attempts.toNat ≤ step.policy.retry.budget.toNat + 1 ∧
      (record.attempts.toNat = step.policy.retry.budget.toNat + 1 →
        SelectedAt ops k step.id step.policy.retry.budget) ∧
      (∀ pre, pre <+: ops → ∀ earlier, (repository.after pre).record k step.id = some earlier →
        earlier.fallbackUsed = true → record.fallbackUsed = true) ∧
      (run.selections step.id).length ≤ 1) ∧
    (issued ops).countP (fun claim => claim.runId == k) ≤
      (run.workflow.steps.map fun step => step.policy.retry.budget.toNat + 1).sum

/-- Attempts stay within budget while fewer than 2 ^ 64 claims are handed out and
completed as issued. -/
theorem attempts_within_budget (ops : List Op) (genuine : Genuine ops)
    (few : (issued ops).length < 2 ^ 64) : WithinBudget ops := by
  intro k run found
  have few : (issued ops).length ≤ UInt64.maxNat := Nat.le_of_lt_succ few
  have sound := sound_after ops k run found
  have budgeted := (tracked_after genuine).budgeted few k run found
  have most : ∀ step ∈ run.workflow.steps, ∀ record, run.steps[step.id]? = some record →
      record.history.length ≤ step.policy.retry.budget.toNat + 1 := by
    intro step listed record foundStep
    obtain below | ⟨full, -⟩ := (budgeted.records step listed record foundStep).within <;> omega
  constructor
  · intro step listed record foundStep
    have counted := (sound.records _ _ foundStep).counted
    refine ⟨?_, ?_, ?_, ?_⟩
    · have := most step listed record foundStep
      omega
    · intro beyond
      exact selectedAt_of_over genuine few ⟨run, found, listed, foundStep⟩ (.inl (by omega))
    · intro pre within earlier before used
      obtain ⟨old, foundOld, foundEarlier⟩ := Repository.record_eq_some.mp before
      have tracked := tracked_after (genuine.of_within within)
      have fewer := Nat.le_trans (issued_extends within).length_le few
      have logged := (tracked.budgeted fewer _ _ foundOld).logged step.id
      rw [RunRecord.selected_of_found foundEarlier, StepRecord.selected, if_pos used] at logged
      have grown : old.selections step.id <+: run.selections step.id :=
        (log_extends within foundOld found).filterMap _
      rw [logged, budgeted.logged, RunRecord.selected_of_found foundStep] at grown
      cases unused : record.fallbackUsed with
      | true => rfl
      | false => simp [StepRecord.selected, unused] at grown
    · rw [budgeted.logged, RunRecord.selected_of_found foundStep, StepRecord.selected]
      split <;> simp
  · have listed : ∀ claim ∈ issued ops, (claim.runId == k) = true →
        claim.step.id ∈ run.workflow.stepIds := by
      intro claim member own
      obtain ⟨other, foundOther, listed, -⟩ := carried_after ops claim member
      rw [beq_iff_eq.mp own, found] at foundOther
      obtain rfl := Option.some.inj foundOther
      exact List.mem_map_of_mem listed
    refine Nat.le_trans (countP_le_sum_keys (fun claim => claim.step.id) _ _ _ listed) ?_
    rw [WorkflowSpec.stepIds, List.map_map]
    refine List.sum_le_sum fun step member => ?_
    have tried := tried_after ops k step.id
    simp only [StepClaim.isFor] at tried
    rw [Function.comp_apply, tried, Repository.tries, found]
    change run.tries step.id ≤ _
    cases foundStep : run.steps[step.id]? with
    | none => simp [RunRecord.tries, foundStep]
    | some record =>
        rw [RunRecord.tries_of_found foundStep]
        exact most step member record foundStep

/-- A step that may be tried once loses its lease, and its fallback is claimed. -/
def fallenBack : List Op :=
  [.createRun (Sample.request [Sample.step "only" 1 true] []) (.at 0), Sample.ask 0,
    .recoverExpired (.at 20), Sample.ask 20]

theorem attempts_within_budget_fallenBack :
    Genuine fallenBack ∧ (issued fallenBack).length < 2 ^ 64 ∧ WithinBudget fallenBack :=
  have genuine : Genuine fallenBack := .of_plain (by simp [fallenBack, Sample.ask])
  have few : (issued fallenBack).length < 2 ^ 64 := by decide +kernel
  ⟨genuine, few, attempts_within_budget fallenBack genuine few⟩

end Orchestrator
