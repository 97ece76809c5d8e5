import Orchestrator.Model.Validation
import Orchestrator.Repository.Progress
import Orchestrator.Repository.Recorded

/-!
# Runs whose steps have come to their ends

A step of an active run comes to its end by a completion, or by a sweep that gives it up.
The run itself is ended by `finish_run` only. So an active run whose steps are settled is
one for which no finish request came after the last call that ended one of its steps.
-/

namespace Orchestrator

/-- The step succeeded or failed. -/
def StepStatus.final : StepStatus → Bool
  | .succeeded => true
  | .failed => true
  | _ => false

/-- The step is leased, its attempts are spent, and it has no fallback left. -/
def RunRecord.GivesUp (run : RunRecord) (id : StepId) : Prop :=
  ∃ step record, step ∈ run.workflow.steps ∧ step.id = id ∧ run.steps[id]? = some record ∧
    record.lease.isSome = true ∧ ¬ record.attempts < step.policy.retry.budget ∧
    (record.fallbackUsed = true ∨ step.policy.fallbackTask = none)

/-- The change ends the step. -/
def RunAction.Ends (run : RunRecord) (id : StepId) : RunAction → Prop
  | .complete held completion => held.step.id = id ∧ completion.status.final = true
  | .recover other => other = id ∧ run.GivesUp id
  | _ => False

section Step

variable {token : UInt64} {action : RunAction} {run run' : RunRecord}

/-- A step that has ended in an active run had ended before, or ends by this change. -/
theorem RunStep.final_cases (h : RunStep token action run run') (active : run'.status = .running)
    {id : StepId} {record' : StepRecord} (found : run'.steps[id]? = some record')
    (final : record'.status.final = true) :
    (∃ record, run.steps[id]? = some record ∧ record.status = record'.status) ∨
      action.Ends run id := by
  obtain old | changed := h.record_cases found
  · exact .inl ⟨record', old, rfl⟩
  · cases changed with
    | claim => cases final
    | renew claim now again leaseMs before => exact .inl ⟨_, before, rfl⟩
    | complete claim completion => exact .inr ⟨rfl, final⟩
    | cancel =>
        cases h.statusStep with
        | kept status =>
            cases h with
            | cancel =>
                rw [RunRecord.logged_status, RunRecord.cancelSteps_status] at active
                cases active
        | cancelled _ status =>
            rw [status] at active
            cases active
    | recover now listed before expired =>
        obtain ⟨⟨lease, leased, -⟩, recovers⟩ := recoverExpiredStep_eq_some expired
        cases recovers with
        | retrying => cases final
        | fallback => cases final
        | failed spent last =>
            exact .inr ⟨rfl, _, _, listed, rfl, before, by rw [leased]; rfl, spent, last⟩

theorem StepRecord.Sound.not_final {workflow : WorkflowSpec} {manifest : RunManifest} {id : StepId}
    {record : StepRecord} {lease : StepLease} (sound : record.Sound workflow manifest id)
    (leased : record.lease = some lease) : ¬ record.status.final = true := by
  have running := sound.leased.mp (by rw [leased]; rfl)
  rw [running]
  exact Bool.false_ne_true

/-- A step that has ended keeps its record. -/
theorem RunStep.final_kept (h : RunStep token action run run') (sound : run.Sound)
    {id : StepId} {record : StepRecord} (found : run.steps[id]? = some record)
    (final : record.status.final = true) : run'.steps[id]? = some record := by
  have apart : ∀ {k : StepId} {old new : StepRecord}, run.steps[k]? = some old →
      ¬ old.status.final = true → (run.steps.insert k new)[id]? = some record := by
    intro k old new before unfinished
    rw [BTreeMap.getElem?_insert]
    split
    next same =>
      subst same
      obtain rfl := Option.some.inj (before.symm.trans found)
      exact absurd final unfinished
    · exact found
  cases h with
  | @claim _ step taskId task dependencies worker seen now leaseMs running listed candidate known =>
      cases before : run.steps[step.id]? with
      | some old =>
          refine apart before fun ended => ?_
          obtain ⟨-, pending | retrying⟩ := Repository.waits_of_candidate candidate before
          · rw [pending] at ended
            cases ended
          · rw [retrying] at ended
            cases ended
      | none =>
          rw [RunRecord.bump_steps, RunRecord.setStep_steps, BTreeMap.getElem?_insert]
          split
          next same =>
            rw [same, found] at before
            cases before
          · exact found
  | renew claim now again leaseMs before leased =>
      exact apart before ((sound.records _ _ before).not_final leased)
  | complete claim completion now retryNow finishNow sequence eventNow before leased =>
      rw [RunRecord.logged_steps, RunRecord.commit_steps]
      exact apart before ((sound.records _ _ before).not_final leased)
  | record => exact found
  | measure => exact found
  | settle => simpa using found
  | finish => simpa using found
  | cancel now sequence eventNow active =>
      have kept : record.cancel (now id) = record := by
        rw [StepRecord.cancel, if_pos]
        cases status : record.status with
        | succeeded | failed => rfl
        | _ => rw [status] at final; cases final
      rw [RunRecord.logged_steps, RunRecord.cancelSteps_steps, Std.ExtTreeMap.getElem?_map, found,
        Option.map_some, kept]
  | recover now sequence eventNow listed before expired =>
      obtain ⟨⟨lease, leased, -⟩, -⟩ := recoverExpiredStep_eq_some expired
      rw [RunRecord.logged_steps, RunRecord.noteRecovery_steps]
      exact apart before ((sound.records _ _ before).not_final leased)

/-- All steps have succeeded exactly when each step of the workflow has. -/
theorem RunRecord.allSucceeded_iff_done (sound : run.Sound) :
    run.allSucceeded = true ↔ ∀ step ∈ run.workflow.steps, run.Done step.id := by
  obtain ⟨order, ordered⟩ := WorkflowSpec.ordered_of_validate sound.accepted.valid
  have distinct : run.workflow.stepIds.Nodup := ordered.perm.nodup_iff.mp ordered.nodup
  have size : run.steps.size = run.steps.keys.length := Std.ExtTreeMap.length_keys.symm
  have listed : run.steps.keys ⊆ run.workflow.stepIds := by
    intro id member
    obtain ⟨record, found⟩ := BTreeMap.mem_keys_iff.mp member
    obtain ⟨step, inside, rfl⟩ := (sound.records id record found).listed
    exact List.mem_map_of_mem inside
  have known := List.subperm_of_subset Std.ExtTreeMap.nodup_keys listed
  have steps : run.workflow.stepIds.length = run.workflow.steps.length := List.length_map _
  rw [allSucceeded_iff]
  constructor
  · rintro ⟨same, succeeded⟩ step member
    have all : run.steps.keys.Perm run.workflow.stepIds :=
      known.perm_of_length_le (by omega)
    obtain ⟨record, found⟩ := BTreeMap.mem_keys_iff.mp
      (all.mem_iff.mpr (List.mem_map_of_mem member))
    exact ⟨record, found, succeeded _ record found⟩
  · intro done
    have recorded : run.workflow.stepIds ⊆ run.steps.keys := by
      intro id member
      obtain ⟨step, inside, rfl⟩ := List.mem_map.mp member
      obtain ⟨record, found, -⟩ := done step inside
      exact BTreeMap.mem_keys_iff.mpr ⟨record, found⟩
    have most := known.length_le
    have least := (List.subperm_of_subset distinct recorded).length_le
    refine ⟨by omega, fun id record found => ?_⟩
    obtain ⟨step, inside, rfl⟩ := (sound.records id record found).listed
    obtain ⟨other, foundOther, succeeded⟩ := done step inside
    obtain rfl := Option.some.inj (found.symm.trans foundOther)
    exact succeeded

/-- An active run that is settled was settled before, or a step of it ends. -/
theorem RunStep.settled_cases (h : RunStep token action run run') (sound : run.Sound)
    (active : run'.status = .running) (settled : run'.settled = true) :
    run.settled = true ∨ ∃ id, action.Ends run id := by
  by_cases ends : ∃ id, action.Ends run id
  · exact .inr ends
  · left
    have kept : ∀ {id : StepId} {record' : StepRecord}, run'.steps[id]? = some record' →
        record'.status.final = true →
        ∃ record, run.steps[id]? = some record ∧ record.status = record'.status :=
      fun found final => (h.final_cases active found final).resolve_right fun own => ends ⟨_, own⟩
    rw [RunRecord.settled, Bool.or_eq_true] at settled ⊢
    obtain failed | succeeded := settled
    · left
      obtain ⟨id, record', found, status⟩ := RunRecord.hasFailed_iff.mp failed
      obtain ⟨record, before, same⟩ := kept found (by rw [status]; rfl)
      exact RunRecord.hasFailed_iff.mpr ⟨id, record, before, same.trans status⟩
    · right
      refine (RunRecord.allSucceeded_iff_done sound).mpr fun step member => ?_
      obtain ⟨record', found, status⟩ := (RunRecord.allSucceeded_iff_done (sound.step h)).mp
        succeeded
        step (h.sameRequest.workflow ▸ member)
      obtain ⟨record, before, same⟩ := kept found (by rw [status]; rfl)
      exact ⟨record, before, same.trans status⟩

end Step

namespace Repository

variable {s s' : Repository} {k : RunId} {run' : RunRecord}

/-- The call ends a step of the run, which is active: a completion is committed that ends
it, or a sweep gives it up. -/
def Ends (s : Repository) (k : RunId) (op : Op) : Prop :=
  ∃ run, s.runs[k]? = some run ∧ run.status = .running ∧
    match op with
    | .completeStep claim completion clock =>
        claim.runId = k ∧ completion.status.final = true ∧ ∃ record lease,
          run.steps[claim.step.id]? = some record ∧ record.lease = some lease ∧
            lease.validFor claim (clock.call 0) = true ∧
            completionMatchesClaim completion claim run.manifest = true
    | .recoverExpired clock => ∃ id, s.Expired k id (clock.call 0) ∧ run.GivesUp id
    | _ => False

/-- An active and settled run is stored under the id. -/
def Unfinished (s : Repository) (k : RunId) : Prop :=
  ∃ run, s.runs[k]? = some run ∧ run.status = .running ∧ run.settled = true

/-- After a change that ends no step of the run it is unfinished only if it was before. -/
theorem Moves.unfinished {other : RunId} {action : RunAction} {run run' : RunRecord}
    (move : s.Moves other action run run' s') (sound : s.Every RunRecord.Sound)
    (quiet : other = k → run.status = .running → ∀ id, ¬ action.Ends run id)
    (unfinished : s'.Unfinished k) : s.Unfinished k := by
  obtain ⟨after, found, active, settled⟩ := unfinished
  rw [move.runs] at found
  split at found
  next own =>
    subst own
    obtain rfl := Option.some.inj found
    have before := (RunRecord.Phased.active_before move.step active).1
    obtain old | ⟨id, ends⟩ := move.step.settled_cases (sound _ _ move.found) active settled
    · exact ⟨run, move.found, before, old⟩
    · exact absurd ends (quiet rfl before id)
  · exact ⟨after, found, active, settled⟩

theorem Recovery.unfinished {listed : List (RunId × StepId)} (recovery : s.Recovery listed s')
    (sound : s.Every RunRecord.Sound)
    (quiet : ∀ id, (k, id) ∈ listed → ∀ run, s.runs[k]? = some run → run.status = .running →
      ¬ run.GivesUp id)
    (unfinished : s'.Unfinished k) : s.Unfinished k := by
  induction recovery with
  | done => exact unfinished
  | @next s s₁ s' other id run run₁ listed move rest ih =>
      refine move.unfinished sound ?_ (ih (move.lift (.step move.step) sound) ?_ unfinished)
      · rintro rfl active _ ⟨rfl, gives⟩
        exact quiet id List.mem_cons_self run move.found active gives
      · -- the record of a leased step is the one that it had
        rintro later member after found active ⟨step, record, inside, rfl, foundStep, leased, spent⟩
        obtain ⟨lease, held⟩ := Option.isSome_iff_exists.mp leased
        obtain ⟨-, before, foundBefore, same, status, old⟩ :=
          move.leased_before found foundStep held
        exact quiet step.id (List.mem_cons_of_mem _ member) before foundBefore
          (status.trans active) ⟨step, record, same.workflow ▸ inside, rfl, old, leased, spent⟩

/-- A run that a call leaves unfinished was unfinished before, or the call ends a step of it. -/
theorem unfinished_cases (keyed : s.Keyed) (sound : s.Every RunRecord.Sound) (op : Op)
    (unfinished : (repository.next s op).Unfinished k) : s.Unfinished k ∨ s.Ends k op := by
  by_cases ends : s.Ends k op
  · exact .inr ends
  · left
    have effect := step_effect keyed op
    generalize answered : repository.answer s op = response at effect
    generalize moved : repository.next s op = s' at effect unfinished
    cases effect with
    | unchanged => exact unfinished
    | @create request clock now sequence eventNow _ accepted creation =>
        obtain ⟨run, found, active, settled⟩ := unfinished
        rw [creation.runs] at found
        split at found
        · -- a new run has a step without a record
          obtain rfl := Option.some.inj found
          have sound : (RunRecord.created request now sequence eventNow).Sound :=
            .created now sequence eventNow accepted
          rw [RunRecord.settled, Bool.or_eq_true, RunRecord.hasFailed_iff,
            RunRecord.allSucceeded_iff_done sound] at settled
          have empty : ∀ id : StepId,
              (RunRecord.created request now sequence eventNow).steps[id]? = none := by
            intro id
            simp [RunRecord.created, RunRecord.new]
          obtain ⟨id, record, recorded, -⟩ | done := settled
          · rw [empty] at recorded
            cases recorded
          · obtain ⟨step, listed⟩ := List.exists_mem_of_ne_nil _
              (WorkflowSpec.nonempty_of_validate sound.accepted.valid)
            obtain ⟨record, recorded, -⟩ := done step listed
            rw [empty] at recorded
            cases recorded
        · exact ⟨run, found, active, settled⟩
    | claim move => exact move.unfinished sound (fun _ _ _ => id) unfinished
    | renew move => exact move.unfinished sound (fun _ _ _ => id) unfinished
    | @complete claim completion clock run run' _ move =>
        refine move.unfinished sound ?_ unfinished
        rintro rfl active id ⟨-, final⟩
        obtain ⟨other, record, lease, found, committed⟩ :=
          completeStep_ok (Response.completed.inj answered)
        obtain rfl := Option.some.inj (move.found.symm.trans found)
        exact ends ⟨run, found, active, rfl, final, record, lease, committed⟩
    | record move => exact move.unfinished sound (fun _ _ _ => id) unfinished
    | finish move => exact move.unfinished sound (fun _ _ _ => id) unfinished
    | cancel move => exact move.unfinished sound (fun _ _ _ => id) unfinished
    | @recover clock =>
        obtain ⟨listed, s'', result, recovery, all⟩ := recoverExpired_listed keyed sound clock
        obtain rfl : s'' = s' := (congrArg Prod.snd result).symm.trans moved
        refine recovery.unfinished sound (fun id member run found active gives => ?_) unfinished
        exact ends ⟨run, found, active, id, (all k id).mp member, gives⟩

/-- A finish request ends an unfinished run. -/
theorem finish_ends (keyed : s.Keyed) (metrics : List Metric) (clock : Clock)
    (unfinished : s.Unfinished k) :
    ¬ (repository.next s (.finishRun k metrics clock)).Unfinished k := by
  obtain ⟨run, found, active, settled⟩ := unfinished
  rintro ⟨after, found', active', -⟩
  obtain ⟨run', s', finished, move⟩ := finishRun_of_some s keyed metrics clock found
  have moved : repository.next s (.finishRun k metrics clock) = s' := congrArg Prod.snd finished
  rw [moved, move.runs, if_pos rfl] at found'
  obtain rfl := Option.some.inj found'
  have ended := RunRecord.verdict_isTerminal (run.setMetrics metrics)
  rw [← move.step.finish_status settled, active'] at ended
  cases ended

/-- An active run is stored under the id. -/
def Active (s : Repository) (k : RunId) : Prop :=
  ∃ run, s.runs[k]? = some run ∧ run.status = .running

theorem Moves.active {other : RunId} {action : RunAction} {run run' : RunRecord}
    (move : s.Moves other action run run' s')
    (unfinished : other = k → ∀ metrics, action ≠ .finish metrics)
    (uncancelled : other = k → action ≠ .cancel) (active : s.Active k) : s'.Active k := by
  obtain ⟨before, found, running⟩ := active
  by_cases own : other = k
  · subst own
    obtain rfl := Option.some.inj (move.found.symm.trans found)
    refine ⟨run', (move.runs other).trans (if_pos rfl), ?_⟩
    cases move.step.statusStep with
    | kept same => exact same.trans running
    | recorded _ _ same => exact same.trans running
    | finished metrics => exact absurd rfl (unfinished rfl metrics)
    | cancelled => exact absurd rfl (uncancelled rfl)
  · exact ⟨before, (move.runs k).trans ((if_neg own).trans found), running⟩

/-- Only finish and cancel requests for a run end it. -/
theorem active_next (keyed : s.Keyed) {op : Op}
    (unfinished : ∀ metrics clock, op ≠ .finishRun k metrics clock)
    (uncancelled : ∀ clock, op ≠ .cancelRun k clock) (active : s.Active k) :
    (repository.next s op).Active k := by
  have effect := step_effect keyed op
  generalize repository.answer s op = response at effect
  generalize repository.next s op = s' at effect ⊢
  cases effect with
  | unchanged => exact active
  | create _ creation =>
      obtain ⟨run, found, running⟩ := active
      exact ⟨run, (creation.kept found).trans found, running⟩
  | claim move => exact move.active (fun _ _ => nofun) (fun _ => nofun) active
  | renew move => exact move.active (fun _ _ => nofun) (fun _ => nofun) active
  | complete move => exact move.active (fun _ _ => nofun) (fun _ => nofun) active
  | record move => exact move.active (fun _ _ => nofun) (fun _ => nofun) active
  | @finish other metrics clock _ _ _ move =>
      exact move.active (fun own => absurd (by rw [own]) (unfinished metrics clock))
        (fun _ => nofun) active
  | @cancel other clock _ _ _ move =>
      exact move.active (fun _ _ => nofun)
        (fun own => absurd (by rw [own]) (uncancelled clock)) active
  | recover recovery =>
      exact recovery.preserves (fun move => move.active (fun _ _ => nofun) fun _ => nofun) active

end Repository

/-- No finish request for the run comes after some call that ended a step of it. -/
def Unreported (ops : List Op) (k : RunId) : Prop :=
  ∃ before op later, ops = before ++ op :: later ∧ (repository.after before).Ends k op ∧
    ∀ metrics clock, Op.finishRun k metrics clock ∉ later

theorem Unreported.concat {ops : List Op} {k : RunId} (h : Unreported ops k) {op : Op}
    (unfinished : ∀ metrics clock, op ≠ .finishRun k metrics clock) :
    Unreported (ops ++ [op]) k := by
  obtain ⟨before, first, later, rfl, ends, silent⟩ := h
  refine ⟨before, first, later ++ [op], by simp, ends, fun metrics clock member => ?_⟩
  obtain old | new := List.mem_append.mp member
  · exact silent metrics clock old
  · exact unfinished metrics clock (List.mem_singleton.mp new).symm

/-- An unfinished run is an unreported one. -/
theorem unreported_of_unfinished (ops : List Op) {k : RunId}
    (unfinished : (repository.after ops).Unfinished k) : Unreported ops k := by
  induction ops using Machine.history_induction with
  | nil =>
      obtain ⟨run, found, -⟩ := unfinished
      simp [repository, Repository.empty] at found
  | concat ops op ih =>
      rw [Machine.after_concat] at unfinished
      have keyed := Repository.keyed_after ops
      obtain old | ends := Repository.unfinished_cases keyed (sound_after ops) op unfinished
      · refine (ih old).concat ?_
        rintro metrics clock rfl
        exact Repository.finish_ends keyed metrics clock old unfinished
      · exact ⟨ops, op, [], rfl, ends, fun _ _ => List.not_mem_nil⟩

/-- Without cancellations an unreported run stays active. -/
theorem Unreported.active {ops : List Op} {k : RunId} (h : Unreported ops k)
    (uncancelled : ∀ clock, Op.cancelRun k clock ∉ ops) : (repository.after ops).Active k := by
  obtain ⟨before, op, later, rfl, ends, silent⟩ := h
  have first : (repository.after (before ++ [op])).Active k := by
    obtain ⟨run, found, running, ended⟩ := ends
    rw [Machine.after_concat]
    refine Repository.active_next (Repository.keyed_after before) ?_ ?_ ⟨run, found, running⟩
    · rintro metrics clock rfl
      exact ended
    · rintro clock rfl
      exact ended
  have split : before ++ op :: later = before ++ [op] ++ later := by simp
  rw [split] at uncancelled ⊢
  clear ends split
  induction later using List.reverseRecOn with
  | nil => rwa [List.append_nil]
  | append_singleton later last ih =>
      rw [← List.append_assoc, Machine.after_concat]
      refine Repository.active_next (Repository.keyed_after _) ?_ ?_
        (ih (fun clock member => uncancelled clock ?_)
          fun metrics clock member => silent metrics clock (List.mem_append_left _ member))
      · rintro metrics clock rfl
        exact silent metrics clock (List.mem_append_right _ (List.mem_singleton_self _))
      · rintro clock rfl
        exact uncancelled clock
          (List.mem_append_right _ (List.mem_append_right _ (List.mem_singleton_self _)))
      · rw [← List.append_assoc]
        exact List.mem_append_left _ member

end Orchestrator
