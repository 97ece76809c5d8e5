import Orchestrator.Refinement.Renaming

/-!
# Runs that match

A run of one repository matches one of the other when they are the same up to sequences
and up to a renaming of the tokens. Matching runs offer the same steps and accept the same
events, and the same change makes matching runs of them.
-/

namespace Orchestrator

/-- The second record is the first under the renaming. -/
def StepRecord.Matches (ρ : UInt64 → UInt64) (record record' : StepRecord) : Prop :=
  record.renamed ρ = record'.renamed keep

/-- The second run is up to sequences the first under the renaming. -/
def RunRecord.Matches (ρ : UInt64 → UInt64) (run run' : RunRecord) : Prop :=
  run.renamed ρ (fun _ => 0) = run'.renamed keep fun _ => 0

namespace StepRecord.Matches

variable {ρ : UInt64 → UInt64} {record record' : StepRecord}

theorem tokens (h : record.Matches ρ record') : record'.tokens = record.tokens.map ρ := by
  have same := congrArg (fun record => record.history.map StepAttempt.leaseToken) h
  simpa [StepRecord.tokens, Function.comp_def, StepAttempt.renamed] using same.symm

/-- Both records hold a lease or none, and the leases match. -/
theorem lease (h : record.Matches ρ record') :
    record'.lease = record.lease.map (.renamed ρ) := by
  have same := congrArg StepRecord.lease h
  rw [renamed_lease, renamed_lease] at same
  rw [same]
  cases record'.lease <;> rfl

theorem id (h : record.Matches ρ record') : record'.id = record.id :=
  (congrArg StepRecord.id (show record.renamed ρ = record'.renamed keep from h)).symm

theorem task (h : record.Matches ρ record') : record'.task = record.task :=
  (congrArg StepRecord.task (show record.renamed ρ = record'.renamed keep from h)).symm

theorem attempts (h : record.Matches ρ record') : record'.attempts = record.attempts :=
  (congrArg StepRecord.attempts (show record.renamed ρ = record'.renamed keep from h)).symm

theorem fallbackUsed (h : record.Matches ρ record') : record'.fallbackUsed = record.fallbackUsed :=
  (congrArg StepRecord.fallbackUsed (show record.renamed ρ = record'.renamed keep from h)).symm

theorem complete (h : record.Matches ρ record') (completion : StepCompletion) (now : UInt64) :
    (record.complete completion now now).Matches ρ (record'.complete completion now now) := by
  unfold Matches at h ⊢
  rw [renamed_complete ρ record, renamed_complete keep record', h]

theorem cancel (h : record.Matches ρ record') (now : UInt64) :
    (record.cancel now).Matches ρ (record'.cancel now) := by
  unfold Matches at h ⊢
  rw [renamed_cancel ρ record, renamed_cancel keep record', h]

/-- A claim that clears the time of the next attempt, which a running step does not have. -/
theorem claim (h : record.Matches ρ record') (runId : RunId) (taskId : TaskId) (worker : WorkerId)
    (token now leaseMs : UInt64) :
    (record.claim runId taskId worker token now leaseMs).Matches ρ
      { record'.claim runId taskId worker (ρ token) now leaseMs with nextAttemptAtMs := none } := by
  have cleared : ({ record'.claim runId taskId worker (ρ token) now leaseMs with
      nextAttemptAtMs := none } : StepRecord).renamed keep =
        (record'.claim runId taskId worker (ρ token) now leaseMs).renamed keep := by
    simp [StepRecord.claim, StepRecord.renamed, StepStatus.waits]
  unfold Matches at h ⊢
  rw [cleared, renamed_claim ρ record, renamed_claim keep record', h]

theorem released (h : record.Matches ρ record') (now : UInt64) (status : StepStatus)
    (task : TaskId) (fallbackUsed : Bool) :
    (record.released now status task fallbackUsed).Matches ρ
      (record'.released now status task fallbackUsed) := by
  unfold Matches at h ⊢
  rw [renamed_released ρ record, renamed_released keep record', h]

/-- A renewal keeps the token. -/
theorem renew (h : record.Matches ρ record') (lease : StepLease) (expiresAtMs : UInt64) :
    ({ record with lease := some { lease with expiresAtMs } } : StepRecord).Matches ρ
      { record' with lease := some { lease.renamed ρ with expiresAtMs } } := by
  have same : ∀ ρ (record : StepRecord) (lease : StepLease),
      ({ record with lease := some lease } : StepRecord).renamed ρ =
        { record.renamed ρ with lease := some (lease.renamed ρ) } := fun _ _ _ => rfl
  unfold Matches at h ⊢
  rw [same, same, h]
  rfl

end StepRecord.Matches

/-- A record that matches an expired one is recovered to a match. -/
theorem Recovers.matches {ρ : UInt64 → UInt64} {runId : RunId} {step : StepSpec}
    {record record' recovered : StepRecord} {now : UInt64} {event : ExecutionEvent}
    (h : Recovers runId step record now recovered event) (same : record.Matches ρ record') :
    ∃ recovered', Recovers runId step record' now recovered' event ∧
      recovered.Matches ρ recovered' := by
  cases h with
  | retrying below =>
      rw [← same.attempts] at below
      rw [← same.id, ← same.attempts, ← same.task, ← same.fallbackUsed]
      exact ⟨_, .retrying below, same.released _ _ _ _⟩
  | fallback spent unused selected =>
      rw [← same.attempts] at spent
      rw [← same.fallbackUsed] at unused
      rw [← same.id]
      exact ⟨_, .fallback spent unused selected, same.released _ _ _ _⟩
  | failed spent final =>
      rw [← same.attempts] at spent
      rw [← same.fallbackUsed] at final
      rw [← same.id, ← same.attempts, ← same.task, ← same.fallbackUsed]
      exact ⟨_, .failed spent final, same.released _ _ _ _⟩

/-- What recovery may do to an expired record, it does. -/
theorem Recovers.eq_some {runId : RunId} {step : StepSpec} {record recovered : StepRecord}
    {lease : StepLease} {now : UInt64} {event : ExecutionEvent}
    (h : Recovers runId step record now recovered event) (leased : record.lease = some lease)
    (past : ¬ now < lease.expiresAtMs) :
    recoverExpiredStep runId step record now = some (recovered, event) := by
  rw [recoverExpiredStep, leased]
  cases h with
  | retrying below => simp [past, below, StepRecord.released]
  | fallback spent unused selected => simp [past, spent, unused, selected, StepRecord.released]
  | failed spent final =>
      obtain used | none := final
      · simp [past, spent, used, StepRecord.released]
      · simp [past, spent, none, StepRecord.released]

/-- Matching records are recovered alike. -/
theorem StepRecord.Matches.recover {ρ : UInt64 → UInt64} {record record' : StepRecord}
    (h : record.Matches ρ record') (runId : RunId) (step : StepSpec) (now : UInt64) :
    recoverExpiredStep runId step record now = none ∧
        recoverExpiredStep runId step record' now = none ∨
      ∃ recovered recovered' event,
        recoverExpiredStep runId step record now = some (recovered, event) ∧
        recoverExpiredStep runId step record' now = some (recovered', event) ∧
        recovered.Matches ρ recovered' := by
  cases leased : record.lease with
  | none =>
      have leased' : record'.lease = none := by rw [h.lease, leased]; rfl
      exact .inl ⟨recoverExpiredStep_eq_none leased, recoverExpiredStep_eq_none leased'⟩
  | some lease =>
      have leased' : record'.lease = some (lease.renamed ρ) := by rw [h.lease, leased]; rfl
      by_cases lasts : now < lease.expiresAtMs
      · have lasts' : now < (lease.renamed ρ).expiresAtMs := lasts
        refine .inl ⟨?_, ?_⟩
        · simp only [recoverExpiredStep, leased, lasts, if_true]
        · simp only [recoverExpiredStep, leased', lasts', if_true]
      · obtain ⟨⟨recovered, event⟩, expired⟩ : ∃ result,
            recoverExpiredStep runId step record now = some result := by
          simp only [recoverExpiredStep, leased, lasts, if_false]
          exact ⟨_, rfl⟩
        obtain ⟨recovered', recovers, same⟩ := (recoverExpiredStep_eq_some expired).2.matches h
        exact .inr ⟨recovered, recovered', event, expired, recovers.eq_some leased' lasts, same⟩

namespace RunRecord.Matches

variable {ρ : UInt64 → UInt64} {run run' : RunRecord}

theorem runId (h : run.Matches ρ run') : run'.runId = run.runId :=
  (congrArg RunRecord.runId (show run.renamed ρ _ = run'.renamed keep _ from h)).symm

theorem workflow (h : run.Matches ρ run') : run'.workflow = run.workflow :=
  (congrArg RunRecord.workflow (show run.renamed ρ _ = run'.renamed keep _ from h)).symm

theorem manifest (h : run.Matches ρ run') : run'.manifest = run.manifest :=
  (congrArg RunRecord.manifest (show run.renamed ρ _ = run'.renamed keep _ from h)).symm

theorem input (h : run.Matches ρ run') : run'.input = run.input :=
  (congrArg RunRecord.input (show run.renamed ρ _ = run'.renamed keep _ from h)).symm

theorem status (h : run.Matches ρ run') : run'.status = run.status :=
  (congrArg RunRecord.status (show run.renamed ρ _ = run'.renamed keep _ from h)).symm

theorem error (h : run.Matches ρ run') : run'.error = run.error :=
  (congrArg RunRecord.error (show run.renamed ρ _ = run'.renamed keep _ from h)).symm

theorem idempotencyKey (h : run.Matches ρ run') : run'.idempotencyKey = run.idempotencyKey :=
  (congrArg RunRecord.idempotencyKey (show run.renamed ρ _ = run'.renamed keep _ from h)).symm

/-- Neither run has a record of the step, or both have and the records match. -/
theorem record_cases (h : run.Matches ρ run') (id : StepId) :
    run.steps[id]? = none ∧ run'.steps[id]? = none ∨
      ∃ record record', run.steps[id]? = some record ∧ run'.steps[id]? = some record' ∧
        record.Matches ρ record' := by
  have same := congrArg (fun run : RunRecord => run.steps[id]?) h
  simp only [renamed_steps] at same
  cases found : run.steps[id]? with
  | none =>
      rw [found] at same
      exact .inl ⟨rfl, Option.map_eq_none_iff.mp same.symm⟩
  | some record =>
      rw [found] at same
      obtain ⟨record', found', equal⟩ := Option.map_eq_some_iff.mp same.symm
      exact .inr ⟨record, record', rfl, found', equal.symm⟩

theorem tokens (h : run.Matches ρ run') (id : StepId) :
    run'.tokens id = (run.tokens id).map ρ := by
  obtain ⟨none, none'⟩ | ⟨record, record', found, found', same⟩ := h.record_cases id
  · rw [RunRecord.tokens, RunRecord.tokens, none, none']
    rfl
  · rw [RunRecord.tokens_of_found found, RunRecord.tokens_of_found found', same.tokens]

theorem hasFailed (h : run.Matches ρ run') : run'.hasFailed = run.hasFailed := by
  rw [← renamed_hasFailed ρ (fun _ => 0) run, h, renamed_hasFailed]

theorem allSucceeded (h : run.Matches ρ run') : run'.allSucceeded = run.allSucceeded := by
  rw [← renamed_allSucceeded ρ (fun _ => 0) run, h, renamed_allSucceeded]

theorem settled (h : run.Matches ρ run') : run'.settled = run.settled := by
  rw [RunRecord.settled, RunRecord.settled, h.hasFailed, h.allSucceeded]

theorem claimCandidate (h : run.Matches ρ run') :
    Orchestrator.claimCandidate run' = Orchestrator.claimCandidate run := by
  funext worker now step
  rw [← renamed_claimCandidate ρ (fun _ => 0) run, h, renamed_claimCandidate]

theorem eventIsValid (h : run.Matches ρ run') (event : ExecutionEvent) :
    eventIsValidForRecord run' event = eventIsValidForRecord run event := by
  rw [← renamed_eventIsValidForRecord ρ (fun _ => 0) run, h, renamed_eventIsValidForRecord]

theorem entry (h : run.Matches ρ run') (id : StepId) (taskId : TaskId) :
    (run.entry id taskId).Matches ρ (run'.entry id taskId) := by
  have same := congrArg (fun run => RunRecord.entry run id taskId) h
  simp only [renamed_entry] at same
  exact same

theorem setStep (h : run.Matches ρ run') (id : StepId) {record record' : StepRecord}
    (same : record.Matches ρ record') :
    (run.setStep id record).Matches ρ (run'.setStep id record') := by
  unfold Matches StepRecord.Matches at *
  rw [renamed_setStep, renamed_setStep, h, same]

theorem logged (h : run.Matches ρ run') (event : ExecutionEvent)
    (sequence sequence' now : UInt64) :
    (run.logged event sequence now).Matches ρ (run'.logged event sequence' now) := by
  unfold Matches at *
  rw [renamed_logged ρ _ run, renamed_logged keep _ run', h]

theorem noteFailure (h : run.Matches ρ run') {record record' : StepRecord}
    (same : record.Matches ρ record') :
    (run.noteFailure record).Matches ρ (run'.noteFailure record') := by
  unfold Matches StepRecord.Matches at *
  rw [renamed_noteFailure, renamed_noteFailure, h, same]

theorem noteRecovery (h : run.Matches ρ run') {record record' : StepRecord}
    (same : record.Matches ρ record') :
    (run.noteRecovery record).Matches ρ (run'.noteRecovery record') := by
  unfold Matches StepRecord.Matches at *
  rw [renamed_noteRecovery, renamed_noteRecovery, h, same]

theorem cancelSteps (h : run.Matches ρ run') (now : StepId → UInt64) :
    (run.cancelSteps now).Matches ρ (run'.cancelSteps now) := by
  unfold Matches at *
  rw [renamed_cancelSteps ρ _ run, renamed_cancelSteps keep _ run', h]

theorem settle (h : run.Matches ρ run') (metrics : List Metric) :
    (run.setMetrics metrics).settle.Matches ρ (run'.setMetrics metrics).settle := by
  unfold Matches at *
  rw [renamed_settle ρ _ run, renamed_settle keep _ run', h]

/-- Revisions and metrics are not matched. -/
theorem bump_left (h : run.Matches ρ run') : run.bump.Matches ρ run' := h

theorem bump_right (h : run.Matches ρ run') : run.Matches ρ run'.bump := h

theorem commit (h : run.Matches ρ run') (id : StepId) {record record' : StepRecord}
    (same : record.Matches ρ record') : (run.commit id record).Matches ρ (run'.commit id record') :=
  (h.setStep id same).bump_left.bump_right.noteFailure same

theorem setMetrics (h : run.Matches ρ run') (metrics metrics' : List Metric) :
    (run.setMetrics metrics).Matches ρ (run'.setMetrics metrics') := h

end RunRecord.Matches

end Orchestrator
