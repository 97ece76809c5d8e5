import Orchestrator.Repository.Invariant

/-!
# Sound runs

`Accepted` is what the checks on a request guarantee of its workflow and
manifest, `StepRecord.Sound` what every stored step record satisfies. Both are
kept by every step of a run, whatever claims the callers present.
-/

namespace Orchestrator

open Json (Value)

/-- What acceptance of a request guarantees. -/
structure Accepted (workflow : WorkflowSpec) (manifest : RunManifest) : Prop where
  valid : workflow.validate = some (.ok ())
  schema : manifest.schemaVersion = schemaVersion
  keyed : ∀ (id : TaskId) (task : TaskSpec), manifest.tasks[id]? = some task → task.id = id
  tasks : ∀ step ∈ workflow.steps, ∃ task, manifest.tasks[step.task]? = some task
  fallbacks : ∀ step ∈ workflow.steps, ∀ id, step.policy.fallbackTask = some id →
    ∃ task, manifest.tasks[id]? = some task

theorem accepted_of_validate {request : RunRequest}
    (h : validateRunRequest request = some (.ok ())) :
    Accepted request.workflow request.manifest := by
  unfold validateRunRequest at h
  split at h
  · cases h
  · simp at h
  next valid =>
    split at h
    · simp at h
    next schema =>
      split at h
      · simp at h
      next identity =>
        split at h
        · simp at h
        next keyed =>
          split at h
          · simp at h
          next complete =>
            rw [List.find?_eq_none] at keyed complete
            simp only [Bool.or_eq_true, Bool.not_eq_true', not_or, Bool.not_eq_false,
              BTreeMap.contains_iff, Option.any_eq_true, not_exists, not_and] at complete
            refine ⟨valid, not_not.mp schema, ?_, ?_, ?_⟩
            · intro id task known
              have own : id = task.id := by
                simpa using keyed (id, task)
                  (Std.ExtTreeMap.mem_toList_iff_getElem?_eq_some.mpr known)
              exact own.symm
            · exact fun step member => (complete step member).1
            · intro step member id selected
              exact (complete step member).2 id selected

/-- A stored step record: it belongs to a step of the workflow, names a task of
the manifest, holds a lease exactly while it runs, has an output once it
succeeded, and counts the attempts in its history as far as a word can. -/
structure StepRecord.Sound (workflow : WorkflowSpec) (manifest : RunManifest) (id : StepId)
    (record : StepRecord) : Prop where
  named : record.id = id
  listed : ∃ step ∈ workflow.steps, step.id = id
  known : ∃ task, manifest.tasks[record.task]? = some task
  leased : record.lease.isSome = true ↔ record.status = .running
  output : record.status = .succeeded → ∃ output, record.output = some output
  started : record.status ≠ .pending ∧ record.status ≠ .claimed
  expires : ∀ lease, record.lease = some lease → 0 < lease.expiresAtMs.toNat
  counted : record.attempts.toNat = min record.history.length UInt32.maxNat

/-- A record that gave up its lease is sound, if it awaits a retry or has ended. -/
theorem StepRecord.Sound.ended {workflow : WorkflowSpec} {manifest : RunManifest} {id : StepId}
    {record record' : StepRecord} (old : record.Sound workflow manifest id)
    (named : record'.id = record.id) (known : ∃ task, manifest.tasks[record'.task]? = some task)
    (unleased : record'.lease = none) (attempts : record'.attempts = record.attempts)
    (history : record'.history.length = record.history.length)
    (status : record'.status = .retrying ∨ record'.status = .failed ∨
      record'.status = .cancelled ∨
      record'.status = .succeeded ∧ ∃ output, record'.output = some output) :
    record'.Sound workflow manifest id := by
  refine ⟨named.trans old.named, old.listed, known, ?_, ?_, ?_, ?_, ?_⟩
  · rw [unleased]
    obtain h | h | h | ⟨h, -⟩ := status <;> simp [h]
  · intro succeeded
    obtain h | h | h | ⟨-, h⟩ := status
    · simp [h] at succeeded
    · simp [h] at succeeded
    · simp [h] at succeeded
    · exact h
  · obtain h | h | h | ⟨h, -⟩ := status <;> simp [h]
  · intro lease leased
    simp [unleased] at leased
  · rw [attempts, history, old.counted]

/-- A stored run: its request was accepted and its step records are sound. -/
structure RunRecord.Sound (run : RunRecord) : Prop where
  accepted : Accepted run.workflow run.manifest
  records : ∀ (id : StepId) (record : StepRecord), run.steps[id]? = some record →
    record.Sound run.workflow run.manifest id

namespace RunRecord.Sound

variable {token : UInt64} {action : RunAction} {run run' : RunRecord}

theorem created {request : RunRequest} (now sequence eventNow : UInt64)
    (accepted : validateRunRequest request = some (.ok ())) :
    (RunRecord.created request now sequence eventNow).Sound := by
  refine ⟨accepted_of_validate accepted, ?_⟩
  intro id record found
  simp [RunRecord.created, RunRecord.new] at found

/-- The lease of a claim or renewal runs out at a positive time. -/
theorem expires_pos (now leaseMs : UInt64) :
    0 < (now.saturatingAdd (max leaseMs 1)).toNat := by
  apply UInt64.saturatingAdd_pos
  rw [UInt64.toNat_max]
  exact Nat.lt_of_lt_of_le Nat.one_pos (Nat.le_max_right _ _)

/-- Closing the last attempt of a history keeps its length. -/
theorem history_length (history : List StepAttempt) (close : StepAttempt → StepAttempt) :
    (history.modifyLast close).length = history.length := by
  cases history using List.reverseRecOn with
  | nil => rfl
  | append_singleton history attempt => rw [List.modifyLast_concat]; simp

theorem record (sound : run.Sound) {id : StepId} {record' : StepRecord}
    (h : RecordStep token run action id record') :
    record'.Sound run.workflow run.manifest id := by
  cases h with
  | @claim step taskId task dependencies worker seen now leaseMs running listed candidate known =>
      have fields : ∃ record : StepRecord, run.claimed step.id taskId worker.id token now leaseMs =
          record.claim run.runId taskId worker.id token now leaseMs ∧ record.id = step.id ∧
          record.attempts.toNat = min record.history.length UInt32.maxNat := by
        refine ⟨run.entry step.id taskId, rfl, ?_⟩
        cases found : run.steps[step.id]? with
        | none => simp [RunRecord.entry, found, StepRecord.new]
        | some record =>
            have old := sound.records _ _ found
            simpa [RunRecord.entry, found] using ⟨old.named, old.counted⟩
      obtain ⟨record, claimed, named, counted⟩ := fields
      rw [claimed]
      exact ⟨named, ⟨step, listed, rfl⟩, ⟨task, known⟩, by simp [StepRecord.claim],
        by simp [StepRecord.claim], by simp [StepRecord.claim],
        by rintro _ ⟨rfl⟩; exact expires_pos _ _, by simp [StepRecord.claim]; omega⟩
  | renew claim now again leaseMs found leased valid =>
      have old := sound.records _ _ found
      exact ⟨old.named, old.listed, old.known, by simpa [leased] using old.leased, old.output,
        old.started, by rintro _ ⟨rfl⟩; exact expires_pos _ _, old.counted⟩
  | complete claim completion now retryNow finishNow found leased valid accepted =>
      have old := sound.records _ _ found
      cases completionMatchesClaim_iff.mp accepted with
      | retrying error artifacts retryAfterMs below =>
          exact old.ended rfl old.known rfl rfl (history_length _ _) (.inl rfl)
      | fallback task error artifacts unused selected known =>
          exact old.ended rfl (BTreeMap.contains_iff.mp known) rfl rfl (history_length _ _)
            (.inl rfl)
      | succeeded output artifacts =>
          exact old.ended rfl old.known rfl rfl (history_length _ _)
            (.inr (.inr (.inr ⟨rfl, output, rfl⟩)))
      | failed error artifacts spent =>
          exact old.ended rfl old.known rfl rfl (history_length _ _) (.inr (.inl rfl))
  | cancel now _ found active =>
      have old := sound.records _ _ found
      unfold StepRecord.cancel
      split
      · exact old
      · exact old.ended rfl old.known rfl rfl (history_length _ _) (.inr (.inr (.inl rfl)))
  | @recover step record recovered event now listed found expired =>
      have old := sound.records _ _ found
      obtain ⟨-, outcome⟩ := recoverExpiredStep_eq_some expired
      cases outcome with
      | retrying below => exact old.ended rfl old.known rfl rfl (history_length _ _) (.inl rfl)
      | fallback spent unused selected =>
          exact old.ended rfl (sound.accepted.fallbacks step listed _ selected) rfl rfl
            (history_length _ _) (.inl rfl)
      | failed spent final =>
          exact old.ended rfl old.known rfl rfl (history_length _ _) (.inr (.inl rfl))

theorem step (h : RunStep token action run run') (sound : run.Sound) : run'.Sound := by
  have same := h.sameRequest
  refine ⟨same.workflow ▸ same.manifest ▸ sound.accepted, ?_⟩
  intro id record' found
  rw [same.workflow, same.manifest]
  obtain old | changed := h.record_cases found
  · exact sound.records id record' old
  · exact sound.record changed

end RunRecord.Sound

/-- Every stored run is sound, after every history of calls. -/
theorem sound_after (ops : List Op) : (repository.after ops).Every RunRecord.Sound :=
  Repository.runs_invariant (fun _ now sequence eventNow => .created now sequence eventNow)
    RunRecord.Sound.step ops

end Orchestrator
