import Orchestrator.Postgres.Operation
import Orchestrator.Repository.Log

/-!
# The log of a locked run

A change of a locked run leaves its log alone or puts one event at its end, under
the number after that of the last one.
-/

namespace Orchestrator

namespace RunRecord

/-- The log grew by at most one event, under the run's next number. -/
inductive Grows (run run' : RunRecord) : Prop where
  | silent (log : run'.eventLog = run.eventLog) (payloads : run'.events = run.events)
  | event (event : ExecutionEvent) (now : UInt64) (own : event.runId = run.runId)
      (log : run'.eventLog =
        run.eventLog ++ [eventEnvelope run.runId run.nextSequence event now])
      (payloads : run'.events = run.events ++ [event])

@[simp] theorem commit_events (run : RunRecord) (id : StepId) (record : StepRecord) :
    (run.commit id record).events = run.events := by
  rw [commit, noteFailure_events]
  rfl

end RunRecord

theorem LockedStep.grows {action : RunAction} {run run' : RunRecord}
    (h : LockedStep action run run') : run.Grows run' := by
  cases h with
  | claim => exact .silent rfl rfl
  | renew => exact .silent rfl rfl
  | complete claim completion now eventNow found leased valid accepted own =>
      refine .event completion.event eventNow own ?_ ?_
      · rw [RunRecord.logged_eventLog, RunRecord.commit_eventLog,
          (RunRecord.SameRequest.commit _ _).runId]
      · change (run.commit _ _).events ++ _ = _
        rw [RunRecord.commit_events]
  | record event eventNow accepted =>
      refine .event event eventNow ?_ rfl rfl
      unfold eventIsValidForRecord at accepted
      split at accepted
      · simp at accepted
      next own => simpa using own
  | measure => exact .silent rfl rfl
  | settle metrics =>
      refine .silent ?_ ?_
      · exact RunRecord.settle_eventLog _
      · exact RunRecord.settle_events _
  | finish metrics eventNow =>
      refine .event (.runFinished run.runId (run.setMetrics metrics).settle.status) eventNow rfl
        ?_ ?_
      · rw [RunRecord.logged_eventLog]
        change (run.setMetrics metrics).settle.eventLog ++ [eventEnvelope
          (run.setMetrics metrics).settle.runId _ _ _] = _
        rw [RunRecord.settle_eventLog, RunRecord.SameRequest.settle.runId]
        rfl
      · change (run.setMetrics metrics).settle.events ++ _ = _
        rw [RunRecord.settle_events]
        rfl
  | cancel now eventNow => exact .event _ eventNow rfl rfl rfl
  | @recover _ step _ recovered event now eventNow listed found expired =>
      have same : run.SameRequest ((run.setStep step.id recovered).noteRecovery recovered) :=
        (RunRecord.SameRequest.setStep _ _).trans (.noteRecovery _)
      refine .event _ eventNow (recoverExpiredStep_eq_some expired).2.event_runId ?_ ?_
      · rw [RunRecord.logged_eventLog, RunRecord.noteRecovery_eventLog, same.runId]
        rfl
      · change (RunRecord.noteRecovery _ _).events ++ _ = _
        rw [RunRecord.noteRecovery_events]
        rfl

end Orchestrator
