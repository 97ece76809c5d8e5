import Orchestrator.Repository.LateWork

/-!
# Work on cancelled runs

A cancelled run holds no lease, and no call gives a lease to a step of a run that
has ended. Without leases nothing is completed, renewed or recovered, so that the
step records stay as the cancellation left them. The status may still change: a
finish request computes it anew.
-/

namespace Orchestrator

/-- No call does any work on the steps of the run. -/
structure Frozen (k : RunId) (steps : BTreeMap StepId StepRecord) (s : Repository) : Prop where
  steps : ∃ run, s.runs[k]? = some run ∧ run.steps = steps
  unclaimed : ∀ (worker : WorkerProfile) (leaseMs : UInt64) (clock : Clock) (claim : StepClaim),
    (s.claimNextStep k worker leaseMs clock).1 ≠ .ok (some claim)
  uncompleted : ∀ claim : StepClaim, claim.runId = k →
    ∀ (completion : StepCompletion) (clock : Clock) (done : RunRecord),
      (s.completeStep claim completion clock).1 ≠ .ok done
  unrenewed : ∀ claim : StepClaim, claim.runId = k → ∀ (leaseMs : UInt64) (clock : Clock),
    (s.renewStep claim leaseMs clock).1 ≠ .ok ()
  unrecovered : ∀ (clock : Clock) (expired : List (RunId × StepId)),
    (s.recoverExpired clock).1 = .ok expired → ∀ id, (k, id) ∉ expired

/-- The run has ended and holds no lease. -/
structure RunRecord.Closed (run : RunRecord) : Prop where
  ended : run.status.isTerminal = true
  unleased : run.Unleased

/-- No step of a closed run changes its step records. -/
theorem RunStep.closed_steps {token : UInt64} {action : RunAction} {run run' : RunRecord}
    (h : RunStep token action run run') (closed : run.Closed) : run'.steps = run.steps := by
  obtain ⟨ended, unleased⟩ := closed
  cases h with
  | claim worker seen now leaseMs running => rw [running] at ended; cases ended
  | renew claim now again leaseMs found leased =>
      rw [unleased _ _ found] at leased
      cases leased
  | complete claim completion now retryNow finishNow sequence eventNow found leased =>
      rw [unleased _ _ found] at leased
      cases leased
  | record => rfl
  | measure => rfl
  | settle => simp
  | finish => simp
  | cancel now sequence eventNow active => rw [active] at ended; cases ended
  | recover now sequence eventNow listed found expired =>
      rw [recoverExpiredStep_eq_none (unleased _ _ found)] at expired
      cases expired

/-- A closed run stays closed. -/
theorem RunStep.closed_kept {token : UInt64} {action : RunAction} {run run' : RunRecord}
    (h : RunStep token action run run') (closed : run.Closed) : run'.Closed := by
  refine ⟨?_, ?_⟩
  · cases h.statusStep with
    | kept status => rw [status]; exact closed.ended
    | recorded ended first status => rw [status]; exact ended
    | finished metrics settled status => rw [status]; exact RunRecord.verdict_isTerminal _
    | cancelled active status => rw [status]; rfl
  · intro id record found
    rw [h.closed_steps closed] at found
    exact closed.unleased id record found

/-- In every continuation a closed run stays closed with its step records. -/
theorem closed_later (ops later : List Op) {k : RunId} {run : RunRecord}
    (found : (repository.after ops).runs[k]? = some run) (closed : run.Closed) :
    ∃ run', (repository.after (ops ++ later)).runs[k]? = some run' ∧ run'.Closed ∧
      run'.steps = run.steps := by
  obtain ⟨run', found', related⟩ := related_later
    (R := fun run run' => run.Closed → run'.Closed ∧ run'.steps = run.steps)
    (A := fun _ _ => True) (fun _ closed => ⟨closed, rfl⟩)
    (fun first second closed => by
      obtain ⟨closed, same⟩ := first closed
      obtain ⟨closed, same'⟩ := second closed
      exact ⟨closed, same'.trans same⟩)
    (fun step _ _ closed => ⟨step.closed_kept closed, step.closed_steps closed⟩)
    (fun _ _ => trivial) ops later (guarded_true _) found
  exact ⟨run', found', related closed⟩

/-- Recovery lists no step of a run without leases. -/
theorem Repository.Recovery.not_listed {s s' : Repository} {expired : List (RunId × StepId)}
    (h : s.Recovery expired s') {k : RunId} {run : RunRecord} (found : s.runs[k]? = some run)
    (unleased : run.Unleased) (id : StepId) : (k, id) ∉ expired := by
  induction h with
  | done => exact List.not_mem_nil
  | @next s s' s'' k' id' old new expired move rest ih =>
      have apart : k' ≠ k := by
        rintro rfl
        obtain rfl := Option.some.inj (move.found.symm.trans found)
        exact move.step.recover_leased unleased
      have kept : s'.runs[k]? = some run := ((move.runs k).trans (if_neg apart)).trans found
      intro listed
      obtain head | tail := List.mem_cons.mp listed
      · exact apart (Prod.mk.inj head).1.symm
      · exact ih kept tail

/-- No call does any work on a closed run. -/
theorem RunRecord.Closed.frozen {s : Repository} (keyed : s.Keyed) {k : RunId} {run : RunRecord}
    (found : s.runs[k]? = some run) (closed : run.Closed) : Frozen k run.steps s := by
  refine ⟨⟨run, found, rfl⟩, ?_, ?_, ?_, ?_⟩
  · intro worker leaseMs clock claim handed
    have idle : run.status ≠ .running := fun running => by
      have ended := closed.ended
      rw [running] at ended
      cases ended
    simp only [Repository.claimNextStep, found, ne_eq, idle, not_false_eq_true, if_true] at handed
    cases handed
  · rintro claim rfl completion clock done
    exact Repository.completeStep_ne_ok keyed found closed.unleased done
  · rintro claim rfl leaseMs clock
    exact Repository.renewStep_ne_ok found closed.unleased
  · intro clock expired result id
    have effect := Repository.recoverExpired_effect keyed clock
    rw [result] at effect
    generalize (s.recoverExpired clock).2 = s' at effect
    cases effect with
    | unchanged quiet => cases quiet
    | recover recovery => exact recovery.not_listed found closed.unleased id

/-- The run that a cancellation returns is the stored one. -/
theorem cancelRun_stored (ops : List Op) {k : RunId} {clock : Clock} {run : RunRecord}
    (returned : ((repository.after ops).cancelRun k clock).1 = .ok run) :
    (repository.after (ops ++ [.cancelRun k clock])).runs[k]? = some run := by
  rw [Machine.after_concat]
  change ((repository.after ops).cancelRun k clock).2.runs[k]? = some run
  cases found : (repository.after ops).runs[k]? with
  | none =>
      simp only [Repository.cancelRun, found] at returned
      cases returned
  | some old =>
      obtain ⟨-, kept⟩ | ⟨new, s', cancelled, move⟩ :=
        Repository.cancelRun_of_some _ (Repository.keyed_after ops) clock found
      · rw [kept] at returned ⊢
        obtain rfl := Except.ok.inj returned
        exact found
      · rw [cancelled] at returned ⊢
        obtain rfl := Except.ok.inj returned
        exact (move.runs k).trans (if_pos rfl)

/-- Once a cancellation returned a cancelled run, the run holds no lease, and no
call of any continuation works on its steps. -/
theorem cancelled_run_frozen (ops later : List Op) (k : RunId) (clock : Clock) (run : RunRecord)
    (returned : ((repository.after ops).cancelRun k clock).1 = .ok run)
    (cancelled : run.status = .cancelled) :
    run.Unleased ∧
      Frozen k run.steps (repository.after (ops ++ [.cancelRun k clock] ++ later)) := by
  have found := cancelRun_stored ops returned
  have unleased := (phased_after _ k run found).cancelled cancelled
  have closed : run.Closed := ⟨by rw [cancelled]; rfl, unleased⟩
  obtain ⟨run', found', closed', same⟩ := closed_later _ later found closed
  exact ⟨unleased, same ▸ closed'.frozen (Repository.keyed_after _) found'⟩

/-- Two steps of a run are leased when it is cancelled, and then it is finished. -/
def cancelledUnderLease : List Op :=
  [.createRun (Sample.request [Sample.step "left" 1 false, Sample.step "right" 1 false] []) (.at 0),
    Sample.ask 0, Sample.ask 0]

theorem cancelled_run_frozen_underLease : ∃ run : RunRecord,
    ((repository.after cancelledUnderLease).cancelRun Sample.runId (.at 1)).1 = .ok run ∧
    run.status = .cancelled ∧ run.Unleased ∧
    Frozen Sample.runId run.steps (repository.after (cancelledUnderLease ++
      [.cancelRun Sample.runId (.at 1)] ++ [.finishRun Sample.runId [] (.at 2)])) := by
  have result : (((repository.after cancelledUnderLease).cancelRun Sample.runId
      (.at 1)).1.toOption).map
      RunRecord.status = some .cancelled := by
    decide +kernel
  cases returned : ((repository.after cancelledUnderLease).cancelRun Sample.runId (.at 1)).1 with
  | error error =>
      rw [returned] at result
      cases result
  | ok run =>
      rw [returned] at result
      have cancelled : run.status = .cancelled := Option.some.inj result
      exact ⟨run, rfl, cancelled, cancelled_run_frozen _ _ _ _ run returned cancelled⟩

end Orchestrator
