import Orchestrator.Refinement.Alike

/-!
# A sweep over the steps of alike runs

Both repositories visit the steps of a run and recover those whose leases have run out.
`Visits` is what the visits make of a run, whatever numbers the events get, so that the
sweeps of the two repositories over alike runs leave alike runs.
-/

namespace Orchestrator

namespace RunRecord

/-- What recovery makes of a step's record, with the event that it logs. -/
def recovery (run : RunRecord) (now : UInt64) (step : StepSpec) :
    Option (StepRecord × ExecutionEvent) :=
  run.steps[step.id]? >>= fun record => recoverExpiredStep run.runId step record now

/-- The run with a recovered step, whose event has the number `sequence`. -/
def recovered (run : RunRecord) (id : StepId) (record : StepRecord) (event : ExecutionEvent)
    (sequence eventNow : UInt64) : RunRecord :=
  ((run.setStep id record).noteRecovery record).logged event sequence eventNow

/-- What visiting the listed steps makes of a run. -/
inductive Visits (now : UInt64) (clock : Clock) : RunRecord → List StepSpec → RunRecord → Prop where
  | done (run : RunRecord) : Visits now clock run [] run
  | kept {run run' : RunRecord} {step : StepSpec} {rest : List StepSpec}
      (quiet : run.recovery now step = none) (later : Visits now clock run rest run') :
      Visits now clock run (step :: rest) run'
  | recovered {run run' : RunRecord} {step : StepSpec} {rest : List StepSpec}
      {record : StepRecord} {event : ExecutionEvent} (sequence : UInt64)
      (expired : run.recovery now step = some (record, event))
      (later : Visits now clock
        (run.recovered step.id record event sequence (clock.step run.runId step.id)) rest run') :
      Visits now clock run (step :: rest) run'

variable {ρ : UInt64 → UInt64} {now : UInt64} {clock : Clock} {run run' m m' p p' : RunRecord}
  {steps : List StepSpec}

theorem recovered_sameRequest (run : RunRecord) (id : StepId) (record : StepRecord)
    (event : ExecutionEvent) (sequence eventNow : UInt64) :
    run.SameRequest (run.recovered id record event sequence eventNow) :=
  .logged _ _ _ ((SameRequest.setStep _ _).trans (.noteRecovery _))

/-- Matching runs have the same steps to recover. -/
theorem Matches.recovery (same : m.Matches ρ p) (now : UInt64) (step : StepSpec) :
    m.recovery now step = none ∧ p.recovery now step = none ∨
      ∃ record record' event, m.recovery now step = some (record, event) ∧
        p.recovery now step = some (record', event) ∧ record.Matches ρ record' := by
  unfold RunRecord.recovery
  obtain ⟨none, none'⟩ | ⟨record, record', found, found', matching⟩ := same.record_cases step.id
  · rw [none, none']
    exact .inl ⟨rfl, rfl⟩
  · rw [found, found', same.runId]
    exact matching.recover m.runId step now

theorem Matches.recovered (same : m.Matches ρ p) (id : StepId) {record record' : StepRecord}
    (matching : record.Matches ρ record') (event : ExecutionEvent)
    (sequence sequence' now : UInt64) :
    (m.recovered id record event sequence now).Matches ρ
      (p.recovered id record' event sequence' now) :=
  ((same.setStep id matching).noteRecovery matching).logged _ _ _ _

/-- The same visits leave matching runs as matching runs. -/
theorem Visits.matches (visits : m.Visits now clock steps m')
    (visits' : p.Visits now clock steps p') (same : m.Matches ρ p) : m'.Matches ρ p' := by
  induction visits generalizing p with
  | done run =>
      cases visits'
      exact same
  | @kept run _ step rest quiet later ih =>
      obtain ⟨-, quiet'⟩ | ⟨_, _, _, expired, -⟩ := same.recovery now step
      · cases visits' with
        | kept _ later' => exact ih later' same
        | recovered _ expired' =>
            rw [quiet'] at expired'
            cases expired'
      · rw [quiet] at expired
        cases expired
  | @recovered run _ step rest record event sequence expired later ih =>
      obtain ⟨quiet, -⟩ | ⟨other, record', event', found, found', matching⟩ :=
        same.recovery now step
      · rw [quiet] at expired
        cases expired
      · rw [expired] at found
        obtain ⟨rfl, rfl⟩ := Prod.mk.inj (Option.some.inj found)
        cases visits' with
        | kept quiet' =>
            rw [quiet'] at found'
            cases found'
        | recovered sequence' expired' later' =>
            rw [expired'] at found'
            obtain ⟨rfl, rfl⟩ := Prod.mk.inj (Option.some.inj found')
            rw [same.runId] at later'
            exact ih later' (same.recovered step.id matching _ _ _ _)

theorem Visits.sameRequest (visits : run.Visits now clock steps run') : run.SameRequest run' := by
  induction visits with
  | done run => exact .refl run
  | kept _ _ ih => exact ih
  | recovered sequence _ _ ih => exact (recovered_sameRequest _ _ _ _ _ _).trans ih

/-- A visit changes no metrics. -/
theorem Visits.metrics (visits : run.Visits now clock steps run') :
    run'.metrics = run.metrics ∧ run'.gateDecisions = run.gateDecisions := by
  induction visits with
  | done => exact ⟨rfl, rfl⟩
  | kept _ _ ih => exact ih
  | recovered sequence _ _ ih =>
      rw [ih.1, ih.2, RunRecord.recovered, noteRecovery_eq]
      exact ⟨rfl, rfl⟩

theorem Visits.sameMetrics (visits : m.Visits now clock steps m')
    (visits' : p.Visits now clock steps p') (same : m.SameMetrics p) : m'.SameMetrics p' := by
  refine ⟨?_, ?_⟩
  · rw [visits.metrics.1, visits'.metrics.1]
    exact same.metrics
  · rw [visits.metrics.2, visits'.metrics.2]
    exact same.decisions

/-- A visit issues no token. -/
theorem Visits.issued (visits : run.Visits now clock steps run')
    (listed : steps ⊆ run.workflow.steps) {token : UInt64} (issued : run'.Issued token) :
    run.Issued token := by
  induction visits with
  | done => exact issued
  | kept _ _ ih => exact ih (List.cons_subset.mp listed).2 issued
  | @recovered run _ step rest record event sequence expired _ ih =>
      obtain ⟨first, others⟩ := List.cons_subset.mp listed
      have same := run.recovered_sameRequest step.id record event sequence
        (clock.step run.runId step.id)
      obtain ⟨old, found, recovers⟩ := Option.bind_eq_some_iff.mp expired
      have taken : RunStep 0 (.recover step.id) run (run.recovered step.id record event sequence
          (clock.step run.runId step.id)) := .recover now _ _ first found recovers
      exact taken.issued rfl token (ih (by rw [same.workflow]; exact others) issued)

theorem Visits.idempotencyKey (visits : run.Visits now clock steps run') :
    run'.idempotencyKey = run.idempotencyKey := by
  induction visits with
  | done => rfl
  | kept _ _ ih => exact ih
  | recovered sequence _ _ ih =>
      rw [ih, RunRecord.recovered, noteRecovery_eq]
      rfl

/-- Visits change nothing where no lease has run out. -/
theorem visits_of_unexpired (lasting : ¬ run.Expired now) (clock : Clock) (steps : List StepSpec) :
    run.Visits now clock steps run := by
  induction steps with
  | nil => exact .done run
  | cons step rest ih =>
      refine .kept ?_ ih
      cases expired : run.recovery now step with
      | none => rfl
      | some result =>
          obtain ⟨record, event⟩ := result
          obtain ⟨old, found, recovers⟩ := Option.bind_eq_some_iff.mp expired
          obtain ⟨⟨lease, leased, past⟩, -⟩ := recoverExpiredStep_eq_some recovers
          exact absurd ⟨_, ⟨step.id, old, lease, found, leased, rfl⟩, UInt64.not_lt.mp past⟩ lasting

end RunRecord

namespace Locked

variable {now : UInt64} {clock : Clock} {run run' : RunRecord}

theorem recoverStep_of_quiet {step : StepSpec} (quiet : run.recovery now step = none) :
    recoverStep run now clock step = .ok none := by
  rw [RunRecord.recovery] at quiet
  simp only [recoverStep, quiet]

theorem recoverStep_of_expired (clock : Clock) {step : StepSpec} {record : StepRecord}
    {event : ExecutionEvent} (expired : run.recovery now step = some (record, event)) :
    ∃ sequence, recoverStep run now clock step = .ok (some
      (run.recovered step.id record event sequence (clock.step run.runId step.id))) := by
  obtain ⟨old, -, recovers⟩ := Option.bind_eq_some_iff.mp expired
  have own : event.runId = run.runId := by
    cases (recoverExpiredStep_eq_some recovers).2 <;> rfl
  have same : run.SameRequest ((run.setStep step.id record).noteRecovery record) :=
    (RunRecord.SameRequest.setStep _ _).trans (.noteRecovery _)
  refine ⟨((run.setStep step.id record).noteRecovery record).nextSequence, ?_⟩
  rw [RunRecord.recovery] at expired
  simp only [recoverStep, expired]
  exact Except.map_eq_ok.mpr ⟨_, RunRecord.appendRunEvent_eq_ok.mpr
    ⟨own.trans same.runId.symm, rfl, rfl⟩, rfl⟩

/-- The sweep over the steps of a locked run. -/
theorem recoverSteps_visits {steps : List StepSpec} {expired expired' : List (RunId × StepId)}
    (h : recoverSteps now clock run steps expired = .ok (run', expired')) :
    run.Visits now clock steps run' := by
  induction steps generalizing run expired with
  | nil =>
      simp only [recoverSteps, Except.ok.injEq, Prod.mk.injEq] at h
      obtain ⟨rfl, -⟩ := h
      exact .done run
  | cons step rest ih =>
      rw [recoverSteps] at h
      cases found : run.recovery now step with
      | none =>
          simp only [recoverStep_of_quiet found] at h
          exact .kept found (ih h)
      | some result =>
          obtain ⟨record, event⟩ := result
          obtain ⟨sequence, recovered⟩ := recoverStep_of_expired clock found
          simp only [recovered] at h
          exact .recovered sequence found (ih h)

/-- A locked run with a lease that has run out is recovered by visits to its steps. -/
theorem recoverExpired_of_expired (steady : run.Steady) (past : run.Expired now) (clock : Clock) :
    ∃ more run', recoverExpired run now clock = .ok (more, some run'.bump) ∧
      run.Visits now clock run.workflow.steps run' := by
  obtain ⟨none, -⟩ | ⟨some, run', recovered, -⟩ := recoverExpired_cases steady now clock
  · exact absurd none (steady.lapsedSteps_ne_nil.mpr past)
  · obtain ⟨⟨last, expired⟩, swept, answer⟩ := Except.map_eq_ok.mp recovered
    obtain ⟨rfl, written⟩ := Prod.mk.inj answer
    split at written
    · cases written
    · obtain rfl := Option.some.inj written
      exact ⟨_, last, recovered, recoverSteps_visits swept⟩

end Locked

namespace Repository

variable {s : Repository} {now : UInt64} {clock : Clock}

theorem recoverStep_of_quiet {k : RunId} {run : RunRecord} {step : StepSpec} (eventNow : UInt64)
    (found : s.runs[k]? = some run) (own : run.runId = k)
    (quiet : run.recovery now step = none) : s.recoverStep k step now eventNow = none := by
  subst own
  rw [RunRecord.recovery] at quiet
  simp only [recoverStep, found, quiet]

theorem recoverStep_of_expired {k : RunId} {run : RunRecord} {step : StepSpec}
    {record : StepRecord} {event : ExecutionEvent} (eventNow : UInt64)
    (found : s.runs[k]? = some run) (own : run.runId = k)
    (expired : run.recovery now step = some (record, event)) :
    ∃ sequence envelope s', s.recoverStep k step now eventNow = some (.ok envelope, s') ∧
      s.Replaces k (run.recovered step.id record event sequence eventNow) s' := by
  subst own
  have same : run.SameRequest ((run.setStep step.id record).noteRecovery record) :=
    (RunRecord.SameRequest.setStep _ _).trans (.noteRecovery record)
  obtain ⟨s', appended, replaces⟩ := appendEvent_of_some event eventNow
    (getElem?_setRun_self s run.runId ((run.setStep step.id record).noteRecovery record))
    same.runId
  refine ⟨_, eventEnvelope run.runId (s.nextEventSequence.saturatingAdd 1) event eventNow, s', ?_,
    replaces.of_setRun⟩
  rw [RunRecord.recovery] at expired
  simp only [recoverStep, found, expired, appended]
  rfl

theorem Replaces.refl {k : RunId} {run : RunRecord} (found : s.runs[k]? = some run) :
    s.Replaces k run s := by
  refine ⟨fun id => ?_, rfl, rfl⟩
  split
  next same => rw [← same, found]
  · rfl

theorem Replaces.trans {s' s'' : Repository} {k : RunId} {run run' : RunRecord}
    (h : s.Replaces k run s') (h' : s'.Replaces k run' s'') : s.Replaces k run' s'' := by
  refine ⟨fun id => ?_, h'.idempotency.trans h.idempotency, h'.token.trans h.token⟩
  rw [h'.runs, h.runs]
  split <;> rfl

/-- The sweep over the steps of a stored run. -/
theorem recoverSteps_visits (now : UInt64) (clock : Clock) {k : RunId} {run : RunRecord}
    (steps : List StepSpec) (expired : List (RunId × StepId)) (found : s.runs[k]? = some run)
    (own : run.runId = k) :
    ∃ expired' run' s', s.recoverSteps k now clock steps expired = (.ok expired', s') ∧
      s.Replaces k run' s' ∧ run.Visits now clock steps run' := by
  induction steps generalizing s run expired with
  | nil => exact ⟨expired, run, s, rfl, .refl found, .done run⟩
  | cons step rest ih =>
      rw [recoverSteps]
      cases recovery : run.recovery now step with
      | none =>
          obtain ⟨expired', run', s', swept, replaces, visits⟩ := ih expired found own
          refine ⟨expired', run', s', ?_, replaces, .kept recovery visits⟩
          simp only [recoverStep_of_quiet _ found own recovery]
          exact swept
      | some result =>
          obtain ⟨record, event⟩ := result
          obtain ⟨sequence, envelope, middle, recovered, first⟩ :=
            recoverStep_of_expired (clock.step k step.id) found own recovery
          have same := run.recovered_sameRequest step.id record event sequence
            (clock.step k step.id)
          obtain ⟨expired', run', s', swept, replaces, visits⟩ := ih (expired ++ [(k, step.id)])
            ((first.runs k).trans (if_pos rfl)) (same.runId.trans own)
          refine ⟨expired', run', s', ?_, first.trans replaces, .recovered sequence recovery ?_⟩
          · simp only [recovered]
            exact swept
          · rw [own]
            exact visits

/-- The sweep over the listed runs visits their steps and leaves the others alone. -/
theorem recoverRuns_visits (now : UInt64) (clock : Clock) {ids : List RunId}
    (distinct : ids.Nodup) (keyed : s.Keyed)
    (stored : ∀ k ∈ ids, ∃ run, s.runs[k]? = some run) (expired : List (RunId × StepId)) :
    ∃ expired' s', s.recoverRuns now clock ids expired = (.ok expired', s') ∧
      s'.nextLeaseToken = s.nextLeaseToken ∧
      (∀ k, k ∉ ids → s'.runs[k]? = s.runs[k]?) ∧
      ∀ k ∈ ids, ∀ run, s.runs[k]? = some run → ∃ run', s'.runs[k]? = some run' ∧
        run.Visits now clock run.workflow.steps run' := by
  induction ids generalizing s expired with
  | nil => exact ⟨expired, s, rfl, rfl, fun _ _ => rfl, by simp⟩
  | cons k rest ih =>
      obtain ⟨apart, distinct⟩ := List.nodup_cons.mp distinct
      obtain ⟨⟨run, found⟩, storedRest⟩ := List.forall_mem_cons.mp stored
      obtain ⟨more, run', middle, swept, replaces, visits⟩ :=
        recoverSteps_visits now clock run.workflow.steps expired found (keyed k run found)
      have others : ∀ id ∈ rest, middle.runs[id]? = s.runs[id]? := by
        intro id member
        rw [replaces.runs, if_neg]
        rintro rfl
        exact apart member
      have keyedMiddle : middle.Keyed := by
        intro id other stored
        rw [replaces.runs] at stored
        split at stored
        next same =>
          obtain rfl := Option.some.inj stored
          rw [visits.sameRequest.runId, keyed k run found, same]
        · exact keyed id other stored
      obtain ⟨expired', s', result, token, kept, visited⟩ := ih distinct keyedMiddle
        (fun id member => by rw [others id member]; exact storedRest id member) more
      refine ⟨expired', s', ?_, token.trans replaces.token, fun id outside => ?_, ?_⟩
      · rw [recoverRuns, found]
        simp only [swept, result]
      · obtain ⟨other, outside⟩ := not_or.mp fun either => outside (List.mem_cons.mpr either)
        rw [kept id outside, replaces.runs, if_neg (Ne.symm other)]
      · refine List.forall_mem_cons.mpr ⟨fun first same => ?_, fun id member other stored => ?_⟩
        · obtain rfl := Option.some.inj (found.symm.trans same)
          refine ⟨run', ?_, visits⟩
          rw [kept k apart, replaces.runs, if_pos rfl]
        · exact visited id member other ((others id member).trans stored)

end Repository

end Orchestrator
