import Orchestrator.Model.Topology
import Orchestrator.Repository.Accounted
import Orchestrator.Repository.Sweep

/-!
# What `record_event` may add to a log

`record_event` adds no outcome exactly in the histories whose completions and recoveries
log the numbers of the attempts they end, and there each attempt has at most one outcome.
The numbers that are missing are those of attempts that end with the selection of a
fallback, and of attempts that are completed under the number of another one.
-/

namespace Orchestrator

/-- The outcomes that are logged for a run between two states. -/
def Repository.outcomes (s s' : Repository) (k : RunId) : List (StepId × UInt32) :=
  match s'.runs[k]? with
  | none => []
  | some run' => run'.outcomesSince ((s.runs[k]?).elim 0 fun run => run.eventLog.length)

/-- The outcomes that a history logs for a run, each when it is logged. -/
def outcomes (k : RunId) (ops : List Op) : List (StepId × UInt32) :=
  (List.range ops.length).flatMap fun i =>
    (repository.after (ops.take i)).outcomes (repository.after (ops.take (i + 1))) k

theorem outcomes_concat (k : RunId) (ops : List Op) (op : Op) :
    outcomes k (ops ++ [op]) =
      outcomes k ops ++ (repository.after ops).outcomes (repository.after (ops ++ [op])) k := by
  rw [outcomes, outcomes, List.length_append, List.length_singleton, List.range_succ,
    List.flatMap_append, List.flatMap_singleton, List.take_left, List.take_of_length_le (by simp)]
  congr 1
  refine List.flatMap_congr fun i member => ?_
  have inside := List.mem_range.mp member
  rw [List.take_append_of_le_length (Nat.le_of_lt inside), List.take_append_of_le_length inside]

section Sweeping

variable {run run' run'' : RunRecord}

/-- The number of attempts of each step, which a recovery keeps. -/
def RunRecord.attempts (run : RunRecord) (id : StepId) : Option UInt32 :=
  run.steps[id]?.map StepRecord.attempts

theorem RunStep.recover_attempts {token : UInt64} {id : StepId}
    (h : RunStep token (.recover id) run run') : run'.attempts = run.attempts := by
  funext other
  cases h with
  | recover now sequence eventNow listed found expired =>
      have kept := (recoverExpiredStep_eq_some expired).2.ended_cases.1
      simp only [RunRecord.attempts, RunRecord.logged_steps, RunRecord.noteRecovery_steps,
        RunRecord.setStep_steps, BTreeMap.getElem?_insert]
      split
      next same => rw [← same, found, Option.map_some, Option.map_some, kept]
      · rfl

/-- An outcome depends on the numbers of attempts only. -/
theorem ExecutionEvent.outcome_of_attempts (same : run'.attempts = run.attempts)
    (event : ExecutionEvent) : event.outcome run' = event.outcome run := by
  cases event with
  | stepFallbackSelected runId stepId task =>
      have counts : run'.steps[stepId]?.map StepRecord.attempts =
          run.steps[stepId]?.map StepRecord.attempts := congrFun same stepId
      have pair : ∀ run : RunRecord, (ExecutionEvent.stepFallbackSelected runId stepId task).outcome
          run = (run.steps[stepId]?.map StepRecord.attempts).map (stepId, ·) := by
        intro run
        rw [Option.map_map]
        rfl
      rw [pair, pair, counts]
  | _ => rfl

/-- What the log gained while the numbers of attempts stayed. -/
theorem RunRecord.outcomesSince_later {n : Nat} (counts : run''.attempts = run'.attempts)
    (grown : run'.eventLog <+: run''.eventLog) (le : n ≤ run'.eventLog.length) :
    run''.outcomesSince n = run'.outcomesSince n ++ run''.outcomesSince run'.eventLog.length := by
  obtain ⟨more, log⟩ := grown
  have same : ∀ envelope : EventEnvelope,
      envelope.event.outcome run'' = envelope.event.outcome run' :=
    fun envelope => ExecutionEvent.outcome_of_attempts counts envelope.event
  simp only [outcomesSince, same]
  rw [← List.filterMap_append, ← log, List.drop_left, List.drop_append_of_le_length le]

end Sweeping

namespace Repository

variable {s s' s'' : Repository} {outs : RunId → List (StepId × UInt32)}

theorem outcomes_of_found {k : RunId} {run run' : RunRecord} (found : s.runs[k]? = some run)
    (found' : s'.runs[k]? = some run') :
    s.outcomes s' k = run'.outcomesSince run.eventLog.length := by
  simp only [outcomes, found, found', Option.elim_some]

theorem outcomes_same {k : RunId} (same : s'.runs[k]? = s.runs[k]?) : s.outcomes s' k = [] := by
  cases found : s.runs[k]? with
  | none => simp only [outcomes, same, found]
  | some run =>
      rw [outcomes_of_found found (same.trans found), RunRecord.outcomesSince, List.drop_length]
      rfl

/-- The logs of all runs account for their attempts. -/
structure Accounted (s : Repository) (outs : RunId → List (StepId × UInt32)) : Prop where
  runs : ∀ (k : RunId) (run : RunRecord), s.runs[k]? = some run → run.Accounted (outs k)
  none : ∀ (k : RunId), s.runs[k]? = none → outs k = []

/-- A change of one run, if its log accounts for the attempts after it. -/
theorem Accounted.move (accounted : s.Accounted outs) {k : RunId} {run' : RunRecord}
    (runs : ∀ id, s'.runs[id]? = if k = id then some run' else s.runs[id]?)
    (changed : run'.Accounted (outs k ++ s.outcomes s' k)) :
    s'.Accounted fun id => outs id ++ s.outcomes s' id where
  runs id other found := by
    rw [runs] at found
    split at found
    next own =>
      subst own
      obtain rfl := Option.some.inj found
      exact changed
    next apart =>
      have same : s'.runs[id]? = s.runs[id]? := (runs id).trans (if_neg apart)
      rw [outcomes_same same, List.append_nil]
      exact accounted.runs id other found
  none id absent := by
    rw [runs] at absent
    split at absent
    · cases absent
    next apart =>
      have same : s'.runs[id]? = s.runs[id]? := (runs id).trans (if_neg apart)
      rw [outcomes_same same, List.append_nil]
      exact accounted.none id absent

theorem Accounted.moves (accounted : s.Accounted outs) {k : RunId} {action : RunAction}
    {run run' : RunRecord} (move : s.Moves k action run run' s') (sound : s.Every RunRecord.Sound)
    (announced : s.Every RunRecord.Announced) (numbers : run.Numbers action) :
    s'.Accounted fun id => outs id ++ s.outcomes s' id := by
  refine accounted.move move.runs ?_
  rw [outcomes_of_found move.found ((move.runs k).trans (if_pos rfl))]
  exact (accounted.runs k run move.found).step move.step (sound k run move.found)
    (announced k run move.found) numbers

theorem Accounted.creates (accounted : s.Accounted outs) {request : RunRequest}
    {now sequence eventNow : UInt64}
    (creates : s.Creates (.created request now sequence eventNow) s') :
    s'.Accounted fun id => outs id ++ s.outcomes s' id := by
  refine accounted.move creates.runs ?_
  have stored := (creates.runs _).trans (if_pos rfl)
  rw [accounted.none _ creates.fresh, List.nil_append, outcomes, stored, creates.fresh]
  exact .created now sequence eventNow

/-- A run that recovery visits keeps its attempts, and its log grows. -/
theorem Recovery.grown {listed : List (RunId × StepId)} (recovery : s.Recovery listed s')
    (sound : s.Every RunRecord.Sound) {k : RunId} {run : RunRecord}
    (found : s.runs[k]? = some run) :
    ∃ run', s'.runs[k]? = some run' ∧ run'.attempts = run.attempts ∧
      run.eventLog <+: run'.eventLog := by
  refine recovery.related
    (R := fun run run' => run'.attempts = run.attempts ∧ run.eventLog <+: run'.eventLog) sound
    (fun _ => ⟨rfl, List.prefix_rfl⟩)
    (fun first second => ⟨second.1.trans first.1, first.2.trans second.2⟩)
    (fun move _ => ⟨move.recover_attempts, ?_⟩) found
  obtain kept | ⟨last, extended, -⟩ := move.log_cases
  · exact kept ▸ List.prefix_rfl
  · exact extended ▸ List.prefix_append _ _

/-- Outcomes of a recovery, from those of its first step and of the others. -/
theorem Recovery.outcomes_next {k : RunId} {id : StepId} {run run' : RunRecord}
    {listed : List (RunId × StepId)} (move : s.Moves k (.recover id) run run' s')
    (rest : s'.Recovery listed s'') (sound : s'.Every RunRecord.Sound) (other : RunId) :
    s.outcomes s'' other = s.outcomes s' other ++ s'.outcomes s'' other := by
  by_cases own : k = other
  · subst own
    have found' : s'.runs[k]? = some run' := (move.runs k).trans (if_pos rfl)
    obtain ⟨run'', found'', counts, grown⟩ := rest.grown sound found'
    have longer : run.eventLog <+: run'.eventLog := by
      obtain kept | ⟨last, extended, -⟩ := move.step.log_cases
      · exact kept ▸ List.prefix_rfl
      · exact extended ▸ List.prefix_append _ _
    rw [outcomes_of_found move.found found'', outcomes_of_found move.found found',
      outcomes_of_found found' found'']
    exact RunRecord.outcomesSince_later counts grown longer.length_le
  · have same : s'.runs[other]? = s.runs[other]? := (move.runs other).trans (if_neg own)
    rw [outcomes_same same, List.nil_append]
    simp only [Repository.outcomes, same]

/-- A recovery of expired leases none of which selects a fallback for an active run. -/
theorem Accounted.recovery (accounted : s.Accounted outs) {listed : List (RunId × StepId)}
    (recovery : s.Recovery listed s') (sound : s.Every RunRecord.Sound)
    (announced : s.Every RunRecord.Announced)
    (numbers : ∀ k id, (k, id) ∈ listed → ∀ (run : RunRecord), s.runs[k]? = some run →
      ¬ run.Selects id) :
    s'.Accounted fun id => outs id ++ s.outcomes s' id := by
  induction recovery generalizing outs with
  | done s =>
      have nothing : ∀ id, s.outcomes s id = [] := fun id => outcomes_same rfl
      simpa only [nothing, List.append_nil] using accounted
  | @next s s' s'' k id run run' listed move rest ih =>
      have sound' := move.lift (.step move.step) sound
      have first := accounted.moves move sound announced
        (numbers k id List.mem_cons_self run move.found)
      have last := ih first sound' (move.lift (fun old => old.step move.step) announced) ?_
      · simpa only [List.append_assoc, Recovery.outcomes_next move rest sound'] using last
      · -- the record of a leased step is the one that it had
        intro k' id' member other found selects
        obtain ⟨running, step, record, task, listed, rfl, foundStep, leased, selected⟩ := selects
        obtain ⟨lease, leased'⟩ := Option.isSome_iff_exists.mp leased
        obtain ⟨-, before, foundBefore, same, status, foundStep'⟩ :=
          move.leased_before found foundStep leased'
        exact numbers k' step.id (List.mem_cons_of_mem _ member) before foundBefore
          ⟨status.trans running, step, record, task, same.workflow ▸ listed, rfl, foundStep', leased,
            selected⟩

/-- A call that ends attempts logs their numbers: a completion that is committed has the
number of its attempt, and no recovery selects a fallback for an active run. -/
def Numbers (s : Repository) : Op → Prop
  | .completeStep claim completion clock => ∀ (run : RunRecord) (record : StepRecord)
      (lease : StepLease), s.runs[claim.runId]? = some run →
      run.steps[claim.step.id]? = some record → record.lease = some lease →
      lease.validFor claim (clock.call 0) = true →
      completionMatchesClaim completion claim run.manifest = true →
        record.Numbers (run.status = .running) claim completion
  | .recoverExpired clock => ∀ (k : RunId) (run : RunRecord) (id : StepId),
      s.runs[k]? = some run → s.Expired k id (clock.call 0) → ¬ run.Selects id
  | _ => True

/-- What a completion that is committed has been checked against. -/
theorem completeStep_ok {claim : StepClaim} {completion : StepCompletion} {clock : Clock}
    {run' : RunRecord} (committed : (s.completeStep claim completion clock).1 = .ok run') :
    ∃ run record lease, s.runs[claim.runId]? = some run ∧
      run.steps[claim.step.id]? = some record ∧ record.lease = some lease ∧
      lease.validFor claim (clock.call 0) = true ∧
      completionMatchesClaim completion claim run.manifest = true := by
  unfold completeStep at committed
  split at committed
  · cases committed
  next run found =>
    split at committed
    · cases committed
    next record foundStep =>
      split at committed
      · cases committed
      next valid =>
        split at committed
        · cases committed
        next accepted =>
          simp only [Bool.not_eq_true', Bool.not_eq_false] at valid accepted
          obtain ⟨lease, leased, valid⟩ := (Option.any_eq_true _ _).mp valid
          exact ⟨run, record, lease, found, foundStep, leased, valid, accepted⟩

/-- A call that logs the numbers of the attempts it ends keeps the account. -/
theorem Accounted.next (accounted : s.Accounted outs) (keyed : s.Keyed)
    (sound : s.Every RunRecord.Sound) (announced : s.Every RunRecord.Announced) {op : Op}
    (numbers : s.Numbers op) :
    (repository.next s op).Accounted fun id => outs id ++ s.outcomes (repository.next s op) id := by
  have kept : s.Accounted fun id => outs id ++ s.outcomes s id := by
    have nothing : ∀ id, s.outcomes s id = [] := fun id => outcomes_same rfl
    simpa only [nothing, List.append_nil] using accounted
  have effect := step_effect keyed op
  generalize answered : repository.answer s op = response at effect
  generalize moved : repository.next s op = s' at effect ⊢
  cases effect with
  | unchanged => exact kept
  | create _ creates => exact accounted.creates creates
  | claim move => exact accounted.moves move sound announced trivial
  | renew move => exact accounted.moves move sound announced trivial
  | complete move =>
      refine accounted.moves move sound announced fun record found => ?_
      obtain ⟨run, record', lease, foundRun, foundStep, leased, valid, accepted⟩ :=
        completeStep_ok (Response.completed.inj answered)
      obtain rfl := Option.some.inj (move.found.symm.trans foundRun)
      obtain rfl := Option.some.inj (found.symm.trans foundStep)
      exact numbers _ _ lease foundRun foundStep leased valid accepted
  | record move => exact accounted.moves move sound announced trivial
  | finish move => exact accounted.moves move sound announced trivial
  | cancel move => exact accounted.moves move sound announced trivial
  | @recover clock =>
      obtain ⟨listed, s'', result, recovery, all⟩ := recoverExpired_listed keyed sound clock
      obtain rfl : s'' = s' := (congrArg Prod.snd result).symm.trans moved
      exact accounted.recovery recovery sound announced fun k id member run found =>
        numbers k run id found ((all k id).mp member)

end Repository

/-- While the calls log the numbers of the attempts they end, the logs account for them. -/
theorem accounted_after (ops : List Op) (numbers : repository.Along Repository.Numbers ops) :
    (repository.after ops).Accounted fun k => outcomes k ops := by
  induction ops using Machine.history_induction with
  | nil =>
      refine ⟨fun k run found => ?_, fun k _ => rfl⟩
      simp [repository, Repository.empty] at found
  | concat ops op ih =>
      have next := (ih numbers.init).next (Repository.keyed_after ops) (sound_after ops)
        (announced_after ops) numbers.last
      simpa only [outcomes_concat, Machine.after_concat] using next

/-- `record_event` accepts nothing but the start of a step's leased attempt. -/
def Repository.OnlyStarts (s : Repository) : Prop :=
  ∀ (k : RunId) (event : ExecutionEvent) (clock : Clock) (envelope : EventEnvelope),
    (s.recordEvent k event clock).1 = .ok envelope → ∃ run id record lease,
      s.runs[k]? = some run ∧ run.steps[id]? = some record ∧ record.lease = some lease ∧
        event = .stepStarted k id record.task record.attempts

/-- In a repository whose logs account for the attempts nothing else is recorded. -/
theorem Repository.Accounted.onlyStarts {s : Repository} {outs : RunId → List (StepId × UInt32)}
    (accounted : s.Accounted outs) (keyed : s.Keyed) (sound : s.Every RunRecord.Sound)
    (announced : s.Every RunRecord.Announced) : s.OnlyStarts := by
  intro k event clock envelope recorded
  unfold recordEvent at recorded
  split at recorded
  · cases recorded
  next run found =>
    split at recorded
    · cases recorded
    next accepted =>
      simp only [Bool.or_eq_true, Bool.not_eq_true', not_or, Bool.not_eq_false] at accepted
      obtain ⟨id, record, lease, foundStep, leased, same⟩ := (accounted.runs k run found).recorded
        (announced k run found) (sound k run found) accepted.2
      exact ⟨run, id, record, lease, found, foundStep, leased, keyed k run found ▸ same⟩

/-! A step whose attempt ended without its number in the log. -/

/-- No event in the log of the run is about the end of the attempt. -/
def RunRecord.Unlogged (run : RunRecord) (id : StepId) (attempt : UInt32) : Prop :=
  ∀ envelope ∈ run.eventLog, ∀ status, envelope.event.ended ≠ some (id, attempt, status)

/-- An attempt of the step has ended in the active run, and the log does not say so. -/
def RunRecord.Open (run : RunRecord) (id : StepId) : Prop :=
  run.status = .running ∧ ∃ record, run.steps[id]? = some record ∧ record.lease = none ∧
    (record.status = .succeeded ∨
      (record.status = .retrying ∨ record.status = .failed) ∧ record.error.isSome = true) ∧
    run.Unlogged id record.attempts

theorem ExecutionEvent.stepId?_of_ended {event : ExecutionEvent} {id : StepId} {attempt : UInt32}
    {status : StepStatus} (ended : event.ended = some (id, attempt, status)) :
    event.stepId? = some id := by
  cases event with
  | stepRetrying | stepSucceeded | stepFailed =>
      simp only [ExecutionEvent.ended, Option.some.injEq, Prod.mk.injEq] at ended
      exact congrArg some ended.1
  | _ => cases ended

/-- The attempts of a leased step have not ended as far as the log says. -/
theorem RunRecord.Accounted.unlogged {run : RunRecord} {outs : List (StepId × UInt32)}
    (accounted : run.Accounted outs) {id : StepId} {record : StepRecord}
    (found : run.steps[id]? = some record) (running : record.status = .running) :
    run.Unlogged id record.attempts := by
  intro envelope member status ended
  have logged := accounted.traced envelope member id record.attempts status ended
  exact UInt32.lt_irrefl _ ((accounted.leased id record found running _).mp logged).2

/-- Then the outcome can be recorded. -/
theorem RunRecord.Open.not_onlyStarts {s : Repository} {k : RunId} {run : RunRecord} {id : StepId}
    (unclosed : run.Open id) (keyed : s.Keyed) (found : s.runs[k]? = some run) :
    ¬ s.OnlyStarts := by
  obtain ⟨running, record, foundStep, -, rests, unlogged⟩ := unclosed
  intro starts
  obtain ⟨event, ended, valid⟩ : ∃ event : ExecutionEvent, event.ended ≠ none ∧
      eventIsValidForRecord run event = true := by
    have accepted : ∀ event : ExecutionEvent,
        event.ended = some (id, record.attempts, record.status) → event.runId = run.runId →
        (∀ error, event.failure = some error → record.error = some error) →
        ∃ event : ExecutionEvent, event.ended ≠ none ∧ eventIsValidForRecord run event = true := by
      intro event ended own failure
      refine ⟨event, by rw [ended]; exact Option.some_ne_none _, ?_⟩
      exact (recorded_iff_of_ended ended).mpr ⟨own, running, record, foundStep, rfl, rfl, failure,
        fun envelope member => unlogged envelope member _⟩
    obtain succeeded | ⟨status, failed⟩ := rests
    · refine accepted (.stepSucceeded run.runId id record.attempts) ?_ rfl
        fun error named => nomatch named
      rw [succeeded]
      rfl
    · obtain ⟨error, failed⟩ := Option.isSome_iff_exists.mp failed
      obtain retrying | failure := status
      · refine accepted (.stepRetrying run.runId id record.attempts error) ?_ rfl
          fun other named => failed.trans named
        rw [retrying]
        rfl
      · refine accepted (.stepFailed run.runId id record.attempts error) ?_ rfl
          fun other named => failed.trans named
        rw [failure]
        rfl
  obtain ⟨sequence, s', recorded, -⟩ :=
    Repository.recordEvent_of_valid s keyed (.at 0) found valid
  obtain ⟨_, _, _, _, -, -, -, rfl⟩ := starts k event (.at 0) _ (by rw [recorded])
  exact ended rfl

/-- A recovery of another step leaves the step and what is logged about it. -/
theorem RunStep.recover_apart {token : UInt64} {id other : StepId} {run run' : RunRecord}
    (h : RunStep token (.recover other) run run') (sound : run.Sound) (apart : other ≠ id) :
    run'.status = run.status ∧ run'.steps[id]? = run.steps[id]? ∧
      ∀ attempt, run.Unlogged id attempt → run'.Unlogged id attempt := by
  refine ⟨?_, Repository.recover_other h apart,
    fun attempt unlogged envelope member status ended => ?_⟩
  · cases h with
    | recover => simp
  · cases h with
    | recover now sequence eventNow listed found expired =>
        rw [RunRecord.logged_eventLog, RunRecord.noteRecovery_eventLog] at member
        obtain old | new := List.mem_append.mp member
        · exact unlogged envelope old status ended
        · obtain rfl := List.mem_singleton.mp new
          have about := (recoverExpiredStep_eq_some expired).2.stepId?
          rw [(sound.records _ _ found).named] at about
          exact apart (Option.some.inj (about.symm.trans (ExecutionEvent.stepId?_of_ended ended)))

theorem Repository.Recovery.keeps_open {s s' : Repository} {listed : List (RunId × StepId)}
    (recovery : s.Recovery listed s') (sound : s.Every RunRecord.Sound) {k : RunId}
    {run : RunRecord} {id : StepId} (found : s.runs[k]? = some run) (unclosed : run.Open id) :
    ∃ run', s'.runs[k]? = some run' ∧ run'.Open id := by
  obtain ⟨run', found', kept⟩ := recovery.related
    (R := fun run run' => run.Open id → run'.Open id) sound (fun _ unclosed => unclosed)
    (fun first second unclosed => second (first unclosed))
    (fun {token other run run'} move sound unclosed => by
      obtain ⟨running, record, foundStep, unleased, rests, unlogged⟩ := unclosed
      have apart : other ≠ id := by
        rintro rfl
        cases move with
        | recover now sequence eventNow listed before expired =>
            obtain rfl := Option.some.inj (before.symm.trans foundStep)
            rw [recoverExpiredStep_eq_none unleased] at expired
            cases expired
      obtain ⟨status, kept, still⟩ := move.recover_apart sound apart
      exact ⟨status.trans running, record, kept.trans foundStep, unleased, rests,
        still _ unlogged⟩) found
  exact ⟨run', found', kept unclosed⟩

/-- A recovery that selects a fallback leaves the attempt open. -/
theorem RunStep.recover_opens {token : UInt64} {id : StepId} {run run' : RunRecord}
    (h : RunStep token (.recover id) run run') (sound : run.Sound) (selects : run.Selects id)
    {record : StepRecord} (found : run.steps[id]? = some record)
    (unlogged : run.Unlogged id record.attempts) : run'.Open id := by
  cases h with
  | @recover _ step _ recovered event now sequence eventNow listed before expired =>
      obtain rfl := Option.some.inj (before.symm.trans found)
      obtain ⟨running, other, old, task, inside, same, foundOld, -, spent, unused, selected⟩ :=
        selects
      obtain rfl := Option.some.inj (foundOld.symm.trans found)
      obtain rfl := WorkflowSpec.step_eq_of_id sound.accepted.valid inside listed same
      obtain ⟨attempts, unleased, -, ⟨task', -, -, -, retrying, failed, rfl⟩ | ⟨flag, ended⟩⟩ :=
        (recoverExpiredStep_eq_some expired).2.ended_cases
      · refine ⟨by simpa using running, recovered, by simp, unleased, .inr ⟨.inl retrying, failed⟩,
          fun envelope member status ended => ?_⟩
        rw [RunRecord.logged_eventLog, RunRecord.noteRecovery_eventLog] at member
        obtain old | new := List.mem_append.mp member
        · exact unlogged envelope old status (attempts ▸ ended)
        · obtain rfl := List.mem_singleton.mp new
          cases ended
      · -- the record would have kept its flag
        cases (recoverExpiredStep_eq_some expired).2 with
        | retrying below => exact absurd below spent
        | fallback => rw [unused] at flag; cases flag
        | failed _ final =>
            obtain used | alone := final
            · rw [unused] at used
              cases used
            · rw [alone] at selected
              cases selected

/-- A sweep that selects a fallback for an active run leaves an attempt open. -/
theorem Repository.Recovery.opens {s s' : Repository} {listed : List (RunId × StepId)}
    (recovery : s.Recovery listed s') (sound : s.Every RunRecord.Sound) {k : RunId}
    {run : RunRecord} {id : StepId} {record : StepRecord} (member : (k, id) ∈ listed)
    (found : s.runs[k]? = some run) (foundStep : run.steps[id]? = some record)
    (selects : run.Selects id) (unlogged : run.Unlogged id record.attempts) :
    ∃ run', s'.runs[k]? = some run' ∧ run'.Open id := by
  induction recovery generalizing run with
  | done => cases member
  | @next s s' s'' k' id' old new listed move rest ih =>
      have later := move.lift (.step move.step) sound
      by_cases own : k' = k
      · subst own
        obtain rfl := Option.some.inj (move.found.symm.trans found)
        have found' : s'.runs[k']? = some new := (move.runs k').trans (if_pos rfl)
        by_cases same : id' = id
        · subst same
          exact rest.keeps_open later found'
            (move.step.recover_opens (sound _ _ found) selects foundStep unlogged)
        · obtain ⟨status, kept, still⟩ := move.step.recover_apart (sound _ _ found) same
          have tail : (k', id) ∈ listed := by
            obtain head | tail := List.mem_cons.mp member
            · exact absurd (Prod.mk.inj head).2.symm same
            · exact tail
          obtain ⟨running, step, record', task, inside, stepId, foundStep', rest⟩ := selects
          exact ih later tail found' (kept.trans foundStep)
            ⟨status.trans running, step, record', task,
              move.step.sameRequest.workflow.symm ▸ inside, stepId, kept.trans foundStep', rest⟩
            (still _ unlogged)
      · have tail : (k, id) ∈ listed := by
          obtain head | tail := List.mem_cons.mp member
          · exact absurd (Prod.mk.inj head).1.symm own
          · exact tail
        exact ih later tail (((move.runs k).trans (if_neg own)).trans found) foundStep selects
          unlogged

/-- A completion that does not log the number of its attempt leaves the attempt open, or
logs an earlier one again. -/
theorem Repository.Accounted.completion_numbers {s s' : Repository} {run run' : RunRecord}
    {outs : RunId → List (StepId × UInt32)} (accounted : s.Accounted outs) (keyed : s'.Keyed)
    (sound : s.Every RunRecord.Sound) {claim : StepClaim} {completion : StepCompletion}
    {record : StepRecord} {lease : StepLease} {retryNow finishNow sequence eventNow : UInt64}
    (found : s.runs[claim.runId]? = some run) (foundStep : run.steps[claim.step.id]? = some record)
    (leased : record.lease = some lease)
    (accepted : completionMatchesClaim completion claim run.manifest = true)
    (after : run' = (run.commit claim.step.id (record.complete completion retryNow
      finishNow)).logged completion.event sequence eventNow)
    (found' : s'.runs[claim.runId]? = some run') (starts : s'.OnlyStarts)
    (nodup : (outs claim.runId ++ s.outcomes s' claim.runId).Nodup) :
    record.Numbers (run.status = .running) claim completion := by
  have status := ((sound _ _ found).records _ _ foundStep).leased.mp (by rw [leased]; rfl)
  have account := accounted.runs _ run found
  have unlogged := account.unlogged foundStep status
  have log : run'.eventLog = run.eventLog ++
      [eventEnvelope run'.runId sequence completion.event eventNow] := by
    rw [after, RunRecord.logged_eventLog, RunRecord.commit_eventLog]
    rfl
  have stored :
      run'.steps[claim.step.id]? = some (record.complete completion retryNow finishNow) := by
    rw [after, RunRecord.logged_steps, RunRecord.commit_steps, BTreeMap.getElem?_insert, if_pos rfl]
  have open_of : run.status = .running → (completion.status = .succeeded ∨
      (completion.status = .retrying ∨ completion.status = .failed) ∧
        completion.error.isSome = true) →
      (∀ status, completion.event.ended ≠ some (claim.step.id, record.attempts, status)) →
      False := by
    intro running rests silent
    refine RunRecord.Open.not_onlyStarts ⟨?_, _, stored, rfl, rests, ?_⟩ keyed found' starts
    · rw [after]
      simpa using running
    · intro envelope member status ended
      rw [log] at member
      obtain old | new := List.mem_append.mp member
      · exact unlogged envelope old status ended
      · obtain rfl := List.mem_singleton.mp new
        exact silent status ended
  obtain ⟨-, ⟨selects, retrying, failed, task, event⟩ | ⟨plain, rests, event⟩⟩ :=
    (completionMatchesClaim_iff.mp accepted).ended_cases
  · refine ⟨fun running => (open_of running (.inr ⟨.inl retrying, failed⟩) ?_).elim,
      fun plain => ?_⟩
    · intro status ended
      rw [event] at ended
      cases ended
    · rw [plain] at selects
      cases selects
  · refine ⟨fun running => ⟨plain, ?_⟩, fun _ => ?_⟩
    · by_contra other
      refine open_of running rests fun status ended => ?_
      rw [event] at ended
      exact other (Prod.mk.inj (Prod.mk.inj (Option.some.inj ended)).2).1
    · by_contra earlier
      obtain ⟨positive, below⟩ := not_or.mp earlier
      have before : (claim.step.id, claim.attempt) ∈ outs claim.runId :=
        (account.leased _ record foundStep status _).mpr
          ⟨UInt32.pos_iff_ne_zero.mpr positive, UInt32.not_le.mp below⟩
      have again : (claim.step.id, claim.attempt) ∈ s.outcomes s' claim.runId := by
        rw [Repository.outcomes_of_found found found', RunRecord.outcomesSince, log, List.drop_left,
          List.filterMap_cons]
        have outcome : (eventEnvelope run'.runId sequence completion.event eventNow).event.outcome
            run' = some (claim.step.id, claim.attempt) := ExecutionEvent.outcome_of_ended event
        rw [outcome]
        exact List.mem_singleton_self _
      exact (List.nodup_append.mp nodup).2.2 _ before _ again rfl

/-- In every state of a history `record_event` accepts nothing but the start of a step's
leased attempt, and each attempt has at most one outcome in the log, exactly when all
completions and recoveries log the numbers of the attempts they end. -/
theorem recorded_outcomes_iff (ops : List Op) :
    (∀ pre, pre <+: ops → (repository.after pre).OnlyStarts) ∧ (∀ k, (outcomes k ops).Nodup) ↔
      repository.Along Repository.Numbers ops := by
  constructor
  · rintro ⟨starts, nodup⟩
    induction ops using Machine.history_induction with
    | nil => exact Machine.along_nil
    | concat ops op ih =>
        have before := ih (fun pre within => starts pre (within.trans (List.prefix_append _ _)))
          fun k => by
            have all := nodup k
            rw [outcomes_concat] at all
            exact (List.nodup_append.mp all).1
        refine before.concat ?_
        have accounted := accounted_after ops before
        have last := starts _ List.prefix_rfl
        have keyed := Repository.keyed_after ops
        have keyed' := Repository.keyed_after (ops ++ [op])
        have sound := sound_after ops
        cases op with
        | completeStep claim completion clock =>
            intro run record lease found foundStep leased valid accepted
            obtain ⟨sequence, run', s', after, completed, move⟩ :=
              Repository.completeStep_of_lease _
              keyed claim completion clock found foundStep leased valid accepted
            have state : repository.after (ops ++ [.completeStep claim completion clock]) = s' := by
              rw [Machine.after_concat]
              exact congrArg Prod.snd completed
            have all := nodup claim.runId
            rw [outcomes_concat] at all
            rw [state] at last keyed' all
            exact accounted.completion_numbers keyed' sound found foundStep leased accepted after
              ((move.runs _).trans (if_pos rfl)) last all
        | recoverExpired clock =>
            intro k run id found expired selects
            obtain ⟨listed, s', result, recovery, all⟩ :=
              Repository.recoverExpired_listed keyed sound clock
            have state : repository.after (ops ++ [.recoverExpired clock]) = s' := by
              rw [Machine.after_concat]
              exact congrArg Prod.snd result
            rw [state] at last keyed'
            have leased := selects
            obtain ⟨-, -, record, -, -, -, foundStep, leased, -⟩ := leased
            have running := ((sound k run found).records id record foundStep).leased.mp leased
            obtain ⟨run', found', unclosed⟩ := recovery.opens sound ((all k id).mpr expired) found
              foundStep selects ((accounted.runs k run found).unlogged foundStep running)
            exact unclosed.not_onlyStarts keyed' found' last
        | _ => trivial
  · intro numbers
    have upto : ∀ pre, pre <+: ops → repository.Along Repository.Numbers pre :=
      fun pre within before op inside => numbers before op (inside.trans within)
    constructor
    · intro pre within
      exact (accounted_after pre (upto pre within)).onlyStarts (Repository.keyed_after pre)
        (sound_after pre) (announced_after pre)
    · intro k
      have accounted := accounted_after ops numbers
      cases found : (repository.after ops).runs[k]? with
      | none =>
          rw [accounted.none k found]
          exact List.nodup_nil
      | some run => exact (accounted.runs k run found).nodup

/-- A step loses its lease when its budget is spent, and a fallback is selected for it.
Then a retry of the attempt is recorded. -/
def selectedThenRetried : List Op :=
  [.createRun (Sample.request [Sample.step "only" 1 true] []) (.at 0), Sample.ask 0,
    .recoverExpired (.at 20),
    .recordEvent Sample.runId (.stepRetrying Sample.runId ⟨"only"⟩ 1 leaseExpiredError) (.at 21)]

/-- `record_event` accepts the retry, and the log has two outcomes of the attempt. -/
theorem fallback_recorded_as_retry :
    ¬ (repository.after (selectedThenRetried.take 3)).OnlyStarts ∧
      outcomes Sample.runId selectedThenRetried = [(⟨"only"⟩, 1), (⟨"only"⟩, 1)] := by
  constructor
  · intro starts
    have accepted : ((repository.after (selectedThenRetried.take 3)).recordEvent Sample.runId
        (.stepRetrying Sample.runId ⟨"only"⟩ 1 leaseExpiredError) (.at 21)).1.isOk = true := by
      decide +kernel
    cases recorded : ((repository.after (selectedThenRetried.take 3)).recordEvent Sample.runId
        (.stepRetrying Sample.runId ⟨"only"⟩ 1 leaseExpiredError) (.at 21)).1 with
    | error error => rw [recorded] at accepted; cases accepted
    | ok envelope =>
        obtain ⟨_, _, _, _, -, -, -, same⟩ := starts _ _ _ envelope recorded
        cases same
  · decide +kernel

end Orchestrator
