import Orchestrator.Model.Runtime

/-!
# The loop of a step comes to its end

A turn of the loop raises the attempts, or it moves from the step's own task to
the fallback. The fallback gets an attempt also when the budget is spent, and with
the largest budget the number of that attempt does not fit: the step is `Exhausted`.
-/

namespace Orchestrator

open Json (Value)

namespace InMemoryExecutor

/-- The answer that the step gets from a task for one attempt. -/
def answer (executor : InMemoryExecutor) (run : RunRecord) (step : StepSpec)
    (dependencies : BTreeMap String Value) (task : Task) (attempt : UInt32) :
    Except TaskError Value :=
  task.executeWithin step.policy.timeoutMs (buildStepInput run.input dependencies)
    { runId := run.runId, workflowId := run.workflow.id, stepId := step.id, attempt
      task := task.spec, worker := some executor.options.worker.id }

/-- The tasks of the step are registered. -/
structure Registered (executor : InMemoryExecutor) (step : StepSpec) : Prop where
  task : ∃ task, executor.registry step.task = some task
  fallback : ∀ id, step.policy.fallbackTask = some id → ∃ task, executor.registry id = some task

/-- The task answers every attempt before the given number by an error that is
retried, if the number is the largest or not. -/
def Fails (executor : InMemoryExecutor) (run : RunRecord) (step : StepSpec)
    (dependencies : BTreeMap String Value) (task : Task) (attempts : UInt32) : Prop :=
  ∀ attempt : UInt32, attempt ≠ 0 → attempt ≤ attempts →
    ∃ error, executor.answer run step dependencies task attempt = .error error ∧
      (attempt < step.policy.retry.budget → error.retryable = true)

/-- The step spends the largest budget on its own task and has a fallback to try. -/
structure Exhausted (executor : InMemoryExecutor) (run : RunRecord) (step : StepSpec)
    (dependencies : BTreeMap String Value) : Prop where
  budget : step.policy.retry.budget.toNat = UInt32.maxNat
  fallback : step.policy.fallbackTask ≠ none
  fails : ∃ task, executor.registry step.task = some task ∧
    executor.Fails run step dependencies task step.policy.retry.budget

/-- What becomes of the loop after an attempt failed. -/
inductive Handled (runId : RunId) (step : StepSpec) (loop : StepLoop) (error : TaskError) :
    StepLoop ⊕ StepRunResult → Prop where
  | retry (retryable : error.retryable = true) (below : loop.attempts < step.policy.retry.budget) :
      Handled runId step loop error (.inl (loop.retry runId step error))
  | fallback (task : TaskId) (unused : loop.usedFallback = false)
      (selected : step.policy.fallbackTask = some task)
      (final : ¬ (error.retryable = true ∧ loop.attempts < step.policy.retry.budget)) :
      Handled runId step loop error
        (.inl ({ loop with lastError := some error.message }.fallback runId step task))
  | again (unused : loop.usedFallback = false) (alone : step.policy.fallbackTask = none)
      (below : loop.attempts < step.policy.retry.budget) :
      Handled runId step loop error (.inl { loop with lastError := some error.message })
  | failed (closed : loop.usedFallback = true ∨ step.policy.fallbackTask = none) :
      Handled runId step loop error
      (.inr ({ loop with lastError := some error.message }.failure runId step))

theorem handleError_handled (runId : RunId) (step : StepSpec) (loop : StepLoop)
    (error : TaskError) : Handled runId step loop error (handleError runId step loop error) := by
  simp only [handleError]
  split
  next again =>
    rw [Bool.and_eq_true, decide_eq_true_eq] at again
    exact .retry again.1 again.2
  next final =>
    rw [Bool.and_eq_true, decide_eq_true_eq] at final
    split
    next task selected =>
      rw [Option.ite_none_left_eq_some] at selected
      exact .fallback task (Bool.eq_false_iff.mpr selected.1) selected.2 final
    next unselected =>
      have closed : loop.usedFallback = true ∨ step.policy.fallbackTask = none := by
        cases used : loop.usedFallback with
        | true => exact .inl rfl
        | false =>
            rw [used] at unselected
            exact .inr unselected
      split
      · exact .failed closed
      next left =>
        rw [Bool.or_eq_true, decide_eq_true_eq, not_or, UInt32.not_le, Bool.not_eq_true] at left
        refine .again left.1 (closed.resolve_left ?_) left.2
        rw [left.1]
        exact Bool.false_ne_true

section Turns

variable {executor : InMemoryExecutor} {run : RunRecord} {step : StepSpec}
  {dependencies : BTreeMap String Value} {loop : StepLoop}

/-- What a turn that makes an attempt comes to. -/
theorem turn_of_attempt (run : RunRecord) (dependencies : BTreeMap String Value) {task : Task}
    {attempts : UInt32}
    (registered : executor.registry loop.selectedTask = some task)
    (left : ¬ (step.policy.retry.budget ≤ loop.attempts ∧
      (loop.usedFallback = false ∨ loop.fallbackAttempted = true)))
    (counted : executor.overflow.addOne loop.attempts = some attempts) :
    executor.turn run step dependencies loop = some
      (match executor.answer run step dependencies task attempts with
      | .ok output => .inr ((loop.attempt run.runId step attempts).success run.runId step output)
      | .error error => handleError run.runId step (loop.attempt run.runId step attempts) error) := by
  have unspent : (decide (step.policy.retry.budget ≤ loop.attempts) &&
      (!loop.usedFallback || loop.fallbackAttempted)) = false := by
    rw [Bool.eq_false_iff]
    simpa using left
  simp only [turn, registered, unspent, counted, answer, StepLoop.attempt, Bool.false_eq_true,
    if_false]
  split <;> simp only [*]

/-- Where the loop stands before a turn. -/
structure Live (executor : InMemoryExecutor) (run : RunRecord) (step : StepSpec)
    (dependencies : BTreeMap String Value) (loop : StepLoop) : Prop where
  primary : loop.usedFallback = false → loop.selectedTask = step.task ∧
    loop.fallbackAttempted = false ∧ loop.attempts < step.policy.retry.budget ∧
    (step.policy.fallbackTask ≠ none → ∀ task, executor.registry step.task = some task →
      executor.Fails run step dependencies task loop.attempts)
  fallback : loop.usedFallback = true → step.policy.fallbackTask = some loop.selectedTask
  countable : executor.overflow = .wraps ∨
    (loop.usedFallback = true → loop.fallbackAttempted = false →
      loop.attempts.toNat < UInt32.maxNat)

/-- The attempts and the stages that are left to the loop. -/
def remaining (loop : StepLoop) : Nat :=
  (if loop.usedFallback then if loop.fallbackAttempted then 0 else 1 else 2) *
    (UInt32.maxNat + 1) + (UInt32.maxNat - loop.attempts.toNat)

theorem Live.start : executor.Live run step dependencies (.start step) := by
  refine ⟨fun _ => ⟨rfl, rfl, ?_, fun _ task _ attempt other within => ?_⟩, fun used => ?_,
    .inr fun used => ?_⟩
  · exact UInt32.lt_iff_toNat_lt.mpr step.policy.retry.budget_pos
  · exact absurd (UInt32.le_zero_iff.mp within) other
  · cases used
  · cases used

/-- An attempt that fails extends the failed attempts before it. -/
theorem Fails.succ {task : Task} {attempts : UInt32} {error : TaskError}
    (before : executor.Fails run step dependencies task attempts)
    (counted : attempts.toNat < UInt32.maxNat)
    (answered : executor.answer run step dependencies task (attempts + 1) = .error error)
    (retried : attempts + 1 < step.policy.retry.budget → error.retryable = true) :
    executor.Fails run step dependencies task (attempts + 1) := by
  intro attempt other within
  have number := UInt32.toNat_add_one counted
  rw [UInt32.le_iff_toNat_le, number] at within
  obtain earlier | last := Nat.lt_or_eq_of_le within
  · exact before attempt other (UInt32.le_iff_toNat_le.mpr (Nat.le_of_lt_succ earlier))
  · obtain rfl : attempt = attempts + 1 := UInt32.toNat_inj.mp (last.trans number.symm)
    exact ⟨error, answered, retried⟩

/-- A turn on the step's own task. -/
theorem Live.turn_primary (live : executor.Live run step dependencies loop)
    (registered : executor.Registered step) (unused : loop.usedFallback = false)
    (fits : executor.overflow = .wraps ∨ ¬ executor.Exhausted run step dependencies) :
    ∃ outcome, executor.turn run step dependencies loop = some outcome ∧
      ∀ loop', outcome = .inl loop' →
        executor.Live run step dependencies loop' ∧ remaining loop' < remaining loop := by
  obtain ⟨own, untried, below, fails⟩ := live.primary unused
  obtain ⟨task, known⟩ := registered.task
  have bound := step.policy.retry.budget.toNat_le_maxNat
  have less := UInt32.lt_iff_toNat_lt.mp below
  have counted : loop.attempts.toNat < UInt32.maxNat := Nat.lt_of_lt_of_le less bound
  have number := UInt32.toNat_add_one counted
  have smaller :
      UInt32.maxNat - (loop.attempts + 1).toNat < UInt32.maxNat - loop.attempts.toNat := by
    omega
  have turned := executor.turn_of_attempt run dependencies
    (own ▸ known) (fun spent => absurd (UInt32.le_iff_toNat_le.mp spent.1) (Nat.not_le.mpr less))
    (if_neg (Nat.ne_of_lt counted))
  refine ⟨_, turned, ?_⟩
  cases answered : executor.answer run step dependencies task (loop.attempts + 1) with
  | ok output => exact fun loop' same => nomatch same
  | error error =>
      intro loop' same
      have handled := handleError_handled run.runId step
        (loop.attempt run.runId step (loop.attempts + 1)) error
      simp only at same
      rw [same] at handled
      cases handled with
      | retry retryable again =>
          refine ⟨⟨fun _ => ⟨own, ?_, again, fun alone other known' => ?_⟩, fun used => ?_,
            .inr fun used => ?_⟩, ?_⟩
          · simp only [StepLoop.retry, StepLoop.attempt, untried, unused, Bool.or_self]
          · obtain rfl := Option.some.inj (known.symm.trans known')
            exact (fails alone task known).succ counted answered fun _ => retryable
          · exact absurd unused (Bool.eq_false_iff.mp · used)
          · exact absurd unused (Bool.eq_false_iff.mp · used)
          · simpa only [remaining, StepLoop.retry, StepLoop.attempt, unused, Bool.false_eq_true,
              if_false, Nat.add_lt_add_iff_left] using smaller
      | fallback id _ selected _ =>
          refine ⟨⟨(fun unused => nomatch unused), fun _ => selected, ?_⟩, ?_⟩
          · refine fits.imp_right fun fits _ _ => ?_
            change (loop.attempts + 1).toNat < UInt32.maxNat
            refine Nat.lt_of_le_of_ne (UInt32.toNat_le_maxNat _) fun full => fits ?_
            have spent : step.policy.retry.budget = loop.attempts + 1 :=
              UInt32.toNat_inj.mp (by omega)
            have some : step.policy.fallbackTask ≠ none := by
              rw [selected]
              exact Option.some_ne_none id
            refine ⟨by rw [spent, full], some, task, known, ?_⟩
            rw [spent]
            refine (fails some task known).succ counted answered fun before => ?_
            rw [spent] at before
            exact absurd before (UInt32.lt_irrefl _)
          · simp only [remaining, StepLoop.fallback, StepLoop.attempt, unused, untried,
              Bool.or_self, if_true, Bool.false_eq_true, if_false]
            omega
      | again _ alone again =>
          refine ⟨⟨fun _ => ⟨own, ?_, again, fun some => absurd alone some⟩, fun used => ?_,
            .inr fun used => ?_⟩, ?_⟩
          · simp only [StepLoop.attempt, untried, unused, Bool.or_self]
          · exact absurd unused (Bool.eq_false_iff.mp · used)
          · exact absurd unused (Bool.eq_false_iff.mp · used)
          · simpa only [remaining, StepLoop.attempt, unused, Bool.false_eq_true,
              if_false, Nat.add_lt_add_iff_left] using smaller

/-- A turn on the fallback. -/
theorem Live.turn_fallback (live : executor.Live run step dependencies loop)
    (registered : executor.Registered step) (used : loop.usedFallback = true) :
    ∃ outcome, executor.turn run step dependencies loop = some outcome ∧
      ∀ loop', outcome = .inl loop' →
        executor.Live run step dependencies loop' ∧ remaining loop' < remaining loop := by
  have selected := live.fallback used
  obtain ⟨task, known⟩ := registered.fallback _ selected
  by_cases spent : step.policy.retry.budget ≤ loop.attempts ∧
      (loop.usedFallback = false ∨ loop.fallbackAttempted = true)
  · refine ⟨.inr (loop.failure run.runId step), ?_, fun loop' same => nomatch same⟩
    have stop : (decide (step.policy.retry.budget ≤ loop.attempts) &&
        (!loop.usedFallback || loop.fallbackAttempted)) = true := by simpa using spent
    simp only [turn, known, stop, if_true]
  · obtain ⟨attempts, counted, fewer⟩ : ∃ attempts,
        executor.overflow.addOne loop.attempts = some attempts ∧
          (loop.fallbackAttempted = true → attempts.toNat = loop.attempts.toNat + 1) := by
      by_cases full : loop.attempts.toNat = UInt32.maxNat
      · have untried : loop.fallbackAttempted = false := by
          rw [Bool.eq_false_iff]
          refine fun tried => spent ⟨UInt32.le_iff_toNat_le.mpr ?_, .inr tried⟩
          rw [full]
          exact step.policy.retry.budget.toNat_le_maxNat
        obtain wraps | below := live.countable
        · exact ⟨0, by rw [wraps, Overflow.addOne, if_pos full],
            fun tried => absurd untried (Bool.eq_false_iff.mp · tried)⟩
        · exact absurd full (Nat.ne_of_lt (below used untried))
      · exact ⟨_, if_neg full, fun _ => UInt32.toNat_add_one
          (Nat.lt_of_le_of_ne loop.attempts.toNat_le_maxNat full)⟩
    have turned := executor.turn_of_attempt run dependencies known spent counted
    refine ⟨_, turned, ?_⟩
    cases answered : executor.answer run step dependencies task attempts with
    | ok output => exact fun loop' same => nomatch same
    | error error =>
        intro loop' same
        have handled := handleError_handled run.runId step (loop.attempt run.runId step attempts)
          error
        simp only at same
        rw [same] at handled
        have tried : (loop.attempt run.runId step attempts).fallbackAttempted = true := by
          rw [StepLoop.attempt, used, Bool.or_true]
        cases handled with
        | retry retryable again =>
            refine ⟨⟨fun unused => ?_, fun _ => selected, .inr fun _ untried => ?_⟩, ?_⟩
            · exact absurd used (Bool.eq_false_iff.mp unused)
            · exact absurd tried (Bool.eq_false_iff.mp untried)
            · have width := loop.attempts.toNat_le_maxNat
              have width' := attempts.toNat_le_maxNat
              simp only [remaining, StepLoop.retry, StepLoop.attempt, used, Bool.or_true, if_true]
              cases before : loop.fallbackAttempted with
              | false =>
                  simp only [Bool.false_eq_true, if_false]
                  omega
              | true =>
                  have number := fewer before
                  simp only [if_true]
                  omega
        | fallback id unused => exact absurd used (Bool.eq_false_iff.mp unused)
        | again unused => exact absurd used (Bool.eq_false_iff.mp unused)

/-- The loop ends with as many turns as it has left, and one more. -/
theorem Live.ends (live : executor.Live run step dependencies loop)
    (registered : executor.Registered step)
    (fits : executor.overflow = .wraps ∨ ¬ executor.Exhausted run step dependencies) {fuel : Nat}
    (enough : remaining loop < fuel) :
    ∃ result, executor.stepLoop run step dependencies fuel loop = some result := by
  induction fuel generalizing loop with
  | zero => exact absurd enough (Nat.not_lt_zero _)
  | succ fuel ih =>
      obtain ⟨outcome, turned, goes⟩ : ∃ outcome,
          executor.turn run step dependencies loop = some outcome ∧ ∀ loop', outcome = .inl loop' →
            executor.Live run step dependencies loop' ∧ remaining loop' < remaining loop := by
        cases used : loop.usedFallback with
        | false => exact live.turn_primary registered used fits
        | true => exact live.turn_fallback registered used
      rw [stepLoop, turned]
      cases outcome with
      | inr result => exact ⟨result, rfl⟩
      | inl loop' =>
          obtain ⟨live', less⟩ := goes loop' rfl
          exact ih live' (Nat.lt_of_lt_of_le less (Nat.le_of_lt_succ enough))

/-- A step that does not exhaust the attempt counter comes to its end. -/
theorem executeStep_ends (registered : executor.Registered step)
    (fits : executor.overflow = .wraps ∨ ¬ executor.Exhausted run step dependencies) {fuel : Nat}
    (enough : 3 * (UInt32.maxNat + 1) < fuel) :
    ∃ result, executor.executeStep fuel run step dependencies = some result := by
  refine Live.start.ends registered fits (Nat.lt_of_le_of_lt ?_ enough)
  simp only [remaining, StepLoop.start, Bool.false_eq_true, if_false]
  omega

/-- More fuel changes nothing for a loop that came to its end. -/
theorem stepLoop_mono {fuel fuel' : Nat} {result : StepRunResult}
    (ended : executor.stepLoop run step dependencies fuel loop = some result)
    (more : fuel ≤ fuel') :
    executor.stepLoop run step dependencies fuel' loop = some result := by
  induction fuel generalizing loop fuel' with
  | zero => cases ended
  | succ fuel ih =>
      obtain ⟨fuel', rfl⟩ := Nat.exists_eq_add_of_lt more
      rw [stepLoop] at ended ⊢
      split at ended
      · cases ended
      · exact ih ended (by omega)
      · exact ended

/-- The loop ends in one way. -/
theorem executeStep_unique {fuel fuel' : Nat} {result result' : StepRunResult}
    (ended : executor.executeStep fuel run step dependencies = some result)
    (ended' : executor.executeStep fuel' run step dependencies = some result') :
    result = result' := by
  have left := stepLoop_mono ended (Nat.le_max_left fuel fuel')
  have right := stepLoop_mono ended' (Nat.le_max_right fuel fuel')
  exact Option.some.inj (left.symm.trans right)

/-- A result of the step: an output with a success, or an error with a failure. -/
structure Closes (step : StepSpec) (result : StepRunResult) : Prop where
  id : result.record.id = step.id
  status : (result.record.status = .succeeded ∧ result.record.output.isSome = true ∧
      result.record.error = none) ∨
    (result.record.status = .failed ∧ result.record.output = none ∧
      result.record.error.isSome = true)

theorem closes_failure (loop : StepLoop) (runId : RunId) (step : StepSpec) :
    Closes step (loop.failure runId step) := ⟨rfl, .inr ⟨rfl, rfl, rfl⟩⟩

/-- A turn that ends the loop leaves a result of the step. -/
theorem turn_closes {result : StepRunResult}
    (turned : executor.turn run step dependencies loop = some (.inr result)) :
    Closes step result := by
  simp only [turn] at turned
  split at turned
  · obtain rfl := Sum.inr.inj (Option.some.inj turned)
    exact closes_failure _ _ _
  next task registered =>
    split at turned
    · obtain rfl := Sum.inr.inj (Option.some.inj turned)
      exact closes_failure _ _ _
    · split at turned
      · cases turned
      next attempts counted =>
        split at turned
        · obtain rfl := Sum.inr.inj (Option.some.inj turned)
          exact ⟨rfl, .inl ⟨rfl, rfl, rfl⟩⟩
        next error answered =>
          have handled := handleError_handled run.runId step (loop.attempt run.runId step attempts)
            error
          rw [Option.some.inj turned] at handled
          cases handled
          exact closes_failure _ _ _

theorem executeStep_closes {fuel : Nat} {result : StepRunResult}
    (ended : executor.executeStep fuel run step dependencies = some result) :
    Closes step result := by
  rw [executeStep] at ended
  generalize StepLoop.start step = loop at ended
  induction fuel generalizing loop with
  | zero => cases ended
  | succ fuel ih =>
      rw [stepLoop] at ended
      split at ended
      · cases ended
      · exact ih _ ended
      next turned =>
        obtain rfl := Option.some.inj ended
        exact turn_closes turned

/-- Where an exhausted step is bound to overflow the attempt counter. -/
def Doomed (step : StepSpec) (loop : StepLoop) : Prop :=
  (loop.usedFallback = false ∧ loop.selectedTask = step.task ∧ loop.fallbackAttempted = false ∧
    loop.attempts < step.policy.retry.budget) ∨
  (loop.usedFallback = true ∧ step.policy.fallbackTask = some loop.selectedTask ∧
    loop.fallbackAttempted = false ∧ loop.attempts.toNat = UInt32.maxNat)

/-- An exhausted step never comes to its end where overflow panics. -/
theorem Exhausted.stuck (exhausted : executor.Exhausted run step dependencies)
    (registered : executor.Registered step) (checked : executor.overflow = .panics) (fuel : Nat) :
    executor.executeStep fuel run step dependencies = none := by
  have doomed : Doomed step (.start step) :=
    .inl ⟨rfl, rfl, rfl, UInt32.lt_iff_toNat_lt.mpr step.policy.retry.budget_pos⟩
  rw [executeStep]
  generalize StepLoop.start step = loop at doomed
  induction fuel generalizing loop with
  | zero => rfl
  | succ fuel ih =>
      rw [stepLoop]
      obtain ⟨unused, own, untried, below⟩ | ⟨used, selected, untried, full⟩ := doomed
      · obtain ⟨task, known, fails⟩ := exhausted.fails
        have less := UInt32.lt_iff_toNat_lt.mp below
        have counted : loop.attempts.toNat < UInt32.maxNat := exhausted.budget ▸ less
        have number := UInt32.toNat_add_one counted
        have within : loop.attempts + 1 ≤ step.policy.retry.budget :=
          UInt32.le_iff_toNat_le.mpr (number ▸ less)
        have other : loop.attempts + 1 ≠ 0 := by
          intro zero
          rw [zero] at number
          exact absurd number (Nat.succ_ne_zero _).symm
        obtain ⟨error, answered, retried⟩ := fails _ other within
        rw [executor.turn_of_attempt run dependencies (own ▸ known)
          (fun spent => absurd (UInt32.le_iff_toNat_le.mp spent.1) (Nat.not_le.mpr less))
          (if_neg (Nat.ne_of_lt counted)), answered]
        simp only []
        have handled := handleError_handled run.runId step
          (loop.attempt run.runId step (loop.attempts + 1)) error
        generalize handleError run.runId step
          (loop.attempt run.runId step (loop.attempts + 1)) error = outcome at handled
        cases handled with
        | retry retryable again =>
            refine ih _ (.inl ⟨unused, own, ?_, again⟩)
            simp only [StepLoop.retry, StepLoop.attempt, untried, unused, Bool.or_self]
        | fallback id _ chosen final =>
            refine ih _ (.inr ⟨rfl, chosen, ?_, ?_⟩)
            · simp only [StepLoop.fallback, StepLoop.attempt, untried, unused, Bool.or_self]
            · rw [← exhausted.budget]
              by_contra unspent
              have more : loop.attempts + 1 < step.policy.retry.budget :=
                UInt32.lt_iff_toNat_lt.mpr
                  (Nat.lt_of_le_of_ne (UInt32.le_iff_toNat_le.mp within) unspent)
              exact final ⟨retried more, more⟩
        | again _ alone => exact absurd alone exhausted.fallback
        | failed closed =>
            obtain used | alone := closed
            · exact absurd used (Bool.eq_false_iff.mp unused)
            · exact absurd alone exhausted.fallback
      · obtain ⟨task, known⟩ := registered.fallback _ selected
        have stop : (decide (step.policy.retry.budget ≤ loop.attempts) &&
            (!loop.usedFallback || loop.fallbackAttempted)) = false := by
          rw [used, untried]
          exact Bool.and_false _
        have overflow : executor.overflow.addOne loop.attempts = none := by
          rw [checked]
          exact if_pos full
        simp only [turn, known, stop, overflow, Bool.false_eq_true, if_false]

end Turns

end InMemoryExecutor

end Orchestrator
