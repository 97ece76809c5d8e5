import Orchestrator.Executor.Attempts
import Orchestrator.Model.Runtime

/-!
# The loop of the process-local executor

The loop of `execute_step` makes the attempts of `Attempts` as long as the two do
not part. Where they part over a permanent error, the loop makes another attempt.
-/

namespace Orchestrator

open Json (Value)

/-- The tasks of the step are registered and answer by the script, under the time
limit of the step. -/
def Scripted (registry : TaskRegistry) (script : Script) (step : StepSpec) : Prop :=
  ∀ id, (id = step.task ∨ step.policy.fallbackTask = some id) →
    ∃ task, registry id = some task ∧ ∀ (input : Value) (context : TaskContext),
      task.executeWithin step.policy.timeoutMs input context = script id context.attempt

theorem Standing.Stands.scripted {registry : TaskRegistry} {script : Script} {step : StepSpec}
    {p : Standing} (stands : p.Stands script step) (scripted : Scripted registry script step) :
    ∃ task, registry p.task = some task ∧ ∀ (input : Value) (context : TaskContext),
      task.executeWithin step.policy.timeoutMs input context = script p.task context.attempt := by
  refine scripted p.task ?_
  cases used : p.fallbackUsed with
  | false => exact .inl (stands.primary used).1
  | true => exact .inr (stands.fallback used).1

/-- The variables of the loop where the machine stands; `tried` tells whether the
fallback has been attempted. -/
def Standing.loop (p : Standing) (tried : Bool) : StepLoop :=
  { selectedTask := p.task, usedFallback := p.fallbackUsed, fallbackAttempted := tried
    attempts := p.attempts, lastError := p.error, events := p.events }

/-- The result of the loop for an ending of the machine. -/
def Ending.result (e : Ending) (step : StepSpec) : StepRunResult :=
  { record :=
      { id := step.id, task := e.task, status := e.status, attempts := e.attempts
        output := e.output, error := e.error, fallbackUsed := e.fallbackUsed, lease := none
        history := [], artifacts := [], nextAttemptAtMs := none }
    events := e.events }

/-- A fallback just selected has not been attempted. -/
def Standing.Fresh (p : Standing) (step : StepSpec) (tried : Bool) : Prop :=
  p.fallbackUsed = false ∨ p.attempts = step.policy.retry.budget → tried = false

namespace InMemoryExecutor

variable {executor : InMemoryExecutor} {run : RunRecord} {step : StepSpec}
  {dependencies : BTreeMap String Value} {script : Script} {p p' : Standing} {tried : Bool}

/-- A turn that makes an attempt. -/
theorem turn_of_open (loop : StepLoop) {task : Task}
    (registered : executor.registry loop.selectedTask = some task)
    (answers : ∀ input context, task.executeWithin step.policy.timeoutMs input context =
      script loop.selectedTask context.attempt)
    (left : loop.attempts.toNat < step.policy.retry.budget.toNat ∨
      loop.usedFallback = true ∧ loop.fallbackAttempted = false)
    (counted : loop.attempts.toNat < UInt32.maxNat) :
    executor.turn run step dependencies loop = some
      (match script loop.selectedTask (loop.attempts + 1) with
      | .ok output => .inr ((loop.attempt run.runId step (loop.attempts + 1)).success run.runId step
          output)
      | .error error => handleError run.runId step
          (loop.attempt run.runId step (loop.attempts + 1)) error) := by
  have spent : (decide (step.policy.retry.budget ≤ loop.attempts) &&
      (!loop.usedFallback || loop.fallbackAttempted)) = false := by
    obtain below | ⟨used, fresh⟩ := left
    · have less : ¬ step.policy.retry.budget ≤ loop.attempts := by
        rw [UInt32.le_iff_toNat_le]
        omega
      simp [less]
    · simp [used, fresh]
  have next : executor.overflow.addOne loop.attempts = some (loop.attempts + 1) :=
    if_neg (Nat.ne_of_lt counted)
  simp only [turn, registered, spent, next, answers, StepLoop.attempt, Bool.false_eq_true, if_false]
  cases script loop.selectedTask (loop.attempts + 1) <;> rfl

/-- The turn that makes the machine's next attempt. -/
theorem turn_of_stands (scripted : Scripted executor.registry script step)
    (stands : p.Stands script step) (fresh : p.Fresh step tried)
    (counted : p.attempts.toNat < UInt32.maxNat) :
    executor.turn run step dependencies (p.loop tried) = some
      (match script p.task (p.attempts + 1) with
      | .ok output => .inr (((p.loop tried).attempt run.runId step (p.attempts + 1)).success
          run.runId step output)
      | .error error => handleError run.runId step
          ((p.loop tried).attempt run.runId step (p.attempts + 1)) error) := by
  obtain ⟨task, registered, answers⟩ := stands.scripted scripted
  exact turn_of_open (p.loop tried) registered answers
    (stands.left.imp_right fun ⟨used, spent⟩ => ⟨used, fresh (.inr spent)⟩) counted

section Errors

variable {runId : RunId} {loop : StepLoop} {error : TaskError}

theorem handleError_retry (retryable : error.retryable = true)
    (below : loop.attempts < step.policy.retry.budget) :
    handleError runId step loop error = .inl (loop.retry runId step error) := by
  simp [handleError, retryable, below]

theorem handleError_fallback {task : TaskId}
    (final : ¬ (error.retryable = true ∧ loop.attempts < step.policy.retry.budget))
    (unused : loop.usedFallback = false) (selected : step.policy.fallbackTask = some task) :
    handleError runId step loop error =
      .inl ({ loop with lastError := some error.message }.fallback runId step task) := by
  have stop : (error.retryable && decide (loop.attempts < step.policy.retry.budget)) = false := by
    rw [Bool.eq_false_iff]
    simpa using final
  simp [handleError, stop, unused, selected]

theorem handleError_alone (loop : StepLoop)
    (final : ¬ (error.retryable = true ∧ loop.attempts < step.policy.retry.budget))
    (unselected : (if loop.usedFallback then none else step.policy.fallbackTask) = none) :
    handleError runId step loop error =
      if loop.usedFallback = true ∨ step.policy.retry.budget ≤ loop.attempts then
        .inr ({ loop with lastError := some error.message }.failure runId step)
      else .inl { loop with lastError := some error.message } := by
  have stop : (error.retryable && decide (loop.attempts < step.policy.retry.budget)) = false := by
    rw [Bool.eq_false_iff]
    simpa using final
  simp [handleError, stop, unselected]

/-- Without a fallback an error keeps the attempts, whether it ends the loop or not. -/
theorem handleError_attempts (runId : RunId) (loop : StepLoop) (error : TaskError)
    (alone : step.policy.fallbackTask = none) (unused : loop.usedFallback = false) :
    (∃ next, handleError runId step loop error = .inl next ∧ next.attempts = loop.attempts ∧
      next.selectedTask = loop.selectedTask ∧ next.usedFallback = false) ∨
    ∃ result, handleError runId step loop error = .inr result ∧
      result.record.attempts = loop.attempts := by
  by_cases again : error.retryable = true ∧ loop.attempts < step.policy.retry.budget
  · exact .inl ⟨_, handleError_retry again.1 again.2, rfl, rfl, unused⟩
  · rw [handleError_alone loop again (by rw [alone, ite_self])]
    split
    · exact .inr ⟨_, rfl, rfl⟩
    · exact .inl ⟨_, rfl, rfl, rfl, unused⟩

end Errors

/-- Where the machine goes on, so does the loop. -/
theorem turn_inl (dependencies : BTreeMap String Value)
    (scripted : Scripted executor.registry script step)
    (stands : p.Stands script step) (fresh : p.Fresh step tried)
    (counted : p.attempts.toNat < UInt32.maxNat)
    (attempted : p.attempt script run.runId step = .inl p') :
    ∃ tried', p'.Fresh step tried' ∧
      executor.turn run step dependencies (p.loop tried) = some (.inl (p'.loop tried')) := by
  rw [turn_of_stands scripted stands fresh counted]
  obtain ⟨error, answered, ⟨retryable, below, rfl⟩ | ⟨final, unused, task, selected, rfl⟩⟩ :=
    Standing.attempt_inl attempted
  · refine ⟨tried || p.fallbackUsed, ?_, ?_⟩
    · rintro (unused | spent)
      · rw [fresh (.inl unused), Bool.false_or]
        exact unused
      · simp only [Standing.retry] at spent
        rw [spent] at below
        exact absurd below (UInt32.lt_irrefl _)
    · simp only [answered]
      rw [handleError_retry retryable below]
      rfl
  · refine ⟨false, fun _ => rfl, ?_⟩
    simp only [answered]
    rw [handleError_fallback final unused selected, Standing.loop, fresh (.inl unused)]
    simp only [StepLoop.attempt, StepLoop.fallback, unused, Bool.or_self]
    rfl

/-- Where the machine ends, so does the loop, unless they part. -/
theorem turn_inr {e : Ending} (scripted : Scripted executor.registry script step)
    (stands : p.Stands script step) (fresh : p.Fresh step tried)
    (together : ¬ p.Departs script step)
    (attempted : p.attempt script run.runId step = .inr e) :
    executor.turn run step dependencies (p.loop tried) = some (.inr (e.result step)) := by
  have bound := p.attempts.toNat_le_maxNat
  have counted : p.attempts.toNat < UInt32.maxNat :=
    Nat.lt_of_le_of_ne bound fun full => together (.inr full)
  rw [turn_of_stands scripted stands fresh counted]
  obtain ⟨output, answered, rfl⟩ | ⟨error, answered, final, unselected, rfl⟩ :=
    Standing.attempt_inr attempted
  · simp only [answered]
    rfl
  · have terminal : p.fallbackUsed = true ∨ step.policy.retry.budget ≤ p.attempts + 1 := by
      have next := UInt32.toNat_add_one counted
      cases used : p.fallbackUsed with
      | true => exact .inl rfl
      | false =>
          rw [Standing.unusedFallback, used] at unselected
          refine .inr (UInt32.le_iff_toNat_le.mpr ?_)
          by_contra more
          refine together (.inl ⟨used, unselected, by omega, error, answered, ?_⟩)
          rw [Bool.eq_false_iff]
          intro retryable
          refine final ⟨retryable, ?_⟩
          rw [UInt32.lt_iff_toNat_lt]
          omega
    simp only [answered]
    rw [handleError_alone ((p.loop tried).attempt run.runId step (p.attempts + 1)) final
      unselected]
    exact congrArg some (if_pos terminal)

/-- Where they part over an error, the loop makes an attempt that leaves no trace
of the error but its message. -/
theorem turn_departs (scripted : Scripted executor.registry script step)
    (stands : p.Stands script step) (fresh : p.Fresh step tried)
    (unused : p.fallbackUsed = false) (alone : step.policy.fallbackTask = none)
    (below : p.attempts.toNat + 1 < step.policy.retry.budget.toNat) {error : TaskError}
    (answered : script p.task (p.attempts + 1) = .error error)
    (permanent : error.retryable = false) :
    executor.turn run step dependencies (p.loop tried) = some (.inl
      { (p.loop tried).attempt run.runId step (p.attempts + 1) with
        lastError := some error.message }) := by
  have bound := step.policy.retry.budget.toNat_le_maxNat
  have counted : p.attempts.toNat < UInt32.maxNat := by omega
  have next := UInt32.toNat_add_one counted
  have open_ : ¬ (p.fallbackUsed = true ∨ step.policy.retry.budget ≤ p.attempts + 1) := by
    rw [unused, UInt32.le_iff_toNat_le]
    simp only [Bool.false_eq_true, false_or]
    omega
  rw [turn_of_stands scripted stands fresh counted]
  simp only [answered]
  rw [handleError_alone _ (by rw [permanent]; simp) (by rw [alone, ite_self])]
  exact congrArg some (if_neg open_)

/-- From an unused loop without a fallback, the attempts only grow, and at least by
one where the budget allows it. -/
theorem stepLoop_grows (scripted : Scripted executor.registry script step)
    (alone : step.policy.fallbackTask = none) {fuel : Nat} {loop : StepLoop}
    {result : StepRunResult} (own : loop.selectedTask = step.task)
    (unused : loop.usedFallback = false)
    (most : loop.attempts.toNat ≤ step.policy.retry.budget.toNat)
    (ended : executor.stepLoop run step dependencies fuel loop = some result) :
    loop.attempts.toNat ≤ result.record.attempts.toNat ∧
      (loop.attempts.toNat < step.policy.retry.budget.toNat →
        loop.attempts.toNat < result.record.attempts.toNat) := by
  induction fuel generalizing loop with
  | zero => cases ended
  | succ fuel ih =>
      have bound := step.policy.retry.budget.toNat_le_maxNat
      obtain ⟨task, registered, answers⟩ := scripted step.task (.inl rfl)
      rw [← own] at registered answers
      rw [stepLoop] at ended
      obtain below | spent := Nat.lt_or_eq_of_le most
      · have counted : loop.attempts.toNat < UInt32.maxNat := by omega
        have number := UInt32.toNat_add_one counted
        rw [turn_of_open loop registered answers (.inl below) counted] at ended
        cases answered : script loop.selectedTask (loop.attempts + 1) with
        | ok output =>
            simp only [answered, Option.some.injEq] at ended
            subst ended
            simp only [StepLoop.success, StepLoop.attempt, number]
            omega
        | error error =>
            simp only [answered] at ended
            obtain ⟨next, handled, attempts, same, still⟩ | ⟨last, handled, attempts⟩ :=
              handleError_attempts run.runId (loop.attempt run.runId step (loop.attempts + 1))
                error alone unused
            · rw [handled] at ended
              have kept : next.attempts.toNat = loop.attempts.toNat + 1 := by
                rw [attempts, ← number]
                rfl
              have grown := (ih (same.trans own) still (by omega) ended).1
              omega
            · rw [handled] at ended
              obtain rfl := Option.some.inj ended
              rw [attempts]
              simp only [StepLoop.attempt, number]
              omega
      · have full : step.policy.retry.budget ≤ loop.attempts :=
          UInt32.le_iff_toNat_le.mpr (Nat.le_of_eq spent.symm)
        simp only [turn, registered, full, unused, decide_true, Bool.not_false, Bool.true_or,
          Bool.and_self, if_true, Option.some.injEq] at ended
        subst ended
        simp only [StepLoop.failure]
        omega

/-- A loop that ends passes where the machine stands. -/
theorem stepLoop_passes (scripted : Scripted executor.registry script step)
    (reached : p.Reached script run.runId step) {fuel : Nat} {result : StepRunResult}
    (ended : executor.stepLoop run step dependencies fuel (.start step) = some result) :
    ∃ fuel' tried, p.Fresh step tried ∧
      executor.stepLoop run step dependencies fuel' (p.loop tried) = some result := by
  induction reached with
  | start => exact ⟨fuel, false, fun _ => rfl, ended⟩
  | @next p p' before counted attempted ih =>
      obtain ⟨fuel', tried, fresh, ended⟩ := ih
      obtain ⟨tried', fresh', turned⟩ :=
        turn_inl dependencies scripted before.stands fresh counted attempted
      cases fuel' with
      | zero => cases ended
      | succ fuel' =>
          rw [stepLoop, turned] at ended
          exact ⟨fuel', tried', fresh', ended⟩

/-- After the executors part over an error, the loop ends with more attempts. -/
theorem stepLoop_departs (scripted : Scripted executor.registry script step)
    (reached : p.Reached script run.runId step) (unused : p.fallbackUsed = false)
    (alone : step.policy.fallbackTask = none)
    (below : p.attempts.toNat + 1 < step.policy.retry.budget.toNat) {error : TaskError}
    (answered : script p.task (p.attempts + 1) = .error error)
    (permanent : error.retryable = false) {fuel : Nat} {result : StepRunResult}
    (ended : executor.stepLoop run step dependencies fuel (.start step) = some result) :
    p.attempts.toNat + 1 < result.record.attempts.toNat := by
  have stands := reached.stands
  have bound := step.policy.retry.budget.toNat_le_maxNat
  have counted : p.attempts.toNat < UInt32.maxNat := by omega
  have number := UInt32.toNat_add_one counted
  obtain ⟨fuel', tried, fresh, ended⟩ := stepLoop_passes scripted reached ended
  cases fuel' with
  | zero => cases ended
  | succ fuel' =>
      rw [stepLoop, turn_departs scripted stands fresh unused alone below answered permanent]
        at ended
      have grown := (stepLoop_grows scripted alone (stands.primary unused).1 unused
        (Nat.le_of_lt (number ▸ below)) ended).2 (number ▸ below)
      exact number ▸ grown

/-- Where the executors stay together, the loop comes to the ending of the machine. -/
theorem stepLoop_leads (dependencies : BTreeMap String Value) (tried : Bool)
    (scripted : Scripted executor.registry script step)
    (together : ∀ p : Standing, p.Reached script run.runId step → ¬ p.Departs script step)
    {e : Ending} (leads : p.Leads script run.runId step e)
    (reached : p.Reached script run.runId step) (fresh : p.Fresh step tried) :
    ∃ fuel, executor.stepLoop run step dependencies fuel (p.loop tried) = some (e.result step) := by
  induction leads generalizing tried with
  | last attempted =>
      refine ⟨1, ?_⟩
      rw [stepLoop, turn_inr scripted reached.stands fresh (together _ reached) attempted]
  | @next p p' e attempted rest ih =>
      have counted : p.attempts.toNat < UInt32.maxNat :=
        Nat.lt_of_le_of_ne p.attempts.toNat_le_maxNat fun full => together p reached (.inr full)
      obtain ⟨tried', fresh', turned⟩ :=
        turn_inl dependencies scripted reached.stands fresh counted attempted
      obtain ⟨fuel, ended⟩ := ih tried' (.next reached counted attempted) fresh'
      exact ⟨fuel + 1, by rw [stepLoop, turned]; exact ended⟩

end InMemoryExecutor

end Orchestrator
