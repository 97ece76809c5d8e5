import Orchestrator.Executor.Agreement
import Orchestrator.Executor.Termination

/-!
# Errors that are not retried

The executions that the loop of a step makes, in order. A task that answered by an
error that is not to be retried is executed no more, and every start after the first
is announced, on every step but one without a fallback that meets such an error
before its last attempt: there the loop goes round without an event.
-/

namespace Orchestrator

open Json (Value)

/-- One execution of a task by the loop of a step. -/
structure TaskExecution where
  task : TaskId
  fallback : Bool
  attempt : UInt32
  answer : Except TaskError Value

/-- The execution was answered by an error that is not to be retried. -/
def TaskExecution.Permanent (execution : TaskExecution) : Prop :=
  ∃ error, execution.answer = .error error ∧ error.retryable = false

/-- After a permanent error only the configured fallback is executed, and nothing after
one of the fallback itself. -/
def TaskExecution.Allows (step : StepSpec) (earlier later : TaskExecution) : Prop :=
  earlier.Permanent → earlier.fallback = false ∧ later.fallback = true ∧
    step.policy.fallbackTask = some later.task

namespace ExecutionEvent

/-- A `StepStarted` event. -/
def starts : ExecutionEvent → Bool
  | .stepStarted .. => true
  | _ => false

/-- A `StepRetrying` or a `StepFallbackSelected` event. -/
def announces : ExecutionEvent → Bool
  | .stepRetrying .. => true
  | .stepFallbackSelected .. => true
  | _ => false

end ExecutionEvent

/-- The last event announces another execution. -/
def Announcing (events : List ExecutionEvent) : Prop :=
  ∃ last, events.getLast? = some last ∧ last.announces = true

/-- Every start after the first comes right after an event that announces it. -/
def Announced (events : List ExecutionEvent) : Prop :=
  ∀ before event after, events = before ++ event :: after → event.starts = true →
    (∀ earlier ∈ before, earlier.starts = false) ∨ Announcing before

theorem announced_nil : Announced [] := by
  intro before event after split
  exact absurd split (by simp)

theorem announcing_append (events : List ExecutionEvent) {event : ExecutionEvent}
    (announces : event.announces = true) : Announcing (events ++ [event]) :=
  ⟨event, List.getLast?_concat, announces⟩

theorem Announced.append {events : List ExecutionEvent} (h : Announced events)
    {event : ExecutionEvent} (ready : event.starts = true → events = [] ∨ Announcing events) :
    Announced (events ++ [event]) := by
  intro before other after split starts
  obtain rfl | ⟨after, last, rfl⟩ := List.eq_nil_or_concat after
  · obtain ⟨rfl, same⟩ := List.append_inj' split rfl
    obtain rfl : event = other := List.head_eq_of_cons_eq same
    refine (ready starts).imp_left fun none earlier member => ?_
    rw [none] at member
    cases member
  · rw [List.concat_eq_append, ← List.cons_append, ← List.append_assoc] at split
    exact h before other after (List.append_inj' split rfl).1 starts

namespace InMemoryExecutor

section Trace

variable (executor : InMemoryExecutor) (run : RunRecord) (step : StepSpec)
  (dependencies : BTreeMap String Value)

/-- The execution that the next turn of the loop makes. -/
def taskExecution (loop : StepLoop) : Option TaskExecution :=
  match executor.registry loop.selectedTask with
  | none => none
  | some task =>
    if decide (step.policy.retry.budget ≤ loop.attempts) &&
        (!loop.usedFallback || loop.fallbackAttempted) then none
    else
      (executor.overflow.addOne loop.attempts).map fun attempt =>
        ⟨loop.selectedTask, loop.usedFallback, attempt,
          executor.answer run step dependencies task attempt⟩

/-- The executions of the loop, in order, in as many turns as there is fuel. -/
def taskExecutions : Nat → StepLoop → List TaskExecution
  | 0, _ => []
  | fuel + 1, loop =>
    (executor.taskExecution run step dependencies loop).toList ++
      match executor.turn run step dependencies loop with
      | some (.inl loop) => taskExecutions fuel loop
      | _ => []

/-- The events after as many turns as there is fuel. -/
def logged : Nat → StepLoop → List ExecutionEvent
  | 0, loop => loop.events
  | fuel + 1, loop =>
    match executor.turn run step dependencies loop with
    | none => loop.events
    | some (.inl loop) => logged fuel loop
    | some (.inr result) => result.events

/-- The step has no fallback, and its task answers by a permanent error before the last
attempt, all attempts before this one by errors that are retried. -/
structure PermanentEarly : Prop where
  alone : step.policy.fallbackTask = none
  early : ∃ task, executor.registry step.task = some task ∧ ∃ attempt : UInt32,
    0 < attempt ∧ attempt < step.policy.retry.budget ∧
      Retried (fun _ => executor.answer run step dependencies task) step.task attempt ∧
      ∃ error, executor.answer run step dependencies task attempt = .error error ∧
        error.retryable = false

end Trace

variable {executor : InMemoryExecutor} {run : RunRecord} {step : StepSpec}
  {dependencies : BTreeMap String Value} {loop loop' : StepLoop}

/-- What is logged when a step has come to its end are its events. -/
theorem logged_of_stepLoop {fuel : Nat} {result : StepRunResult}
    (ended : executor.stepLoop run step dependencies fuel loop = some result) :
    executor.logged run step dependencies fuel loop = result.events := by
  induction fuel generalizing loop with
  | zero => cases ended
  | succ fuel ih =>
      rw [stepLoop] at ended
      rw [logged]
      cases turned : executor.turn run step dependencies loop with
      | none =>
          rw [turned] at ended
          cases ended
      | some next =>
          rw [turned] at ended
          cases next with
          | inl loop' => exact ih ended
          | inr result' => exact congrArg StepRunResult.events (Option.some.inj ended)

/-- A turn that executes nothing is the last. -/
theorem turn_of_idle (idle : executor.taskExecution run step dependencies loop = none) :
    executor.turn run step dependencies loop = none ∨ ∃ result event,
      executor.turn run step dependencies loop = some (.inr result) ∧
        result.events = loop.events ++ [event] ∧ event.starts = false := by
  unfold taskExecution at idle
  unfold turn
  cases registered : executor.registry loop.selectedTask with
  | none => exact .inr ⟨_, _, rfl, rfl, rfl⟩
  | some task =>
      rw [registered] at idle
      simp only at idle ⊢
      split at idle
      next spent =>
        rw [if_pos spent]
        exact .inr ⟨_, _, rfl, rfl, rfl⟩
      next left =>
        rw [Option.map_eq_none_iff] at idle
        rw [if_neg left, idle]
        exact .inl rfl

/-- What a turn that makes an execution comes to. -/
structure Executes (executor : InMemoryExecutor) (run : RunRecord) (step : StepSpec)
    (dependencies : BTreeMap String Value) (loop : StepLoop) (execution : TaskExecution) :
    Prop where
  task : execution.task = loop.selectedTask
  fallback : execution.fallback = loop.usedFallback
  counted : executor.overflow.addOne loop.attempts = some execution.attempt
  answered : ∃ task, executor.registry loop.selectedTask = some task ∧
    execution.answer = executor.answer run step dependencies task execution.attempt
  succeeds : ∀ output, execution.answer = .ok output →
    executor.turn run step dependencies loop = some (.inr
      ((loop.attempt run.runId step execution.attempt).success run.runId step output))
  fails : ∀ error, execution.answer = .error error →
    executor.turn run step dependencies loop = some
      (handleError run.runId step (loop.attempt run.runId step execution.attempt) error)

theorem executes_of_taskExecution {execution : TaskExecution}
    (executed : executor.taskExecution run step dependencies loop = some execution) :
    executor.Executes run step dependencies loop execution := by
  unfold InMemoryExecutor.taskExecution at executed
  split at executed
  · cases executed
  next task registered =>
    split at executed
    · cases executed
    next left =>
      rw [Option.map_eq_some_iff] at executed
      obtain ⟨attempt, counted, rfl⟩ := executed
      have turned := executor.turn_of_attempt run dependencies registered
        (by simpa using left) counted
      refine ⟨rfl, rfl, counted, ⟨task, registered, rfl⟩, fun output answer => ?_,
        fun error answer => ?_⟩
      · simp only at answer
        rw [turned, answer]
      · simp only at answer
        rw [turned, answer]

/-- An error that is retried. -/
theorem handleError_of_retryable (runId : RunId) (step : StepSpec) {error : TaskError}
    (retryable : error.retryable = true) (below : loop.attempts < step.policy.retry.budget) :
    handleError runId step loop error = .inl (loop.retry runId step error) := by
  simp only [handleError, retryable, below, decide_true, Bool.and_self, if_true]

/-- The executions from a turn on that goes on. -/
theorem taskExecutions_of_turn {fuel : Nat} {execution : TaskExecution}
    (executed : executor.taskExecution run step dependencies loop = some execution)
    (turned : executor.turn run step dependencies loop = some (.inl loop')) :
    executor.taskExecutions run step dependencies (fuel + 1) loop =
      execution :: executor.taskExecutions run step dependencies fuel loop' := by
  rw [taskExecutions, executed, turned]
  rfl

theorem mem_taskExecutions {execution : TaskExecution}
    (executed : executor.taskExecution run step dependencies loop = some execution) (fuel : Nat) :
    execution ∈ executor.taskExecutions run step dependencies (fuel + 1) loop := by
  rw [taskExecutions, executed]
  exact List.mem_append_left _ (List.mem_singleton_self _)

/-- The fallback stays selected. -/
theorem turn_of_usedFallback (used : loop.usedFallback = true)
    (turned : executor.turn run step dependencies loop = some (.inl loop')) :
    loop'.usedFallback = true ∧ loop'.selectedTask = loop.selectedTask := by
  cases executed : executor.taskExecution run step dependencies loop with
  | none =>
      obtain absent | ⟨result, event, last, -⟩ := turn_of_idle executed
      · rw [absent] at turned
        cases turned
      · rw [last] at turned
        cases turned
  | some execution =>
      have executes := executes_of_taskExecution executed
      cases answered : execution.answer with
      | ok output =>
          rw [executes.succeeds output answered] at turned
          cases turned
      | error error =>
          have handled := handleError_handled run.runId step
            (loop.attempt run.runId step execution.attempt) error
          rw [executes.fails error answered, Option.some.injEq] at turned
          rw [turned] at handled
          cases handled with
          | retry => exact ⟨used, rfl⟩
          | fallback task unused => exact absurd used (Bool.eq_false_iff.mp unused)
          | again => exact ⟨used, rfl⟩

/-- Once the fallback is selected, only it is executed. -/
theorem taskExecutions_of_usedFallback {fuel : Nat} (used : loop.usedFallback = true)
    (selected : step.policy.fallbackTask = some loop.selectedTask) :
    ∀ execution ∈ executor.taskExecutions run step dependencies fuel loop,
      execution.fallback = true ∧ step.policy.fallbackTask = some execution.task := by
  induction fuel generalizing loop with
  | zero => exact fun execution member => absurd member List.not_mem_nil
  | succ fuel ih =>
      intro execution member
      rw [taskExecutions, List.mem_append, Option.mem_toList] at member
      obtain own | later := member
      · have executes := executes_of_taskExecution own
        exact ⟨executes.fallback.trans used, executes.task ▸ selected⟩
      · split at later
        next loop' turned =>
          obtain ⟨used', same⟩ := turn_of_usedFallback used turned
          exact ih used' (same ▸ selected) execution later
        · cases later

/-- Where the loop stands before a turn. -/
structure Steady (executor : InMemoryExecutor) (run : RunRecord) (step : StepSpec)
    (dependencies : BTreeMap String Value) (loop : StepLoop) : Prop where
  announced : Announced loop.events
  ready : loop.events = [] ∨ Announcing loop.events
  primary : loop.usedFallback = false → loop.selectedTask = step.task ∧
    loop.attempts < step.policy.retry.budget ∧
    ∀ task, executor.registry step.task = some task → ∀ attempt : UInt32,
      attempt.toNat = loop.attempts.toNat + 1 →
        Retried (fun _ => executor.answer run step dependencies task) step.task attempt
  fallback : loop.usedFallback = true → step.policy.fallbackTask = some loop.selectedTask

theorem Steady.start : executor.Steady run step dependencies (.start step) := by
  refine ⟨announced_nil, .inl rfl, fun _ => ⟨rfl, ?_, fun _ _ attempt first earlier positive
    before => ?_⟩, fun used => by cases used⟩
  · exact UInt32.lt_iff_toNat_lt.mpr step.policy.retry.budget_pos
  · rw [UInt32.lt_iff_toNat_lt] at positive before
    simp only [StepLoop.start, UInt32.toNat_zero] at first positive
    omega

/-- The attempt after one of the step's own task. -/
theorem Steady.counted (h : executor.Steady run step dependencies loop)
    (unused : loop.usedFallback = false) {attempt : UInt32}
    (next : executor.overflow.addOne loop.attempts = some attempt) :
    attempt = loop.attempts + 1 ∧ attempt.toNat = loop.attempts.toNat + 1 := by
  have below := UInt32.lt_iff_toNat_lt.mp (h.primary unused).2.1
  have bound := step.policy.retry.budget.toNat_le_maxNat
  have room : loop.attempts.toNat < UInt32.maxNat := by omega
  have same := (if_neg (Nat.ne_of_lt room)).symm.trans next
  obtain rfl := Option.some.inj same
  exact ⟨rfl, UInt32.toNat_add_one room⟩

/-- A turn that executes a task ends the loop, or goes on with its next execution
announced; after a permanent error only with the fallback. -/
theorem Steady.turn (patient : ¬ executor.PermanentEarly run step dependencies)
    (h : executor.Steady run step dependencies loop) {execution : TaskExecution}
    (executed : executor.taskExecution run step dependencies loop = some execution) :
    (∃ result, executor.turn run step dependencies loop = some (.inr result) ∧
        Announced result.events) ∨
      ∃ loop', executor.turn run step dependencies loop = some (.inl loop') ∧
        executor.Steady run step dependencies loop' ∧
        (execution.Permanent → execution.fallback = false ∧ loop'.usedFallback = true) := by
  have executes := executes_of_taskExecution executed
  obtain ⟨task, registered, answer⟩ := executes.answered
  have started : Announced (loop.attempt run.runId step execution.attempt).events :=
    h.announced.append fun _ => h.ready
  cases answered : execution.answer with
  | ok output =>
      refine .inl ⟨_, executes.succeeds output answered, ?_⟩
      exact started.append fun starts => nomatch starts
  | error error =>
      have turned := executes.fails error answered
      by_cases again : error.retryable = true ∧ execution.attempt < step.policy.retry.budget
      · rw [handleError_of_retryable run.runId step again.1 again.2] at turned
        refine .inr ⟨_, turned, ⟨started.append fun starts => (nomatch starts),
          .inr (announcing_append _ rfl), fun unused => ?_, h.fallback⟩, ?_⟩
        · obtain ⟨own, -, retried⟩ := h.primary unused
          obtain ⟨number, count⟩ := h.counted unused executes.counted
          refine ⟨own, again.2, fun task' known attempt next => ?_⟩
          obtain rfl := Option.some.inj (registered.symm.trans ((congrArg _ own).trans known))
          have failed : executor.answer run step dependencies task (loop.attempts + 1) =
              .error error := by
            rw [← number, ← answer, answered]
          exact Standing.retried_next (retried task known _ (number ▸ count)) failed again.1
            (number ▸ next)
        · rintro ⟨error', same, permanent⟩
          obtain rfl := Except.error.inj (answered.symm.trans same)
          exact absurd permanent (by rw [again.1]; exact Bool.noConfusion)
      · have handled := handleError_handled run.runId step
          (loop.attempt run.runId step execution.attempt) error
        generalize handleError run.runId step (loop.attempt run.runId step execution.attempt)
          error = outcome at turned handled
        cases handled with
        | retry retryable below => exact absurd ⟨retryable, below⟩ again
        | fallback id unused selected _ =>
            refine .inr ⟨_, turned, ⟨started.append fun starts => (nomatch starts),
              .inr (announcing_append _ rfl), fun unused => (nomatch unused), fun _ => selected⟩,
              fun _ => ⟨executes.fallback.trans unused, rfl⟩⟩
        | again unused alone below =>
            -- the loop goes round without an event, against the assumption
            refine absurd ?_ patient
            obtain ⟨own, -, retried⟩ := h.primary unused
            obtain ⟨number, count⟩ := h.counted unused executes.counted
            have known : executor.registry step.task = some task := own ▸ registered
            refine ⟨alone, task, known, execution.attempt, ?_, below, retried task known _ count,
              error, answer ▸ answered, ?_⟩
            · rw [UInt32.lt_iff_toNat_lt, count]
              exact Nat.succ_pos _
            · exact Bool.eq_false_iff.mpr fun retryable => again ⟨retryable, below⟩
        | failed _ => exact .inl ⟨_, turned, started.append fun starts => (nomatch starts)⟩

/-- On every other step, what is executed and logged from a steady loop on obeys. -/
theorem Steady.obeys (patient : ¬ executor.PermanentEarly run step dependencies)
    (h : executor.Steady run step dependencies loop) (fuel : Nat) :
    (executor.taskExecutions run step dependencies fuel loop).Pairwise (TaskExecution.Allows step) ∧
      Announced (executor.logged run step dependencies fuel loop) := by
  induction fuel generalizing loop with
  | zero => exact ⟨.nil, h.announced⟩
  | succ fuel ih =>
      rw [taskExecutions, logged]
      cases executed : executor.taskExecution run step dependencies loop with
      | none =>
          obtain absent | ⟨result, event, ended, events, other⟩ := turn_of_idle executed
          · rw [absent]
            exact ⟨.nil, h.announced⟩
          · rw [ended]
            refine ⟨.nil, ?_⟩
            simp only [events]
            exact h.announced.append fun starts => by rw [other] at starts; cases starts
      | some execution =>
          obtain ⟨result, ended, announced⟩ | ⟨loop', turned, steady, permanent⟩ :=
            h.turn patient executed
          · rw [ended]
            exact ⟨List.pairwise_singleton _ _, announced⟩
          · rw [turned]
            obtain ⟨pairwise, announced⟩ := ih steady
            refine ⟨List.pairwise_cons.mpr ⟨fun later member broken => ?_, pairwise⟩, announced⟩
            obtain ⟨own, used⟩ := permanent broken
            obtain ⟨fallback, selected⟩ :=
              taskExecutions_of_usedFallback used (steady.fallback used) later member
            exact ⟨own, fallback, selected⟩

/-- An error after which the loop goes round without an event. -/
theorem handleError_of_permanent (runId : RunId) {error : TaskError}
    (permanent : error.retryable = false) (unused : loop.usedFallback = false)
    (alone : step.policy.fallbackTask = none) (below : loop.attempts < step.policy.retry.budget) :
    handleError runId step loop error =
      .inl { loop with lastError := some error.message } := by
  have within : ¬ step.policy.retry.budget ≤ loop.attempts := UInt32.not_le.mpr below
  simp only [handleError, permanent, unused, alone, within, Bool.false_and, Bool.false_eq_true,
    if_false, decide_false, Bool.or_self]

section Break

variable {task : Task} {attempt : UInt32}

/-- Within the budget the loop executes the step's own task. -/
theorem taskExecution_of_primary (run : RunRecord) (dependencies : BTreeMap String Value)
    (known : executor.registry step.task = some task)
    (own : loop.selectedTask = step.task) (unused : loop.usedFallback = false)
    (count : attempt.toNat = loop.attempts.toNat + 1) (below : attempt ≤ step.policy.retry.budget) :
    executor.taskExecution run step dependencies loop = some
      ⟨loop.selectedTask, false, attempt, executor.answer run step dependencies task attempt⟩ := by
  have room : loop.attempts.toNat < UInt32.maxNat := by
    have bound := attempt.toNat_le_maxNat
    omega
  have left : ¬ step.policy.retry.budget ≤ loop.attempts := by
    rw [UInt32.le_iff_toNat_le] at below ⊢
    omega
  have next : executor.overflow.addOne loop.attempts = some attempt := by
    apply (if_neg (Nat.ne_of_lt room)).trans
    exact congrArg some (UInt32.toNat_inj.mp ((UInt32.toNat_add_one room).trans count.symm))
  simp only [taskExecution, own, known, left, next, unused, decide_false, Bool.false_and,
    Bool.false_eq_true, if_false, Option.map_some]

/-- The loop goes on with the step's own task after a permanent error. -/
theorem taskExecutions_break (known : executor.registry step.task = some task)
    (alone : step.policy.fallbackTask = none) (below : attempt < step.policy.retry.budget)
    (retried : Retried (fun _ => executor.answer run step dependencies task) step.task attempt)
    {error : TaskError}
    (answered : executor.answer run step dependencies task attempt = .error error)
    (permanent : error.retryable = false) (left : Nat)
    (own : loop.selectedTask = step.task) (unused : loop.usedFallback = false)
    (count : attempt.toNat = loop.attempts.toNat + 1 + left) :
    ¬ (executor.taskExecutions run step dependencies (left + 2) loop).Pairwise
      (TaskExecution.Allows step) := by
  have bound := step.policy.retry.budget.toNat_le_maxNat
  have less := UInt32.lt_iff_toNat_lt.mp below
  induction left generalizing loop with
  | zero =>
      have executed := taskExecution_of_primary run dependencies known own unused count
        (UInt32.le_iff_toNat_le.mpr (Nat.le_of_lt less))
      have turned := (executes_of_taskExecution executed).fails error answered
      rw [handleError_of_permanent run.runId permanent (by exact unused) alone (by exact below)]
        at turned
      have number := UInt32.toNat_add_one (Nat.lt_of_lt_of_le less bound)
      -- the turn after the permanent error executes the same task
      have again : executor.taskExecution run step dependencies
          { loop.attempt run.runId step attempt with lastError := some error.message } = some _ :=
        taskExecution_of_primary run dependencies known own unused number
          (UInt32.le_iff_toNat_le.mpr (number ▸ less))
      intro pairwise
      rw [taskExecutions_of_turn executed turned] at pairwise
      have allowed := List.rel_of_pairwise_cons pairwise (mem_taskExecutions again _)
      have after := (allowed ⟨error, answered, permanent⟩).2.1
      cases after
  | succ left ih =>
      have next : (loop.attempts + 1).toNat = loop.attempts.toNat + 1 :=
        UInt32.toNat_add_one (by omega)
      obtain ⟨error', answered', retryable⟩ := retried (loop.attempts + 1)
        (by rw [UInt32.lt_iff_toNat_lt, next]; exact Nat.succ_pos _)
        (by rw [UInt32.lt_iff_toNat_lt]; omega)
      have executed := taskExecution_of_primary run dependencies known own unused next
        (UInt32.le_iff_toNat_le.mpr (by omega))
      have turned := (executes_of_taskExecution executed).fails error' answered'
      rw [handleError_of_retryable run.runId step retryable
        (UInt32.lt_iff_toNat_lt.mpr (show (loop.attempts + 1).toNat < _ by omega))] at turned
      intro pairwise
      rw [taskExecutions_of_turn executed turned] at pairwise
      refine ih ?_ ?_ ?_ pairwise.of_cons
      · exact own
      · exact unused
      · change attempt.toNat = (loop.attempts + 1).toNat + 1 + left
        omega

end Break

/-- No task is executed again after a permanent error, and every start after the first
is announced, exactly where the step has a fallback, its task is not registered, or the
task answers no attempt before the last by a permanent error after only errors that are
retried. -/
theorem permanent_not_retried_iff (executor : InMemoryExecutor) (run : RunRecord)
    (step : StepSpec) (dependencies : BTreeMap String Value) :
    (∀ fuel, (executor.taskExecutions run step dependencies fuel (.start step)).Pairwise
        (TaskExecution.Allows step) ∧
      Announced (executor.logged run step dependencies fuel (.start step))) ↔
      ¬ executor.PermanentEarly run step dependencies := by
  refine ⟨fun obeys early => ?_, fun patient => Steady.start.obeys patient⟩
  obtain ⟨alone, task, known, attempt, positive, below, retried, error, answered, permanent⟩ :=
    early
  refine taskExecutions_break known alone below retried answered permanent (attempt.toNat - 1)
    ?_ ?_ ?_ (obeys _).1
  · rfl
  · rfl
  · have first := UInt32.lt_iff_toNat_lt.mp positive
    rw [UInt32.toNat_zero] at first
    change attempt.toNat = 0 + 1 + (attempt.toNat - 1)
    omega

/-- A step that may be tried twice, whose first attempt fails for good: the task is
executed again, and its second start comes right after its first. -/
theorem permanent_error_executed_again :
    let executor := Sample.memory (Sample.failFirst (.permanent "broken"))
    let request := Sample.request [Sample.only] []
    let run := RunRecord.new request.runId request.workflow request.manifest request.input 0
    ¬ (executor.taskExecutions run Sample.only ∅ 2 (.start Sample.only)).Pairwise
        (TaskExecution.Allows Sample.only) ∧
      executor.logged run Sample.only ∅ 2 (.start Sample.only) =
        [.stepStarted run.runId ⟨"only"⟩ ⟨"work"⟩ 1, .stepStarted run.runId ⟨"only"⟩ ⟨"work"⟩ 2,
          .stepSucceeded run.runId ⟨"only"⟩ 2] ∧
      ¬ Announced (executor.logged run Sample.only ∅ 2 (.start Sample.only)) := by
  intro executor request run
  have events : executor.logged run Sample.only ∅ 2 (.start Sample.only) =
      [.stepStarted run.runId ⟨"only"⟩ ⟨"work"⟩ 1, .stepStarted run.runId ⟨"only"⟩ ⟨"work"⟩ 2,
        .stepSucceeded run.runId ⟨"only"⟩ 2] := rfl
  refine ⟨fun pairwise => ?_, events, fun announced => ?_⟩
  · have executed : (executor.taskExecutions run Sample.only ∅ 2 (.start Sample.only)) =
        [⟨⟨"work"⟩, false, 1, .error (.permanent "broken")⟩,
          ⟨⟨"work"⟩, false, 2, .ok .null⟩] := rfl
    rw [executed] at pairwise
    have allowed := List.rel_of_pairwise_cons pairwise (List.mem_singleton_self _)
    have after := (allowed ⟨_, rfl, rfl⟩).2.1
    cases after
  · rw [events] at announced
    obtain none | ⟨last, final, announces⟩ := announced [_] _ _ rfl rfl
    · cases none _ (List.mem_singleton_self _)
    · obtain rfl := Option.some.inj final
      cases announces

end InMemoryExecutor

end Orchestrator
