import Orchestrator.Executor.Termination

/-!
# The budget of a step

The loop of `execute_step` with attempts counted by a number without a largest value.
Beside its local variables it keeps the executions it has made. Within the budget and
one attempt of the fallback it comes to its end; as long as the attempts fit a machine
word, this is the loop of the executor.
-/

namespace Orchestrator

open Json (Value)

namespace Counted

/-- An event of one step, with its attempt as a number. -/
inductive Event where
  | started (task : TaskId) (attempt : Nat)
  | retrying (attempt : Nat) (error : String)
  | fallbackSelected (task : TaskId)
  | succeeded (attempts : Nat)
  | failed (attempts : Nat) (error : String)

/-- A `StepSucceeded` or a `StepFailed` event. -/
def Event.ends : Event → Bool
  | .succeeded _ => true
  | .failed _ _ => true
  | _ => false

/-- A `StepFallbackSelected` event. -/
def Event.selects : Event → Bool
  | .fallbackSelected _ => true
  | _ => false

/-- One execution of a task. -/
structure Execution where
  task : TaskId
  fallback : Bool
  attempt : Nat
  answer : Except TaskError Value

/-- The registered tasks, each as what it answers to its numbered attempts. -/
abbrev Tasks : Type := TaskId → Option (Nat → Except TaskError Value)

/-- The local variables of the loop and the executions made so far. -/
structure Loop where
  selectedTask : TaskId
  usedFallback : Bool
  fallbackAttempted : Bool
  attempts : Nat
  lastError : Option String
  events : List Event
  executions : List Execution

/-- What the loop leaves behind. -/
structure Result where
  task : TaskId
  status : StepStatus
  attempts : Nat
  output : Option Value
  error : Option String
  fallbackUsed : Bool
  events : List Event
  executions : List Execution

/-- `max_attempts.max(1)`. -/
def maxAttempts (step : StepSpec) : Nat := step.policy.retry.budget.toNat

namespace Loop

def start (step : StepSpec) : Loop :=
  { selectedTask := step.task, usedFallback := false, fallbackAttempted := false, attempts := 0
    lastError := none, events := [], executions := [] }

/-- The result after the loop was left without a success. -/
def failure (loop : Loop) : Result :=
  let error := loop.lastError.getD "task failed without an error"
  { task := loop.selectedTask, status := .failed, attempts := loop.attempts, output := none
    error := some error, fallbackUsed := loop.usedFallback
    events := loop.events ++ [.failed loop.attempts error], executions := loop.executions }

/-- The result of a success. -/
def success (loop : Loop) (output : Value) : Result :=
  { task := loop.selectedTask, status := .succeeded, attempts := loop.attempts
    output := some output, error := none, fallbackUsed := loop.usedFallback
    events := loop.events ++ [.succeeded loop.attempts], executions := loop.executions }

/-- The variables once the next attempt has started and was answered. -/
def attempt (loop : Loop) (answer : Except TaskError Value) : Loop :=
  { loop with
    attempts := loop.attempts + 1
    fallbackAttempted := loop.fallbackAttempted || loop.usedFallback
    events := loop.events ++ [.started loop.selectedTask (loop.attempts + 1)]
    executions := loop.executions ++
      [⟨loop.selectedTask, loop.usedFallback, loop.attempts + 1, answer⟩] }

/-- The variables after the attempt failed with an error that is retried. -/
def retry (loop : Loop) (error : TaskError) : Loop :=
  { loop with
    lastError := some error.message
    events := loop.events ++ [.retrying loop.attempts error.message] }

/-- The variables once the fallback was selected. -/
def fallback (loop : Loop) (task : TaskId) : Loop :=
  { loop with
    usedFallback := true, selectedTask := task
    events := loop.events ++ [.fallbackSelected task] }

/-- The variables or the result after the error of an attempt. -/
def handleError (step : StepSpec) (loop : Loop) (error : TaskError) : Loop ⊕ Result :=
  if error.retryable && decide (loop.attempts < maxAttempts step) then
    .inl (loop.retry error)
  else
    let loop := { loop with lastError := some error.message }
    let terminalFailure := loop.usedFallback || decide (maxAttempts step ≤ loop.attempts)
    match if loop.usedFallback then none else step.policy.fallbackTask with
    | some fallback => .inl (loop.fallback fallback)
    | none => if terminalFailure then .inr loop.failure else .inl loop

/-- One turn of the loop. -/
def turn (tasks : Tasks) (step : StepSpec) (loop : Loop) : Loop ⊕ Result :=
  match tasks loop.selectedTask with
  | none =>
    .inr { loop with lastError := some s!"task {loop.selectedTask} is not registered" }.failure
  | some task =>
    if decide (maxAttempts step ≤ loop.attempts) &&
        (!loop.usedFallback || loop.fallbackAttempted) then .inr loop.failure
    else
      let answer := task (loop.attempts + 1)
      let loop := loop.attempt answer
      match answer with
      | .ok output => .inr (loop.success output)
      | .error error => loop.handleError step error

/-- The loop, for as many turns as there is fuel. -/
def run (tasks : Tasks) (step : StepSpec) : Nat → Loop → Option Result
  | 0, _ => none
  | fuel + 1, loop =>
    match loop.turn tasks step with
    | .inl loop => run tasks step fuel loop
    | .inr result => some result

end Loop

variable {tasks : Tasks} {step : StepSpec} {loop loop' : Loop} {result : Result}
  {task : Nat → Except TaskError Value}

/-- The executions made so far, for the task, the flag and the counter of the loop. -/
structure Consistent (tasks : Tasks) (step : StepSpec) (task : TaskId) (used : Bool)
    (attempts : Nat) (executions : List Execution) : Prop where
  counted : attempts = executions.length
  numbered : executions.map Execution.attempt = List.range' 1 executions.length
  answered : ∀ e ∈ executions, ∃ task, tasks e.task = some task ∧ e.answer = task e.attempt
  current : if used then step.policy.fallbackTask = some task else task = step.task
  own : ∀ e ∈ executions,
    if e.fallback then step.policy.fallbackTask = some e.task else e.task = step.task
  ordered : executions.Pairwise fun earlier later =>
    earlier.fallback = true → later.fallback = true
  unused : used = false → ∀ e ∈ executions, e.fallback = false
  began : used = true ∨ executions ≠ [] → ∃ e ∈ executions, e.fallback = false

/-- Where the loop stands before a turn. -/
structure Going (tasks : Tasks) (step : StepSpec) (loop : Loop) : Prop where
  consistent : Consistent tasks step loop.selectedTask loop.usedFallback loop.attempts
    loop.executions
  within : loop.attempts < maxAttempts step ∨
    loop.attempts = maxAttempts step ∧ loop.usedFallback = true ∧ loop.fallbackAttempted = false
  tried : loop.fallbackAttempted = true ↔ ∃ e ∈ loop.executions, e.fallback = true
  failed : ∀ e ∈ loop.executions, ∃ error, e.answer = .error error
  unended : ∀ event ∈ loop.events, event.ends = false
  selected : loop.events.countP Event.selects = if loop.usedFallback then 1 else 0

/-- What a step comes to. -/
structure Settled (tasks : Tasks) (step : StepSpec) (result : Result) : Prop where
  consistent : Consistent tasks step result.task result.fallbackUsed result.attempts
    result.executions
  within : result.executions.length ≤ maxAttempts step + 1
  full : result.executions.length = maxAttempts step + 1 → ∃ primaries last,
    result.executions = primaries ++ [last] ∧ primaries.length = maxAttempts step ∧
      (∀ e ∈ primaries, e.fallback = false) ∧ last.fallback = true
  executed : (tasks step.task).isSome = true ↔ result.executions ≠ []
  fallback : ∀ id, step.policy.fallbackTask = some id → (tasks id).isSome = true →
    (tasks step.task).isSome = true →
    (∀ e ∈ result.executions, e.fallback = false → ∃ error, e.answer = .error error) →
      ∃ e ∈ result.executions, e.fallback = true
  selected : result.events.countP Event.selects ≤ 1
  status : result.status = .succeeded ∨ result.status = .failed
  succeeded : result.status = .succeeded ↔
    ∃ last output, result.executions.getLast? = some last ∧ last.answer = .ok output
  ended : ∃ before last, result.events = before ++ [last] ∧ last.ends = true ∧
    (∀ event ∈ before, event.ends = false)

theorem consistent_start (tasks : Tasks) (step : StepSpec) :
    Consistent tasks step step.task false 0 [] where
  counted := rfl
  numbered := rfl
  answered _ member := nomatch member
  current := rfl
  own _ member := nomatch member
  ordered := .nil
  unused _ _ member := nomatch member
  began started := by
    obtain used | other := started
    · cases used
    · exact absurd rfl other

theorem Going.start (tasks : Tasks) (step : StepSpec) : Going tasks step (.start step) where
  consistent := consistent_start tasks step
  within := .inl step.policy.retry.budget_pos
  tried := ⟨fun tried => (nomatch tried), fun ⟨_, member, _⟩ => (nomatch member)⟩
  failed _ member := nomatch member
  unended _ member := nomatch member
  selected := rfl

/-- One more execution of the selected task. -/
theorem Consistent.attempt (h : Consistent tasks step loop.selectedTask loop.usedFallback
      loop.attempts loop.executions)
    (registered : tasks loop.selectedTask = some task) {answer : Except TaskError Value}
    (answered : task (loop.attempts + 1) = answer) :
    Consistent tasks step loop.selectedTask loop.usedFallback (loop.attempts + 1)
      (loop.attempt answer).executions := by
  have each : ∀ {P : Execution → Prop}, (∀ e ∈ loop.executions, P e) →
      P ⟨loop.selectedTask, loop.usedFallback, loop.attempts + 1, answer⟩ →
        ∀ e ∈ (loop.attempt answer).executions, P e := by
    intro P old new e member
    obtain earlier | last := List.mem_append.mp member
    · exact old e earlier
    · exact List.mem_singleton.mp last ▸ new
  refine ⟨?_, ?_, each h.answered ⟨task, registered, answered.symm⟩, h.current,
    each h.own h.current, ?_, fun unused => each (h.unused unused) unused, fun _ => ?_⟩
  · rw [Loop.attempt, List.length_append, List.length_singleton, h.counted]
  · rw [Loop.attempt, List.map_append, h.numbered, List.length_append, List.length_singleton,
      List.range'_concat, h.counted, Nat.one_mul, Nat.add_comm 1]
    rfl
  · refine List.pairwise_append.mpr ⟨h.ordered, List.pairwise_singleton _ _, ?_⟩
    intro earlier old later new fallback
    rw [List.mem_singleton.mp new]
    by_contra unused
    have none := h.unused (Bool.eq_false_iff.mpr unused) earlier old
    rw [fallback] at none
    cases none
  · cases used : loop.usedFallback with
    | true =>
        obtain ⟨e, member, primary⟩ := h.began (.inl used)
        exact ⟨e, List.mem_append_left _ member, primary⟩
    | false => exact ⟨_, List.mem_append_right _ (List.mem_singleton_self _), used⟩

/-- A step that was executed has its own task registered. -/
theorem Consistent.registered {task : TaskId} {used : Bool} {attempts : Nat}
    {executions : List Execution} (h : Consistent tasks step task used attempts executions)
    (executed : executions ≠ []) : (tasks step.task).isSome = true := by
  obtain ⟨e, member, primary⟩ := h.began (.inr executed)
  have own := h.own e member
  rw [primary, if_neg Bool.false_ne_true] at own
  obtain ⟨task, known, -⟩ := h.answered e member
  rw [← own, known]
  rfl

/-- The fallback is selected after executions of the step's own task. -/
theorem Consistent.select {task id : TaskId} {attempts : Nat} {executions : List Execution}
    (h : Consistent tasks step task false attempts executions) (executed : executions ≠ [])
    (selected : step.policy.fallbackTask = some id) :
    Consistent tasks step id true attempts executions :=
  { h with
    current := selected
    unused := fun used => nomatch used
    began := fun _ => h.began (.inr executed) }

/-- What becomes of the loop after an attempt failed. -/
inductive Handled (step : StepSpec) (loop : Loop) (error : TaskError) : Loop ⊕ Result → Prop where
  | retry (below : loop.attempts < maxAttempts step) :
      Handled step loop error (.inl (loop.retry error))
  | fallback (task : TaskId) (unused : loop.usedFallback = false)
      (selected : step.policy.fallbackTask = some task) :
      Handled step loop error
        (.inl ({ loop with lastError := some error.message }.fallback task))
  | again (below : loop.attempts < maxAttempts step) :
      Handled step loop error (.inl { loop with lastError := some error.message })
  | failed (closed : loop.usedFallback = true ∨ step.policy.fallbackTask = none) :
      Handled step loop error (.inr { loop with lastError := some error.message }.failure)

theorem handleError_handled (step : StepSpec) (loop : Loop) (error : TaskError) :
    Handled step loop error (loop.handleError step error) := by
  simp only [Loop.handleError]
  split
  next again =>
    rw [Bool.and_eq_true, decide_eq_true_eq] at again
    exact .retry again.2
  next final =>
    split
    next task selected =>
      rw [Option.ite_none_left_eq_some] at selected
      exact .fallback task (Bool.eq_false_iff.mpr selected.1) selected.2
    next unselected =>
      split
      · refine .failed ?_
        cases used : loop.usedFallback with
        | true => exact .inl rfl
        | false =>
            rw [used] at unselected
            exact .inr unselected
      next left =>
        rw [Bool.or_eq_true, decide_eq_true_eq, not_or, Nat.not_le] at left
        exact .again left.2

/-- A turn before the budget is spent finds its task unregistered or makes an attempt. -/
theorem Going.turn_eq (h : Going tasks step loop) : loop.turn tasks step =
    match tasks loop.selectedTask with
    | none => .inr { loop with
        lastError := some s!"task {loop.selectedTask} is not registered" }.failure
    | some task =>
      match task (loop.attempts + 1) with
      | .ok output => .inr ((loop.attempt (.ok output)).success output)
      | .error error => (loop.attempt (.error error)).handleError step error := by
  have unspent : (decide (maxAttempts step ≤ loop.attempts) &&
      (!loop.usedFallback || loop.fallbackAttempted)) = false := by
    obtain below | ⟨-, used, untried⟩ := h.within
    · rw [decide_eq_false (Nat.not_le.mpr below), Bool.false_and]
    · rw [used, untried, Bool.not_true, Bool.or_self, Bool.and_false]
  rw [Loop.turn]
  cases tasks loop.selectedTask with
  | none => rfl
  | some task =>
      simp only [unspent, Bool.false_eq_true, if_false]
      cases task (loop.attempts + 1) with
      | ok output => rfl
      | error error => rfl

/-- With the budget spent, only the step's own task was executed. -/
theorem Going.spent (h : Going tasks step loop) (spent : maxAttempts step ≤ loop.attempts) :
    loop.attempts = maxAttempts step ∧ loop.usedFallback = true ∧
      ∀ e ∈ loop.executions, e.fallback = false := by
  obtain below | ⟨all, used, untried⟩ := h.within
  · omega
  · refine ⟨all, used, fun e member => Bool.eq_false_iff.mpr fun fallback => ?_⟩
    have tried := h.tried.mpr ⟨e, member, fallback⟩
    rw [untried] at tried
    cases tried

theorem Going.tried_next (h : Going tasks step loop) (answer : Except TaskError Value) :
    (loop.attempt answer).fallbackAttempted = true ↔
      ∃ e ∈ (loop.attempt answer).executions, e.fallback = true := by
  simp only [Loop.attempt, Bool.or_eq_true, h.tried, List.mem_append, List.mem_singleton]
  constructor
  · rintro (⟨e, member, fallback⟩ | used)
    · exact ⟨e, .inl member, fallback⟩
    · exact ⟨_, .inr rfl, used⟩
  · rintro ⟨e, member | rfl, fallback⟩
    · exact .inl ⟨e, member, fallback⟩
    · exact .inr fallback

theorem Going.unended_next (h : Going tasks step loop) (answer : Except TaskError Value) :
    ∀ event ∈ (loop.attempt answer).events, event.ends = false := by
  intro event member
  obtain old | new := List.mem_append.mp member
  · exact h.unended event old
  · rw [List.mem_singleton.mp new]
    rfl

theorem Going.selected_next (h : Going tasks step loop) (answer : Except TaskError Value) :
    (loop.attempt answer).events.countP Event.selects = if loop.usedFallback then 1 else 0 := by
  rw [Loop.attempt, List.countP_append, h.selected]
  rfl

theorem Going.selected_le (h : Going tasks step loop) :
    loop.events.countP Event.selects ≤ 1 := by
  rw [h.selected]
  split <;> omega

/-- An attempt after which the loop is left. -/
theorem Going.settled (h : Going tasks step loop)
    (registered : tasks loop.selectedTask = some task) {answer : Except TaskError Value}
    (answered : task (loop.attempts + 1) = answer)
    (selected : result.task = loop.selectedTask) (used : result.fallbackUsed = loop.usedFallback)
    (attempts : result.attempts = loop.attempts + 1)
    (executions : result.executions = (loop.attempt answer).executions)
    {last : Event} (events : result.events = (loop.attempt answer).events ++ [last])
    (ends : last.ends = true) (other : last.selects = false)
    (status : result.status = .succeeded ∧ (∃ output, answer = .ok output) ∨
      result.status = .failed ∧ (∃ error, answer = .error error) ∧
        (loop.usedFallback = true ∨ step.policy.fallbackTask = none)) :
    Settled tasks step result := by
  have consistent := h.consistent.attempt registered answered
  have length : result.executions.length = loop.attempts + 1 := by
    rw [executions, ← consistent.counted]
  have final : result.executions.getLast? =
      some ⟨loop.selectedTask, loop.usedFallback, loop.attempts + 1, answer⟩ := by
    rw [executions]
    exact List.getLast?_concat
  have some : result.executions ≠ [] := by
    intro none
    rw [none] at final
    cases final
  refine ⟨by rw [selected, used, attempts, executions]; exact consistent, ?_, fun full => ?_,
    ⟨fun _ => some, fun _ => ?_⟩, fun id configured known _ failing => ?_, ?_,
    status.imp And.left And.left, ⟨fun success => ?_, ?_⟩,
    ⟨_, last, events, ends, h.unended_next answer⟩⟩
  · have most : loop.attempts ≤ maxAttempts step := by
      obtain below | ⟨all, -⟩ := h.within
      · exact Nat.le_of_lt below
      · exact Nat.le_of_eq all
    omega
  · obtain ⟨all, used, primary⟩ := h.spent (by omega)
    exact ⟨loop.executions, _, executions, by rw [← h.consistent.counted, all], primary, used⟩
  · exact consistent.registered (executions ▸ some)
  · have member : ⟨loop.selectedTask, loop.usedFallback, loop.attempts + 1, answer⟩ ∈
        result.executions := List.mem_of_getLast? final
    cases flag : loop.usedFallback with
    | true => exact ⟨_, member, flag⟩
    | false =>
        obtain ⟨-, output, success⟩ | ⟨-, -, used | alone⟩ := status
        · obtain ⟨error, failed⟩ := failing _ member flag
          rw [success] at failed
          cases failed
        · rw [flag] at used
          cases used
        · rw [alone] at configured
          cases configured
  · rw [events, List.countP_append, h.selected_next, List.countP_singleton, other]
    cases loop.usedFallback <;> decide
  · obtain ⟨-, output, success⟩ | ⟨failed, -⟩ := status
    · exact ⟨_, output, final, success⟩
    · rw [failed] at success
      cases success
  · rintro ⟨e, output, last, success⟩
    obtain rfl := Option.some.inj (final.symm.trans last)
    obtain ⟨succeeded, -⟩ | ⟨-, ⟨error, failed⟩, -⟩ := status
    · exact succeeded
    · simp only [failed] at success
      cases success

/-- The loop is left where the selected task is not registered. -/
theorem Going.settled_of_unregistered (h : Going tasks step loop)
    (unregistered : tasks loop.selectedTask = none) (error : Option String) :
    Settled tasks step { loop with lastError := error }.failure := by
  have most : loop.executions.length ≤ maxAttempts step := by
    rw [← h.consistent.counted]
    obtain below | ⟨all, -⟩ := h.within
    · exact Nat.le_of_lt below
    · exact Nat.le_of_eq all
  -- with its own task registered, the step has moved to its fallback
  have moved : (tasks step.task).isSome = true →
      loop.usedFallback = true ∧ step.policy.fallbackTask = some loop.selectedTask := by
    intro known
    have current := h.consistent.current
    cases used : loop.usedFallback with
    | true => exact ⟨rfl, by rwa [used, if_pos rfl] at current⟩
    | false =>
        rw [used, if_neg Bool.false_ne_true] at current
        rw [← current, unregistered] at known
        cases known
  refine
    { consistent := h.consistent
      within := Nat.le_succ_of_le most
      full := fun full => absurd (full ▸ most) (Nat.not_succ_le_self _)
      executed := ⟨fun known => ?_, h.consistent.registered⟩
      fallback := fun id configured known own _ => ?_
      selected := ?_
      status := .inr rfl
      succeeded := ⟨fun success => (nomatch success), ?_⟩
      ended := ⟨loop.events, _, rfl, rfl, h.unended⟩ }
  · obtain ⟨e, member, -⟩ := h.consistent.began (.inl (moved known).1)
    exact List.ne_nil_of_mem member
  · obtain rfl := Option.some.inj (configured.symm.trans (moved own).2)
    rw [unregistered] at known
    cases known
  · rw [Loop.failure, List.countP_append]
    exact h.selected_le
  · rintro ⟨last, output, final, success⟩
    obtain ⟨error, failed⟩ := h.failed last (List.mem_of_getLast? final)
    rw [failed] at success
    cases success

/-- A turn ends the loop with a settled step, or goes on after one more attempt. -/
theorem Going.turn (h : Going tasks step loop) :
    (∃ result, loop.turn tasks step = .inr result ∧ Settled tasks step result) ∨
      ∃ loop', loop.turn tasks step = .inl loop' ∧ Going tasks step loop' ∧
        loop'.attempts = loop.attempts + 1 := by
  rw [h.turn_eq]
  cases registered : tasks loop.selectedTask with
  | none => exact .inl ⟨_, rfl, h.settled_of_unregistered registered _⟩
  | some task =>
      simp only
      cases answered : task (loop.attempts + 1) with
      | ok output =>
          exact .inl ⟨_, rfl, h.settled registered answered rfl rfl rfl rfl rfl rfl rfl
            (.inl ⟨rfl, output, rfl⟩)⟩
      | error error =>
          have consistent := h.consistent.attempt registered answered
          have failed : ∀ e ∈ (loop.attempt (.error error)).executions,
              ∃ error, e.answer = .error error := by
            intro e member
            obtain old | new := List.mem_append.mp member
            · exact h.failed e old
            · exact List.mem_singleton.mp new ▸ ⟨error, rfl⟩
          have handled := handleError_handled step (loop.attempt (.error error)) error
          simp only
          generalize (loop.attempt (.error error)).handleError step error = outcome at handled
          cases handled with
          | retry below =>
              refine .inr ⟨_, rfl, ⟨consistent, .inl below, h.tried_next _, failed, ?_, ?_⟩, rfl⟩
              · intro event member
                obtain old | new := List.mem_append.mp member
                · exact h.unended_next (.error error) event old
                · exact List.mem_singleton.mp new ▸ rfl
              · rw [Loop.retry, List.countP_append, h.selected_next]
                rfl
          | again below =>
              exact .inr ⟨_, rfl, ⟨consistent, .inl below, h.tried_next (.error error), failed,
                h.unended_next (.error error), h.selected_next (.error error)⟩, rfl⟩
          | fallback id unused selected =>
              change loop.usedFallback = false at unused
              have moved := (unused ▸ consistent).select (List.append_ne_nil_of_right_ne_nil _
                (List.cons_ne_nil _ _)) selected
              refine .inr ⟨_, rfl, ⟨moved, ?_, h.tried_next (.error error), failed, ?_, ?_⟩, rfl⟩
              · have untried : (loop.attempt (.error error)).fallbackAttempted = false := by
                  rw [Bool.eq_false_iff, Ne, h.tried_next]
                  rintro ⟨e, member, fallback⟩
                  rw [consistent.unused unused e member] at fallback
                  cases fallback
                obtain below | ⟨-, used, -⟩ := h.within
                · obtain less | all := Nat.lt_or_eq_of_le (Nat.succ_le_of_lt below)
                  · exact .inl less
                  · exact .inr ⟨all, rfl, untried⟩
                · rw [unused] at used
                  cases used
              · intro event member
                obtain old | new := List.mem_append.mp member
                · exact h.unended_next (.error error) event old
                · exact List.mem_singleton.mp new ▸ rfl
              · have count := h.selected_next (.error error)
                rw [unused] at count
                rw [Loop.fallback, List.countP_append, count]
                rfl
          | failed closed =>
              exact .inl ⟨_, rfl, h.settled registered answered rfl rfl rfl rfl rfl rfl rfl
                (.inr ⟨rfl, ⟨error, rfl⟩, closed⟩)⟩

/-- The loop settles the step in as many turns as the budget has left, and one more. -/
theorem Going.run (h : Going tasks step loop) {fuel : Nat}
    (enough : maxAttempts step < fuel + loop.attempts) :
    ∃ result, loop.run tasks step fuel = some result ∧ Settled tasks step result := by
  induction fuel generalizing loop with
  | zero =>
      obtain below | ⟨all, -⟩ := h.within
      · omega
      · omega
  | succ fuel ih =>
      rw [Loop.run]
      obtain ⟨result, turned, settled⟩ | ⟨loop', turned, going, next⟩ := h.turn
      · rw [turned]
        exact ⟨result, rfl, settled⟩
      · rw [turned]
        exact ih going (by omega)

/-- More fuel changes nothing for a loop that came to its end. -/
theorem run_mono {fuel fuel' : Nat} (ended : loop.run tasks step fuel = some result)
    (more : fuel ≤ fuel') : loop.run tasks step fuel' = some result := by
  induction fuel generalizing loop fuel' with
  | zero => cases ended
  | succ fuel ih =>
      obtain ⟨fuel', rfl⟩ := Nat.exists_eq_add_of_lt more
      rw [Loop.run] at ended ⊢
      split at ended
      · exact ih ended (by omega)
      · exact ended

/-- A step comes to its end within its budget and one more turn, whatever its tasks
answer, and is then settled. -/
theorem step_settles (tasks : Tasks) (step : StepSpec) :
    ∃ result, (∀ fuel, maxAttempts step < fuel →
        (Loop.start step).run tasks step fuel = some result) ∧
      Settled tasks step result := by
  obtain ⟨result, ended, settled⟩ : ∃ result,
      (Loop.start step).run tasks step (maxAttempts step + 1) = some result ∧
        Settled tasks step result :=
    (Going.start tasks step).run (Nat.lt_succ_self _)
  exact ⟨result, fun fuel enough => run_mono ended enough, settled⟩

/-! The loop of the executor. -/

section Image

variable (runId : RunId) (step : StepSpec)

/-- The event with its attempt as a machine word. -/
def Event.image : Event → ExecutionEvent
  | .started task attempt => .stepStarted runId step.id task (.ofNat attempt)
  | .retrying attempt error => .stepRetrying runId step.id (.ofNat attempt) error
  | .fallbackSelected task => .stepFallbackSelected runId step.id task
  | .succeeded attempts => .stepSucceeded runId step.id (.ofNat attempts)
  | .failed attempts error => .stepFailed runId step.id (.ofNat attempts) error

def Loop.image (loop : Loop) : StepLoop :=
  { selectedTask := loop.selectedTask, usedFallback := loop.usedFallback
    fallbackAttempted := loop.fallbackAttempted, attempts := .ofNat loop.attempts
    lastError := loop.lastError, events := loop.events.map (Event.image runId step) }

def Result.image (result : Result) : StepRunResult :=
  { record :=
      { id := step.id, task := result.task, status := result.status
        attempts := .ofNat result.attempts, output := result.output, error := result.error
        fallbackUsed := result.fallbackUsed, lease := none, history := [], artifacts := []
        nextAttemptAtMs := none }
    events := result.events.map (Event.image runId step) }

/-- The attempts after a turn. -/
def turned : Loop ⊕ Result → Nat
  | .inl loop => loop.attempts
  | .inr result => result.attempts

/-- The tasks of an executor, as they answer to the step. -/
def tasksOf (executor : InMemoryExecutor) (run : RunRecord) (step : StepSpec)
    (dependencies : BTreeMap String Value) : Tasks := fun id =>
  (executor.registry id).map fun task attempt =>
    executor.answer run step dependencies task (.ofNat attempt)

variable {runId step}

theorem budget_le_ofNat {n : Nat} (fits : n ≤ UInt32.maxNat) :
    step.policy.retry.budget ≤ UInt32.ofNat n ↔ maxAttempts step ≤ n := by
  rw [UInt32.le_iff_toNat_le, UInt32.toNat_ofNat_of_lt' (Nat.lt_succ_of_le fits), maxAttempts]

theorem handleError_turned (error : TaskError) :
    turned (loop.handleError step error) = loop.attempts := by
  have handled := handleError_handled step loop error
  generalize loop.handleError step error = outcome at handled
  cases handled <;> rfl

theorem handleError_image (error : TaskError) (fits : loop.attempts ≤ UInt32.maxNat) :
    InMemoryExecutor.handleError runId step (loop.image runId step) error =
      (loop.handleError step error).map (Loop.image runId step) (Result.image runId step) := by
  obtain ⟨task, used, tried, attempts, lastError, events, executions⟩ := loop
  have below : UInt32.ofNat attempts < step.policy.retry.budget ↔
      attempts < maxAttempts step := by
    rw [← UInt32.not_le, budget_le_ofNat fits, Nat.not_le]
  simp only [InMemoryExecutor.handleError, Loop.handleError, Loop.image, below,
    budget_le_ofNat fits]
  by_cases again : (error.retryable && decide (attempts < maxAttempts step)) = true
  · simp only [if_pos again]
    simp [Loop.retry, StepLoop.retry, Loop.image, Event.image]
  · simp only [if_neg again]
    cases used with
    | true => simp [Loop.failure, StepLoop.failure, Result.image, Event.image]
    | false =>
        cases step.policy.fallbackTask with
        | some fallback => simp [Loop.fallback, StepLoop.fallback, Loop.image, Event.image]
        | none =>
            by_cases spent : maxAttempts step ≤ attempts
            · simp [spent, Loop.failure, StepLoop.failure, Result.image, Event.image]
            · simp [spent, Loop.image]

variable {executor : InMemoryExecutor} {run : RunRecord} {dependencies : BTreeMap String Value}

/-- While the attempts fit a machine word, a turn is a turn of the executor. -/
theorem turn_image
    (fits : turned (loop.turn (tasksOf executor run step dependencies) step) ≤ UInt32.maxNat) :
    executor.turn run step dependencies (loop.image run.runId step) =
      some ((loop.turn (tasksOf executor run step dependencies) step).map
        (Loop.image run.runId step) (Result.image run.runId step)) := by
  cases registered : executor.registry loop.selectedTask with
  | none =>
      simp only [Loop.turn, tasksOf, InMemoryExecutor.turn, Loop.image, registered,
        Option.map_none]
      simp [Loop.failure, StepLoop.failure, Result.image, Event.image]
  | some task =>
      simp only [Loop.turn, tasksOf, registered, Option.map_some] at fits ⊢
      by_cases spent : (decide (maxAttempts step ≤ loop.attempts) &&
          (!loop.usedFallback || loop.fallbackAttempted)) = true
      · rw [if_pos spent] at fits ⊢
        have stop : (decide (step.policy.retry.budget ≤ (loop.image run.runId step).attempts) &&
            (!loop.usedFallback || loop.fallbackAttempted)) = true := by
          simpa only [Loop.image, budget_le_ofNat (show loop.attempts ≤ _ from fits)] using spent
        have known : executor.registry (loop.image run.runId step).selectedTask = some task :=
          registered
        rw [InMemoryExecutor.turn, known]
        refine (if_pos stop).trans ?_
        simp [Loop.failure, StepLoop.failure, Loop.image, Result.image, Event.image]
      · rw [if_neg spent] at fits ⊢
        have most : loop.attempts + 1 ≤ UInt32.maxNat := by
          cases answered : executor.answer run step dependencies task (.ofNat (loop.attempts + 1))
            with
          | ok output =>
              simp only [answered] at fits
              exact fits
          | error error =>
              simp only [answered, handleError_turned] at fits
              exact fits
        have left : ¬ (step.policy.retry.budget ≤ (loop.image run.runId step).attempts ∧
            (loop.usedFallback = false ∨ loop.fallbackAttempted = true)) := by
          rw [Loop.image, budget_le_ofNat (by omega)]
          simpa using spent
        have counted : executor.overflow.addOne (loop.image run.runId step).attempts =
            some (.ofNat (loop.attempts + 1)) := by
          have number : (UInt32.ofNat loop.attempts).toNat = loop.attempts :=
            UInt32.toNat_ofNat_of_lt' (Nat.lt_succ_of_le (Nat.le_of_succ_le most))
          refine (if_neg ?_).trans ?_
          · change (UInt32.ofNat loop.attempts).toNat ≠ _
            omega
          · rw [Loop.image, UInt32.ofNat_add]
            rfl
        rw [InMemoryExecutor.turn_of_attempt run dependencies registered left counted]
        have next : (loop.image run.runId step).attempt run.runId step
            (.ofNat (loop.attempts + 1)) =
            (loop.attempt (executor.answer run step dependencies task
              (.ofNat (loop.attempts + 1)))).image run.runId step := by
          simp [StepLoop.attempt, Loop.attempt, Loop.image, Event.image]
        rw [next]
        cases answered : executor.answer run step dependencies task (.ofNat (loop.attempts + 1))
          with
        | ok output =>
            simp [Loop.success, StepLoop.success, Loop.image, Result.image, Event.image]
        | error error => exact congrArg some (handleError_image error most)

/-- The attempts never become fewer. -/
theorem attempts_le_turned (tasks : Tasks) (step : StepSpec) (loop : Loop) :
    loop.attempts ≤ turned (loop.turn tasks step) := by
  rw [Loop.turn]
  split
  · exact Nat.le_refl _
  · split
    · exact Nat.le_refl _
    · simp only
      split
      · exact Nat.le_succ _
      · rw [handleError_turned]
        exact Nat.le_succ _

theorem attempts_le_of_run {fuel : Nat} (ended : loop.run tasks step fuel = some result) :
    loop.attempts ≤ result.attempts := by
  induction fuel generalizing loop with
  | zero => cases ended
  | succ fuel ih =>
      have more := attempts_le_turned tasks step loop
      rw [Loop.run] at ended
      split at ended
      next loop' turned =>
        rw [turned] at more
        exact Nat.le_trans more (ih ended)
      next result' turned =>
        obtain rfl := Option.some.inj ended
        rw [turned] at more
        exact more

/-- A step whose attempts fit a machine word comes to the same end in the executor. -/
theorem stepLoop_image {fuel : Nat}
    (ended : loop.run (tasksOf executor run step dependencies) step fuel = some result)
    (fits : result.attempts ≤ UInt32.maxNat) :
    executor.stepLoop run step dependencies fuel (loop.image run.runId step) =
      some (result.image run.runId step) := by
  induction fuel generalizing loop with
  | zero => cases ended
  | succ fuel ih =>
      rw [Loop.run] at ended
      split at ended
      next loop' turned =>
        have within := Nat.le_trans (attempts_le_of_run ended) fits
        rw [InMemoryExecutor.stepLoop, turn_image (by rw [turned]; exact within), turned]
        exact ih ended
      next result' turned =>
        obtain rfl := Option.some.inj ended
        rw [InMemoryExecutor.stepLoop, turn_image (by rw [turned]; exact fits), turned]
        rfl

theorem executeStep_image {fuel : Nat}
    (ended : (Loop.start step).run (tasksOf executor run step dependencies) step fuel = some result)
    (fits : result.attempts ≤ UInt32.maxNat) :
    executor.executeStep fuel run step dependencies = some (result.image run.runId step) :=
  stepLoop_image ended fits

end Image

end Counted

end Orchestrator
