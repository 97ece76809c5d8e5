import Orchestrator.Model.Task

/-!
# The attempts of one step

What the attempts of a step come to when each task answers its numbered attempts
by a fixed script. Both executors are compared with this machine. It stands
between two attempts with the task it would run next, and ends with a success or
with an error that is neither retried nor left to the fallback.
-/

namespace Orchestrator

open Json (Value)

/-- What each task answers to the attempt of each number. -/
abbrev Script : Type := TaskId → UInt32 → Except TaskError Value

/-- Where a step stands between two attempts. -/
structure Standing where
  task : TaskId
  fallbackUsed : Bool
  attempts : UInt32
  error : Option String
  events : List ExecutionEvent

/-- How a step has ended. -/
structure Ending where
  status : StepStatus
  task : TaskId
  fallbackUsed : Bool
  attempts : UInt32
  output : Option Value
  error : Option String
  events : List ExecutionEvent

namespace Standing

/-- The step before its first attempt. -/
def start (step : StepSpec) : Standing :=
  { task := step.task, fallbackUsed := false, attempts := 0, error := none, events := [] }

variable (script : Script) (runId : RunId) (step : StepSpec)

/-- The events when the next attempt has started. -/
def started (p : Standing) : List ExecutionEvent :=
  p.events ++ [.stepStarted runId step.id p.task (p.attempts + 1)]

/-- The standing after an attempt that is retried. -/
def retry (p : Standing) (error : TaskError) : Standing :=
  { p with
    attempts := p.attempts + 1, error := some error.message
    events := p.started runId step ++ [.stepRetrying runId step.id (p.attempts + 1) error.message] }

/-- The standing after an attempt that selects the fallback. -/
def fallback (p : Standing) (task : TaskId) (error : TaskError) : Standing :=
  { task, fallbackUsed := true, attempts := p.attempts + 1, error := some error.message
    events := p.started runId step ++ [.stepFallbackSelected runId step.id task] }

/-- The ending with a success. -/
def succeed (p : Standing) (output : Value) : Ending :=
  { status := .succeeded, task := p.task, fallbackUsed := p.fallbackUsed
    attempts := p.attempts + 1, output := some output, error := none
    events := p.started runId step ++ [.stepSucceeded runId step.id (p.attempts + 1)] }

/-- The ending with an error. -/
def fail (p : Standing) (error : TaskError) : Ending :=
  { status := .failed, task := p.task, fallbackUsed := p.fallbackUsed
    attempts := p.attempts + 1, output := none, error := some error.message
    events := p.started runId step ++ [.stepFailed runId step.id (p.attempts + 1) error.message] }

/-- The fallback that the step could still select. -/
def unusedFallback (p : Standing) : Option TaskId :=
  if p.fallbackUsed then none else step.policy.fallbackTask

/-- One attempt. -/
def attempt (p : Standing) : Standing ⊕ Ending :=
  match script p.task (p.attempts + 1) with
  | .ok output => .inr (p.succeed runId step output)
  | .error error =>
    if error.retryable && decide (p.attempts + 1 < step.policy.retry.budget) then
      .inl (p.retry runId step error)
    else
      match p.unusedFallback step with
      | some task => .inl (p.fallback runId step task error)
      | none => .inr (p.fail runId step error)

/-- The standings that a step comes to while its attempts can be counted. -/
inductive Reached : Standing → Prop where
  | start : Reached (.start step)
  | next {p p' : Standing} (before : Reached p) (counted : p.attempts.toNat < UInt32.maxNat)
      (attempted : p.attempt script runId step = .inl p') : Reached p'

/-- The ending that the attempts from a standing lead to. -/
inductive Leads : Standing → Ending → Prop where
  | last {p : Standing} {e : Ending} (attempted : p.attempt script runId step = .inr e) : Leads p e
  | next {p p' : Standing} {e : Ending} (attempted : p.attempt script runId step = .inl p')
      (rest : Leads p' e) : Leads p e

end Standing

/-- The task answered all attempts before this one by an error that is retried. -/
def Retried (script : Script) (task : TaskId) (attempt : UInt32) : Prop :=
  ∀ earlier : UInt32, 0 < earlier → earlier < attempt →
    ∃ error, script task earlier = .error error ∧ error.retryable = true

/-- A step without fallback meets no permanent error before its last attempt, and
a step with one does not spend the largest budget on its own task. -/
structure Agreeable (script : Script) (step : StepSpec) : Prop where
  retryable : step.policy.fallbackTask = none → ∀ (attempt : UInt32) (error : TaskError),
    0 < attempt → attempt < step.policy.retry.budget → Retried script step.task attempt →
      script step.task attempt = .error error → error.retryable = true
  countable : step.policy.fallbackTask ≠ none → step.policy.retry.budget.toNat = UInt32.maxNat →
    Retried script step.task step.policy.retry.budget →
      ∃ output, script step.task step.policy.retry.budget = .ok output

namespace Standing

variable {script : Script} {runId : RunId} {step : StepSpec} {p p' : Standing}

/-- The attempts left: a step is within its budget, or its fallback was selected
with the budget spent. -/
structure Stands (script : Script) (step : StepSpec) (p : Standing) : Prop where
  left : p.attempts.toNat < step.policy.retry.budget.toNat ∨
    p.fallbackUsed = true ∧ p.attempts = step.policy.retry.budget
  primary : p.fallbackUsed = false → p.task = step.task ∧
    ∀ attempt : UInt32, attempt.toNat = p.attempts.toNat + 1 → Retried script step.task attempt
  fallback : p.fallbackUsed = true → step.policy.fallbackTask = some p.task ∧
    (p.attempts = step.policy.retry.budget →
      Retried script step.task step.policy.retry.budget ∧
        ∃ error, script step.task step.policy.retry.budget = .error error)
  started : ∀ event ∈ p.events, ∀ k id task attempt,
    event = .stepStarted k id task attempt → attempt.toNat ≤ p.attempts.toNat
  last : p.attempts ≠ 0 → ∃ k task, .stepStarted k step.id task p.attempts ∈ p.events

/-- Here the executors part: without a fallback a permanent error comes before the
last attempt, or the attempt counter is at its largest value. -/
def Departs (script : Script) (step : StepSpec) (p : Standing) : Prop :=
  (p.fallbackUsed = false ∧ step.policy.fallbackTask = none ∧
    p.attempts.toNat + 1 < step.policy.retry.budget.toNat ∧
    ∃ error, script p.task (p.attempts + 1) = .error error ∧ error.retryable = false) ∨
  p.attempts.toNat = UInt32.maxNat

theorem stands_start (script : Script) (step : StepSpec) :
    Stands script step (.start step) := by
  refine ⟨.inl step.policy.retry.budget_pos, fun _ => ⟨rfl, ?_⟩, fun used => (by cases used),
    fun event member => (by cases member), fun other => absurd rfl other⟩
  intro attempt first earlier positive before
  rw [UInt32.lt_iff_toNat_lt] at positive before
  simp only [start, UInt32.toNat_zero] at first positive
  omega

/-- The error of an attempt that goes on. -/
theorem attempt_inl (h : p.attempt script runId step = .inl p') :
    ∃ error, script p.task (p.attempts + 1) = .error error ∧
      ((error.retryable = true ∧ p.attempts + 1 < step.policy.retry.budget ∧
          p' = p.retry runId step error) ∨
        (¬ (error.retryable = true ∧ p.attempts + 1 < step.policy.retry.budget) ∧
          p.fallbackUsed = false ∧ ∃ task, step.policy.fallbackTask = some task ∧
            p' = p.fallback runId step task error)) := by
  unfold attempt at h
  split at h
  · cases h
  next error answered =>
    refine ⟨error, answered, ?_⟩
    simp only [Bool.and_eq_true, decide_eq_true_eq] at h
    split at h
    next again => exact .inl ⟨again.1, again.2, (Sum.inl.inj h).symm⟩
    next final =>
      split at h
      next task selected =>
        rw [unusedFallback, Option.ite_none_left_eq_some] at selected
        exact .inr ⟨final, by simpa using selected.1, task, selected.2, (Sum.inl.inj h).symm⟩
      · cases h

/-- One more retried attempt. -/
theorem retried_next {task : TaskId} {attempts : UInt32}
    (before : Retried script task (attempts + 1)) {error : TaskError}
    (answered : script task (attempts + 1) = .error error) (retryable : error.retryable = true)
    {attempt : UInt32} (number : attempt.toNat = (attempts + 1).toNat + 1) :
    Retried script task attempt := by
  intro earlier positive below
  by_cases same : earlier = attempts + 1
  · exact same ▸ ⟨error, answered, retryable⟩
  · refine before earlier positive ?_
    have distinct : earlier.toNat ≠ (attempts + 1).toNat := fun h => same (UInt32.toNat_inj.mp h)
    rw [UInt32.lt_iff_toNat_lt] at below ⊢
    omega

/-- The starts logged so far, after one more attempt. -/
theorem started_next {attempts : UInt32} (counted : p.attempts.toNat < UInt32.maxNat)
    (before : ∀ event ∈ p.events, ∀ k id task attempt,
      event = .stepStarted k id task attempt → attempt.toNat ≤ p.attempts.toNat)
    (number : attempts = p.attempts + 1) {last : ExecutionEvent}
    (other : ∀ k id task attempt, last ≠ .stepStarted k id task attempt) :
    ∀ event ∈ p.started runId step ++ [last], ∀ k id task attempt,
      event = .stepStarted k id task attempt → attempt.toNat ≤ attempts.toNat := by
  rintro event member k id task attempt rfl
  have next := UInt32.toNat_add_one counted
  rw [started, List.append_assoc, List.mem_append] at member
  obtain old | new := member
  · have bound := before _ old k id task attempt rfl
    rw [number]
    omega
  · simp only [List.cons_append, List.nil_append, List.mem_cons, List.not_mem_nil, or_false] at new
    obtain same | same := new
    · simp only [ExecutionEvent.stepStarted.injEq] at same
      exact Nat.le_of_eq (congrArg UInt32.toNat (same.2.2.2.trans number.symm))
    · exact absurd same.symm (other k id task attempt)

/-- The last attempt. -/
theorem attempt_inr {e : Ending} (h : p.attempt script runId step = .inr e) :
    (∃ output, script p.task (p.attempts + 1) = .ok output ∧ e = p.succeed runId step output) ∨
      ∃ error, script p.task (p.attempts + 1) = .error error ∧
        ¬ (error.retryable = true ∧ p.attempts + 1 < step.policy.retry.budget) ∧
        p.unusedFallback step = none ∧ e = p.fail runId step error := by
  unfold attempt at h
  split at h
  next output answered => exact .inl ⟨output, answered, (Sum.inr.inj h).symm⟩
  next error answered =>
    simp only [Bool.and_eq_true, decide_eq_true_eq] at h
    split at h
    · cases h
    next final =>
      split at h
      · cases h
      next unselected => exact .inr ⟨error, answered, final, unselected, (Sum.inr.inj h).symm⟩

theorem Reached.stands (h : Reached script runId step p) : Stands script step p := by
  induction h with
  | start => exact stands_start script step
  | @next p p' before counted attempted stands =>
      have next := UInt32.toNat_add_one counted
      obtain ⟨error, answered, ⟨retryable, below, rfl⟩ | ⟨final, unused, task, selected, rfl⟩⟩ :=
        attempt_inl attempted
      · have fewer := UInt32.lt_iff_toNat_lt.mp below
        refine ⟨.inl fewer, fun unused => ?_, fun used => ?_,
          started_next counted stands.started rfl (by simp), fun _ => ⟨runId, p.task, ?_⟩⟩
        · obtain ⟨own, retried⟩ := stands.primary unused
          refine ⟨own, fun attempt number => ?_⟩
          exact retried_next (retried _ next) (own ▸ answered) retryable number
        · refine ⟨(stands.fallback used).1, fun spent => ?_⟩
          simp only [retry] at spent
          rw [spent] at fewer
          exact absurd fewer (Nat.lt_irrefl _)
        · simp [retry, started]
      · obtain ⟨own, retried⟩ := stands.primary unused
        have most : (p.attempts + 1).toNat ≤ step.policy.retry.budget.toNat := by
          obtain below | ⟨used, -⟩ := stands.left
          · omega
          · rw [unused] at used
            cases used
        refine ⟨?_, fun used => (by cases used), fun _ => ⟨selected, fun spent => ?_⟩,
          started_next counted stands.started rfl (by simp), fun _ => ⟨runId, p.task, ?_⟩⟩
        · obtain below | spent := Nat.lt_or_eq_of_le most
          · exact .inl below
          · exact .inr ⟨rfl, UInt32.toNat_inj.mp spent⟩
        · simp only [fallback] at spent
          rw [← spent]
          exact ⟨retried _ next, error, own ▸ answered⟩
        · simp [fallback, started]

/-- The executors never part on an agreeable step. -/
theorem Agreeable.together (h : Agreeable script step) (reached : Reached script runId step p) :
    ¬ Departs script step p := by
  have stands := reached.stands
  rintro (⟨unused, alone, below, error, answered, permanent⟩ | full)
  · obtain ⟨own, retried⟩ := stands.primary unused
    have next : (p.attempts + 1).toNat = p.attempts.toNat + 1 :=
      UInt32.toNat_add_one (by have := step.policy.retry.budget.toNat_le_maxNat; omega)
    have retryable := h.retryable alone (p.attempts + 1) error
      (by rw [UInt32.lt_iff_toNat_lt, next]; exact Nat.succ_pos _)
      (by rw [UInt32.lt_iff_toNat_lt, next]; exact below) (retried _ next) (own ▸ answered)
    rw [permanent] at retryable
    cases retryable
  · have bound := step.policy.retry.budget.toNat_le_maxNat
    obtain below | ⟨used, spent⟩ := stands.left
    · omega
    · obtain ⟨selected, exhausted⟩ := stands.fallback used
      obtain ⟨retried, error, answered⟩ := exhausted spent
      obtain ⟨output, succeeded⟩ := h.countable (by rw [selected]; simp) (spent ▸ full) retried
      rw [answered] at succeeded
      cases succeeded

/-- Retried attempts lead to the standing after them. -/
theorem reached_of_retried (script : Script) (runId : RunId) (n : Nat)
    (less : n < step.policy.retry.budget.toNat)
    (retried : ∀ earlier : UInt32, 0 < earlier.toNat → earlier.toNat ≤ n →
      ∃ error, script step.task earlier = .error error ∧ error.retryable = true) :
    ∃ p, Reached script runId step p ∧ p.task = step.task ∧ p.fallbackUsed = false ∧
      p.attempts.toNat = n := by
  have bound := step.policy.retry.budget.toNat_le_maxNat
  induction n with
  | zero => exact ⟨.start step, .start, rfl, rfl, rfl⟩
  | succ n ih =>
      obtain ⟨p, reached, own, unused, count⟩ := ih (by omega) fun earlier positive before =>
        retried earlier positive (by omega)
      have counted : p.attempts.toNat < UInt32.maxNat := by omega
      have next := UInt32.toNat_add_one counted
      obtain ⟨error, answered, retryable⟩ := retried (p.attempts + 1) (by omega) (by omega)
      have attempted : p.attempt script runId step = .inl (p.retry runId step error) := by
        have below : p.attempts + 1 < step.policy.retry.budget := by
          rw [UInt32.lt_iff_toNat_lt]
          omega
        simp [attempt, own, answered, retryable, below]
      exact ⟨_, .next reached counted attempted, own, unused, by simp only [retry]; omega⟩

/-- On any other step they part somewhere. -/
theorem departs_of_not_agreeable (runId : RunId) (h : ¬ Agreeable script step) :
    ∃ p, Reached script runId step p ∧ Departs script step p := by
  by_contra together
  have never : ∀ p, Reached script runId step p → ¬ Departs script step p :=
    fun p reached departs => together ⟨p, reached, departs⟩
  have bound := step.policy.retry.budget.toNat_le_maxNat
  refine h ⟨fun alone attempt error positive below retried answered => ?_,
    fun some full retried => ?_⟩
  · rw [UInt32.lt_iff_toNat_lt] at positive below
    rw [UInt32.toNat_zero] at positive
    obtain ⟨p, reached, own, unused, count⟩ := reached_of_retried script runId
      (attempt.toNat - 1) (by omega) fun earlier positive before => retried earlier
        (UInt32.lt_iff_toNat_lt.mpr positive) (UInt32.lt_iff_toNat_lt.mpr (by omega))
    have counted : p.attempts.toNat < UInt32.maxNat := by omega
    have number : p.attempts + 1 = attempt := by
      apply UInt32.toNat_inj.mp
      rw [UInt32.toNat_add_one counted]
      omega
    cases retryable : error.retryable with
    | true => rfl
    | false =>
        exact absurd (.inl ⟨unused, alone, by omega, error, by rw [own, number]; exact answered,
          retryable⟩) (never p reached)
  · have least := step.policy.retry.budget_pos
    obtain ⟨p, reached, own, unused, count⟩ := reached_of_retried script runId
      (step.policy.retry.budget.toNat - 1) (by omega) fun earlier positive before => retried earlier
        (UInt32.lt_iff_toNat_lt.mpr positive) (UInt32.lt_iff_toNat_lt.mpr (by omega))
    have counted : p.attempts.toNat < UInt32.maxNat := by omega
    have number : p.attempts + 1 = step.policy.retry.budget := by
      apply UInt32.toNat_inj.mp
      rw [UInt32.toNat_add_one counted]
      omega
    obtain ⟨task, selected⟩ := Option.ne_none_iff_exists'.mp some
    cases answered : script step.task step.policy.retry.budget with
    | ok output => exact ⟨output, rfl⟩
    | error error =>
        have attempted : p.attempt script runId step = .inl (p.fallback runId step task error) := by
          simp [attempt, own, number, answered, unusedFallback, unused, selected]
        refine absurd (.inr ?_) (never _ (.next reached counted attempted))
        simp only [fallback, number]
        exact full

/-- A step whose attempts can be counted comes to an end. -/
theorem leads_of_together {p : Standing}
    (together : ∀ p, Reached script runId step p → p.attempts.toNat < UInt32.maxNat)
    (reached : Reached script runId step p) : ∃ e, Leads script runId step p e := by
  have stands := reached.stands
  have counted := together p reached
  cases attempted : p.attempt script runId step with
  | inr e => exact ⟨e, .last attempted⟩
  | inl p' =>
      have next := UInt32.toNat_add_one counted
      have more : p'.attempts = p.attempts + 1 := by
        obtain ⟨error, -, ⟨-, -, rfl⟩ | ⟨-, -, task, -, rfl⟩⟩ := attempt_inl attempted <;> rfl
      have rest := Reached.next reached counted attempted
      obtain ⟨e, leads⟩ := leads_of_together together rest
      exact ⟨e, .next attempted leads⟩
termination_by UInt32.maxNat - p.attempts.toNat
decreasing_by
  rw [more]
  omega

end Standing

end Orchestrator
