import Orchestrator.Executor.Verdict

/-!
# The schedule does not change what a run comes to

A step's record depends on its tasks, the input of the run and the outputs of its
dependencies. Where the tasks look at nothing but their input and the number of
the attempt, two runs of the same steps leave the same records, by induction
along the dependencies, whatever the chunks and the order of the steps.
-/

namespace Orchestrator

open Json (Value)

/-- The task answers by its input and the number of the attempt. -/
structure Task.Deterministic (task : Task) : Prop where
  execute : ∀ (input : Value) (context context' : TaskContext),
    context.attempt = context'.attempt → task.execute input context = task.execute input context'
  elapsedMs : ∀ (input : Value) (context context' : TaskContext),
    context.attempt = context'.attempt →
      task.elapsedMs input context = task.elapsedMs input context'

theorem Task.Deterministic.executeWithin {task : Task} (deterministic : task.Deterministic)
    (timeoutMs : Option UInt64) (input : Value) {context context' : TaskContext}
    (same : context.attempt = context'.attempt) :
    task.executeWithin timeoutMs input context = task.executeWithin timeoutMs input context' := by
  simp only [Task.executeWithin, deterministic.elapsedMs input context context' same,
    deterministic.execute input context context' same]

/-- The loop without what it logged. -/
def StepLoop.unlogged (loop : StepLoop) : StepLoop := { loop with events := [] }

namespace InMemoryExecutor

/-- The executors run the same deterministic tasks for the same worker and are of
the same build. -/
structure SameTasks (left right : InMemoryExecutor) : Prop where
  registry : right.registry = left.registry
  worker : right.options.worker = left.options.worker
  overflow : right.overflow = left.overflow
  deterministic : ∀ id task, left.registry id = some task → task.Deterministic

theorem SameTasks.symm {left right : InMemoryExecutor} (same : left.SameTasks right) :
    right.SameTasks left where
  registry := same.registry.symm
  worker := same.worker.symm
  overflow := same.overflow.symm
  deterministic := fun id task known => same.deterministic id task (same.registry ▸ known)

/-- What a turn leaves, without what was logged. -/
def summary : StepLoop ⊕ StepRunResult → StepLoop ⊕ StepRecord :=
  Sum.map StepLoop.unlogged StepRunResult.record

section Steps

variable {left right : InMemoryExecutor} {run run' : RunRecord} {step : StepSpec}
  {dependencies : BTreeMap String Value} {loop loop' : StepLoop}

/-- Loops that differ in what they logged. -/
theorem StepLoop.eq_of_unlogged (same : loop.unlogged = loop'.unlogged) :
    loop' = { loop with events := loop'.events } := by
  obtain ⟨selectedTask, usedFallback, fallbackAttempted, attempts, lastError, events⟩ := loop
  obtain ⟨_, _, _, _, _, events'⟩ := loop'
  simp only [StepLoop.unlogged, StepLoop.mk.injEq, and_true] at same
  obtain ⟨rfl, rfl, rfl, rfl, rfl⟩ := same
  rfl

theorem handleError_summary (runId runId' : RunId) (error : TaskError)
    (same : loop.unlogged = loop'.unlogged) :
    summary (handleError runId step loop error) = summary (handleError runId' step loop' error) := by
  rw [StepLoop.eq_of_unlogged same]
  generalize loop'.events = events
  simp only [handleError]
  generalize (if loop.usedFallback = true then none else step.policy.fallbackTask) = fallback
  split
  · rfl
  · cases fallback with
    | some task => rfl
    | none =>
        simp only []
        split <;> rfl

/-- The answer to an attempt does not depend on the run. -/
theorem SameTasks.answer (same : left.SameTasks right) (input : run.input = run'.input)
    {id : TaskId} {task : Task} (known : left.registry id = some task) (attempt : UInt32) :
    left.answer run step dependencies task attempt =
      right.answer run' step dependencies task attempt := by
  rw [InMemoryExecutor.answer, InMemoryExecutor.answer, input]
  exact (same.deterministic id task known).executeWithin _ _ rfl

theorem SameTasks.turn (same : left.SameTasks right) (step : StepSpec)
    (dependencies : BTreeMap String Value) (input : run.input = run'.input)
    (unlogged : loop.unlogged = loop'.unlogged) :
    (left.turn run step dependencies loop).map summary =
      (right.turn run' step dependencies loop').map summary := by
  rw [StepLoop.eq_of_unlogged unlogged]
  generalize loop'.events = events
  cases known : left.registry loop.selectedTask with
  | none =>
      simp only [InMemoryExecutor.turn, same.registry, known]
      rfl
  | some task =>
      by_cases spent : step.policy.retry.budget ≤ loop.attempts ∧
          (loop.usedFallback = false ∨ loop.fallbackAttempted = true)
      · have stop : (decide (step.policy.retry.budget ≤ loop.attempts) &&
            (!loop.usedFallback || loop.fallbackAttempted)) = true := by simpa using spent
        simp only [InMemoryExecutor.turn, same.registry, known, stop, if_true]
        rfl
      · cases counted : left.overflow.addOne loop.attempts with
        | none =>
            have going : (decide (step.policy.retry.budget ≤ loop.attempts) &&
                (!loop.usedFallback || loop.fallbackAttempted)) = false := by
              rw [Bool.eq_false_iff]
              simpa using spent
            simp only [InMemoryExecutor.turn, same.registry, same.overflow, known, going, counted,
              Bool.false_eq_true, if_false]
        | some attempts =>
            have known' : right.registry ({ loop with events } : StepLoop).selectedTask =
                some task := by
              rw [same.registry, ← known]
            have counted' : right.overflow.addOne ({ loop with events } : StepLoop).attempts =
                some attempts := by
              rw [same.overflow, ← counted]
            rw [left.turn_of_attempt run dependencies known spent counted,
              right.turn_of_attempt run' dependencies known' spent counted',
              same.answer input known]
            cases right.answer run' step dependencies task attempts with
            | ok output => rfl
            | error error => exact congrArg some (handleError_summary _ _ error rfl)

/-- The record that a step comes to does not depend on the run. -/
theorem SameTasks.stepLoop (same : left.SameTasks right) (step : StepSpec)
    (dependencies : BTreeMap String Value) (input : run.input = run'.input)
    (fuel : Nat) (unlogged : loop.unlogged = loop'.unlogged) :
    (left.stepLoop run step dependencies fuel loop).map StepRunResult.record =
      (right.stepLoop run' step dependencies fuel loop').map StepRunResult.record := by
  induction fuel generalizing loop loop' with
  | zero => rfl
  | succ fuel ih =>
      have turned := same.turn step dependencies input unlogged
      rw [InMemoryExecutor.stepLoop, InMemoryExecutor.stepLoop]
      generalize left.turn run step dependencies loop = outcome at turned
      generalize right.turn run' step dependencies loop' = outcome' at turned
      cases outcome with
      | none =>
          cases outcome' with
          | none => rfl
          | some => cases turned
      | some outcome =>
          cases outcome' with
          | none => cases turned
          | some outcome' =>
              cases outcome with
              | inl next =>
                  cases outcome' with
                  | inl next' => exact ih (Sum.inl.inj (Option.some.inj turned))
                  | inr => cases turned
              | inr result =>
                  cases outcome' with
                  | inl => cases turned
                  | inr result' => exact congrArg some (Sum.inr.inj (Option.some.inj turned))

theorem SameTasks.executeStep (same : left.SameTasks right) (input : run.input = run'.input)
    {fuel fuel' : Nat} {result result' : StepRunResult}
    (ended : left.executeStep fuel run step dependencies = some result)
    (ended' : right.executeStep fuel' run' step dependencies = some result') :
    result.record = result'.record := by
  have mono := stepLoop_mono ended (Nat.le_max_left fuel fuel')
  have mono' := stepLoop_mono ended' (Nat.le_max_right fuel fuel')
  have records := same.stepLoop step dependencies input (max fuel fuel')
    (rfl : (StepLoop.start step).unlogged = _)
  rw [mono, mono'] at records
  exact Option.some.inj records

end Steps

section Runs

variable {left right : InMemoryExecutor} {workflow other : WorkflowSpec}
  {first first' last last' run run' : RunRecord} {log log' : List Execution}
  {chunks chunks' : List (List StepSpec)}

/-- The outputs passed to an execution are those of executions of its dependencies. -/
theorem Planned.output_of_dependency (planned : Planned left workflow first log last chunks)
    {e : Execution} (inside : e ∈ log) {dependency : StepId}
    (named : dependency ∈ e.step.dependsOn) :
    ∃ d ∈ log, d.step.id = dependency ∧ e.run.steps[dependency]? = some d.result.record := by
  obtain ⟨output, committed, -⟩ := (planned.proper e inside).supplied.each dependency named
  obtain ⟨record, found, -⟩ := Option.bind_eq_some_iff.mp committed
  obtain ⟨d, inside', own, rfl⟩ :=
    (planned.records dependency record).mp (planned.kept e inside dependency record found)
  exact ⟨d, inside', own, found⟩

/-- Executions of one step in two runs leave the same record. -/
theorem SameTasks.record_eq (same : left.SameTasks right) (reorders : workflow.Reorders other)
    (valid : workflow.validate = some (.ok ()))
    (planned : Planned left workflow first log last chunks)
    (planned' : Planned right other first' log' last' chunks')
    (input : first.input = first'.input) :
    ∀ step ∈ workflow.steps, ∀ e ∈ log, ∀ e' ∈ log', e.step = step → e'.step.id = step.id →
      e.result.record = e'.result.record := by
  refine WorkflowSpec.step_induction valid fun step _ earlier e inside e' inside' own own' => ?_
  subst own
  have proper := planned.proper e inside
  have proper' := planned'.proper e' inside'
  have step : e'.step = e.step := WorkflowSpec.step_eq_of_id valid
    (reorders.steps.mem_iff.mp proper'.listed) proper.listed own'
  have dependencies : dependencyOutputs e.run e.step = dependencyOutputs e'.run e.step := by
    refine Std.ExtTreeMap.ext_getElem? fun name => ?_
    rw [dependencyOutputs_getElem?, dependencyOutputs_getElem?]
    split
    next named =>
      obtain ⟨d, member, names, found⟩ := planned.output_of_dependency inside named
      obtain ⟨d', member', names', found'⟩ :=
        planned'.output_of_dependency inside' (step.symm ▸ named)
      have record := earlier d.step (planned.proper d member).listed (names ▸ named) d member d'
        member' rfl (names'.trans names.symm)
      rw [found, found', record]
    next => rfl
  obtain ⟨fuel, ended⟩ := proper.ended
  obtain ⟨fuel', ended'⟩ := proper'.ended
  rw [step, ← dependencies] at ended'
  have inputs : e.run.input = e'.run.input := by
    rw [proper.same.input, proper'.same.input, input]
  exact same.executeStep inputs ended ended'

/-- Steps recorded in both runs have the same record. -/
theorem SameTasks.common (same : left.SameTasks right) (reorders : workflow.Reorders other)
    (valid : workflow.validate = some (.ok ()))
    (planned : Planned left workflow first log last chunks)
    (planned' : Planned right other first' log' last' chunks') (input : first.input = first'.input)
    {id : StepId} {record record' : StepRecord} (found : last.steps[id]? = some record)
    (found' : last'.steps[id]? = some record') : record = record' := by
  obtain ⟨e, inside, own, rfl⟩ := (planned.records id record).mp found
  obtain ⟨e', inside', own', rfl⟩ := (planned'.records id record').mp found'
  exact same.record_eq reorders valid planned planned' input e.step
    (planned.proper e inside).listed e inside e' inside' rfl (own'.trans own.symm)

/-- Where one run failed, so did the other. -/
theorem SameTasks.failed_of_failed (same : left.SameTasks right)
    (reorders : workflow.Reorders other) (valid : workflow.validate = some (.ok ()))
    (planned : Planned left workflow first log last [])
    (planned' : Planned right other first' log' last' []) (input : first.input = first'.input)
    (ended' : last'.status = .failed ∨ other.steps.length ≤ last'.steps.size)
    (failed : last.status = .failed) : last'.status = .failed := by
  by_contra active
  have every := (planned'.not_failed_iff ended').mp active
  obtain ⟨going, -⟩ | ⟨-, broken, -⟩ := planned.status
  · rw [failed] at going
    cases going
  · obtain ⟨id, record, found, unsuccessful⟩ := BTreeMap.anyValue_iff.mp broken
    obtain ⟨e, inside, rfl, -⟩ := (planned.records id record).mp found
    obtain ⟨record', found', succeeded⟩ :=
      every e.step (reorders.steps.mem_iff.mpr (planned.proper e inside).listed)
    obtain rfl := same.common reorders valid planned planned' input found found'
    rw [beq_iff_eq, succeeded] at unsuccessful
    cases unsuccessful

/-- Without failures both runs recorded every step. -/
theorem SameTasks.steps_eq (same : left.SameTasks right) (reorders : workflow.Reorders other)
    (valid : workflow.validate = some (.ok ()))
    (planned : Planned left workflow first log last [])
    (planned' : Planned right other first' log' last' []) (input : first.input = first'.input)
    (every : ∀ step ∈ workflow.steps, ∃ record, last.steps[step.id]? = some record ∧
      record.status = .succeeded)
    (every' : ∀ step ∈ other.steps, ∃ record, last'.steps[step.id]? = some record ∧
      record.status = .succeeded) : last.steps = last'.steps := by
  refine Std.ExtTreeMap.ext_getElem? fun id => Option.ext fun record => ?_
  constructor
  · intro found
    obtain ⟨e, inside, rfl, -⟩ := (planned.records id record).mp found
    obtain ⟨record', found', -⟩ :=
      every' e.step (reorders.steps.mem_iff.mpr (planned.proper e inside).listed)
    rw [found', same.common reorders valid planned planned' input found found']
  · intro found'
    obtain ⟨e', inside', rfl, -⟩ := (planned'.records id record).mp found'
    obtain ⟨record', found, -⟩ :=
      every e'.step (reorders.steps.mem_iff.mp (planned'.proper e' inside').listed)
    rw [found, same.common reorders valid planned planned' input found found']

/-- Runs of the two executors on the workflow and a reordering of it come to the same. -/
structure EndAlike (left right : InMemoryExecutor) (workflow other : WorkflowSpec)
    (runId runId' : RunId) (now now' : UInt64) (input : Value) (metrics : List Metric) : Prop where
  /-- Where nothing fails but the tasks, both return a run. -/
  ends : left.Quiet → right.Quiet →
    (∃ stepFuel fuel run,
      left.executeWithMetrics stepFuel fuel runId now workflow input metrics = some (.ok run)) ∧
    ∃ stepFuel fuel run,
      right.executeWithMetrics stepFuel fuel runId' now' other input metrics = some (.ok run)
  /-- Any two runs that they return agree. -/
  alike : ∀ stepFuel fuel stepFuel' fuel' run run',
    left.executeWithMetrics stepFuel fuel runId now workflow input metrics = some (.ok run) →
    right.executeWithMetrics stepFuel' fuel' runId' now' other input metrics = some (.ok run') →
    run.status = run'.status ∧
    (∀ (id : StepId) (record record' : StepRecord), run.steps[id]? = some record →
      run'.steps[id]? = some record' → record = record') ∧
    (run.status = .succeeded → run.steps = run'.steps)

/-- Whether the tasks of a workflow are accepted does not depend on the order of its steps. -/
theorem SameTasks.validateTasks (same : left.SameTasks right) (reorders : workflow.Reorders other)
    (checked : left.validateTasks workflow = .ok ()) : right.validateTasks other = .ok () := by
  refine List.forM_eq_ok_iff.mpr fun step listed => ?_
  have passed := List.forM_eq_ok_iff.mp checked step (reorders.steps.mem_iff.mp listed)
  rw [same.registry, same.worker, reorders.id]
  exact passed

/-- A returned run is that of an executor that started and planned it. -/
theorem exists_prepared {runId : RunId} {now : UInt64} {input : Value} {metrics : List Metric}
    {stepFuel fuel : Nat} (executed : left.executeWithMetrics stepFuel fuel runId now workflow input
      metrics = some (.ok run)) :
    ∃ first, left.prepare runId now workflow input = some (.ok first) := by
  rw [executeWithMetrics] at executed
  split at executed
  · cases executed
  · cases executed
  next first prepared => exact ⟨first, prepared⟩

theorem SameTasks.alike (same : left.SameTasks right) (reorders : workflow.Reorders other)
    {runId runId' : RunId} {now now' : UInt64} {input : Value} {metrics : List Metric}
    {stepFuel fuel stepFuel' fuel' : Nat}
    (executed : left.executeWithMetrics stepFuel fuel runId now workflow input metrics =
      some (.ok run))
    (executed' : right.executeWithMetrics stepFuel' fuel' runId' now' other input metrics =
      some (.ok run')) :
    run.status = run'.status ∧
    (∀ (id : StepId) (record record' : StepRecord), run.steps[id]? = some record →
      run'.steps[id]? = some record' → record = record') ∧
    (run.status = .succeeded → run.steps = run'.steps) := by
  obtain ⟨first, prepared⟩ := exists_prepared executed
  obtain ⟨first', prepared'⟩ := exists_prepared executed'
  obtain ⟨starts, own, gates⟩ := starts_of_prepare prepared
  obtain ⟨starts', own', gates'⟩ := starts_of_prepare prepared'
  obtain ⟨log, last, _, same₁, reached, ended, steps, status, -⟩ :=
    starts.of_execute prepared executed (.inr ⟨run, rfl⟩)
  obtain ⟨log', last', _, same₂, reached', ended', steps', status', -⟩ :=
    starts'.of_execute prepared' executed' (.inr ⟨run', rfl⟩)
  obtain rfl := Except.ok.inj same₁
  obtain rfl := Except.ok.inj same₂
  have planned := starts.planned reached
  have planned' := starts'.planned reached'
  have inputs : first.input = first'.input := own.trans own'.symm
  have failures : last.status = .failed ↔ last'.status = .failed :=
    ⟨same.failed_of_failed reorders starts.valid planned planned' inputs ended',
      same.symm.failed_of_failed reorders.symm starts'.valid planned' planned inputs.symm ended⟩
  have decisions :
      (last.setMetrics metrics).gatesPassed = (last'.setMetrics metrics).gatesPassed := by
    have manifests : last.manifest.evaluationGates = last'.manifest.evaluationGates := by
      rw [planned.same.manifest, planned'.same.manifest, gates, gates',
        reorders.evaluationGates]
    simp only [RunRecord.setMetrics, RunRecord.gatesPassed, manifests]
  rw [status, status', steps, steps', conclude_status, conclude_status, decisions]
  refine ⟨by simp only [ne_eq, failures], ?_, fun succeeded => ?_⟩
  · exact fun id record record' =>
      same.common reorders starts.valid planned planned' inputs
  · have active : last.status ≠ .failed := by
      intro failed
      rw [if_neg fun fulfilled => fulfilled.1 failed] at succeeded
      cases succeeded
    exact same.steps_eq reorders starts.valid planned planned' inputs
      ((planned.not_failed_iff ended).mp active)
      ((planned'.not_failed_iff ended').mp (mt failures.mpr active))

/-- The schedule does not change what a run of deterministic tasks comes to, just if it
starts no step that exhausts its attempt counter where overflow panics. -/
theorem schedules_agree_iff (left right : InMemoryExecutor) (same : left.SameTasks right)
    (workflow other : WorkflowSpec) (reorders : workflow.Reorders other)
    (valid : workflow.validate = some (.ok ())) (checked : left.validateTasks workflow = .ok ())
    (runId runId' : RunId) (now now' : UInt64) (input : Value) (metrics : List Metric) :
    EndAlike left right workflow other runId runId' now now' input metrics ↔
      (left.Quiet → right.Quiet →
        (∀ first, left.prepare runId now workflow input = some (.ok first) →
          left.Countable workflow first) ∧
        ∀ first, right.prepare runId' now' other input = some (.ok first) →
          right.Countable other first) := by
  have valid' := reorders.validate valid
  have checked' := same.validateTasks reorders checked
  constructor
  · intro alike quiet quiet'
    obtain ⟨ends, ends'⟩ := alike.ends quiet quiet'
    exact ⟨(returns_iff metrics quiet valid checked).mp ends,
      (returns_iff metrics quiet' valid' checked').mp ends'⟩
  · intro countable
    refine ⟨fun quiet quiet' => ?_, fun _ _ _ _ _ _ executed executed' =>
      same.alike reorders executed executed'⟩
    obtain ⟨here, there⟩ := countable quiet quiet'
    exact ⟨(returns_iff metrics quiet valid checked).mpr here,
      (returns_iff metrics quiet' valid' checked').mpr there⟩

end Runs

end InMemoryExecutor

namespace Sample

/-- The task answers by the script, whatever its context. -/
theorem memory_deterministic (script : Script) (id : TaskId) (task : Task)
    (known : (memory script).registry id = some task) : task.Deterministic := by
  obtain rfl := Option.some.inj known
  exact ⟨fun _ _ _ same => congrArg (script id) same, fun _ _ _ _ => rfl⟩

theorem memory_sameTasks (script : Script) : (memory script).SameTasks (memory script) :=
  ⟨rfl, rfl, rfl, memory_deterministic script⟩

/-- A step whose task fails for good. -/
def broken : StepSpec := { step "broken" 1 false with task := ⟨"flop"⟩ }

/-- The task of the one step fails and the other tasks are always busy. -/
def brokenOrBusy : Script := fun id _ =>
  if id = ⟨"flop"⟩ then .error (.permanent "broken") else .error (.transient "busy")

/-- Steps run in twos. -/
def wide (script : Script) : InMemoryExecutor :=
  { memory script with options := ⟨2, worker, provenance, by decide⟩ }

theorem memory_wide_sameTasks (script : Script) : (memory script).SameTasks (wide script) :=
  ⟨rfl, rfl, rfl, memory_deterministic script⟩

def rightFirst : WorkflowSpec := (request [step "right" 2 false, step "left" 2 false] []).workflow

theorem leftFirst_reorders : leftFirst.Reorders rightFirst :=
  ⟨rfl, rfl, List.Perm.swap _ _ [], rfl⟩

/-- The two steps, in either order. -/
def brokenFirst : WorkflowSpec := (request [broken, tireless] []).workflow

def brokenLast : WorkflowSpec := (request [tireless, broken] []).workflow

theorem brokenFirst_reorders : brokenFirst.Reorders brokenLast :=
  ⟨rfl, rfl, List.Perm.swap broken tireless [], rfl⟩

end Sample

/-- Two steps whose first attempts fail end alike, one at a time and in twos. -/
theorem InMemoryExecutor.schedules_agree_iff_transient :
    EndAlike (Sample.memory (Sample.failFirst (.transient "busy")))
      (Sample.wide (Sample.failFirst (.transient "busy"))) Sample.leftFirst Sample.rightFirst
      Sample.runId Sample.runId 0 0 .null [] := by
  apply (InMemoryExecutor.schedules_agree_iff _ _ (Sample.memory_wide_sameTasks _) Sample.leftFirst
    Sample.rightFirst Sample.leftFirst_reorders (by decide +kernel) (by decide +kernel)
    Sample.runId Sample.runId 0 0 .null []).mpr
  intro quiet quiet'
  constructor
  · intro first prepared
    obtain ⟨starts, -⟩ := InMemoryExecutor.starts_of_prepare prepared
    exact starts.countable (by decide)
  · intro first prepared
    obtain ⟨starts, -⟩ := InMemoryExecutor.starts_of_prepare prepared
    exact starts.countable (by decide)

/-- One order of the steps ends in a failed run, and the other one in a panic. -/
theorem InMemoryExecutor.order_decides :
    (Sample.memory Sample.brokenOrBusy).Quiet ∧
    (Sample.memory Sample.brokenOrBusy).SameTasks (Sample.memory Sample.brokenOrBusy) ∧
    Sample.brokenFirst.Reorders Sample.brokenLast ∧
    Sample.brokenFirst.validate = some (.ok ()) ∧
    (Sample.memory Sample.brokenOrBusy).validateTasks Sample.brokenFirst = .ok () ∧
    (∃ run, (Sample.memory Sample.brokenOrBusy).executeWithMetrics 2 2 Sample.runId 0
      Sample.brokenFirst .null [] = some (.ok run) ∧ run.status = .failed) ∧
    ¬ EndAlike (Sample.memory Sample.brokenOrBusy) (Sample.memory Sample.brokenOrBusy)
      Sample.brokenFirst Sample.brokenLast Sample.runId Sample.runId 0 0 .null [] := by
  have quiet : (Sample.memory Sample.brokenOrBusy).Quiet := Sample.memory_quiet _
  have valid : Sample.brokenLast.validate = some (.ok ()) := by decide +kernel
  have checked : (Sample.memory Sample.brokenOrBusy).validateTasks Sample.brokenLast = .ok () := by
    decide +kernel
  have fails : ((Sample.memory Sample.brokenOrBusy).executeWithMetrics 2 2 Sample.runId 0
      Sample.brokenFirst .null []).any (fun outcome => outcome.toOption.any fun run =>
        run.status == .failed) = true := by decide +kernel
  refine ⟨quiet, Sample.memory_sameTasks _, Sample.brokenFirst_reorders, by decide +kernel,
    by decide +kernel, ?_, fun alike => ?_⟩
  · obtain ⟨outcome, executed, failed⟩ := (Option.any_eq_true _ _).mp fails
    obtain ⟨run, returned, failed⟩ := (Option.any_eq_true _ _).mp failed
    refine ⟨run, ?_, beq_iff_eq.mp failed⟩
    cases outcome with
    | error error => cases returned
    | ok run' => rw [executed, Option.some.inj returned]
  · obtain ⟨first, prepared⟩ :=
      InMemoryExecutor.prepare_quiet quiet valid checked Sample.runId 0 .null
    obtain ⟨starts, -⟩ := InMemoryExecutor.starts_of_prepare prepared
    have countable := (InMemoryExecutor.returns_iff [] quiet valid checked).mp
      (alike.ends quiet quiet).2 first prepared
    refine Sample.tireless_uncountable starts rfl rfl (fun _ _ => ⟨"busy", rfl⟩) ?_ rfl countable
    intro step listed
    obtain rfl | listed := List.mem_cons.mp listed
    · rfl
    · rw [List.mem_singleton.mp listed]
      rfl

end Orchestrator
