import Orchestrator.Executor.Agreement
import Orchestrator.Executor.Completion

/-!
# How a run of the process-local executor ends

What the loop returns is a reached state, in which a step has failed or every
step is recorded as a success, and the gates have the last word.
-/

namespace Orchestrator

open Json (Value)

/-- Every step of the workflow succeeded and every gate decision passed. -/
def RunRecord.Fulfills (run : RunRecord) (workflow : WorkflowSpec) : Prop :=
  (∀ step ∈ workflow.steps, ∃ record, run.steps[step.id]? = some record ∧
    record.status = .succeeded) ∧ run.gatesPassed = true

namespace InMemoryExecutor

variable {executor : InMemoryExecutor} {workflow : WorkflowSpec} {first run last : RunRecord}
  {log : List Execution} {chunks : List (List StepSpec)}

/-- What a wave returns is a reached state, unless an adapter failed. -/
theorem Reached.of_runChunks {fuel : Nat} {outcome : Except OrchestratorError RunRecord}
    (reached : executor.Reached workflow first log run chunks)
    (ran : executor.runChunks fuel run chunks = some outcome)
    (intact : executor.Quiet ∨ ∃ last, outcome = .ok last) :
    ∃ log' last, outcome = .ok last ∧ executor.Reached workflow first log' last [] := by
  induction chunks generalizing log run with
  | nil => exact ⟨log, run, (Option.some.inj ran).symm, reached⟩
  | cons chunk rest ih =>
      rw [runChunks_cons] at ran
      split at ran
      · cases ran
      next results mapped =>
        cases stored : executor.settleChunk run results with
        | error error =>
            rw [stored] at ran
            obtain rfl := Option.some.inj ran
            obtain quiet | ⟨last, same⟩ := intact
            · obtain ⟨settled, stored'⟩ := settleChunk_quiet quiet results run
              rw [stored] at stored'
              cases stored'
            · cases same
        | ok settled =>
            rw [stored] at ran
            simp only at ran
            split at ran
            next broken =>
              exact ⟨_, _, (Option.some.inj ran).symm, .failed reached ⟨fuel, mapped⟩ stored broken⟩
            next passed =>
              exact ih (.passed reached ⟨fuel, mapped⟩ stored (Bool.eq_false_iff.mpr passed)) ran

/-- What the loop returns is a reached state: a step failed, or none is missing. -/
theorem Starts.of_drive (starts : Starts executor workflow first) {stepFuel fuel : Nat}
    {outcome : Except OrchestratorError RunRecord}
    (reached : executor.Reached workflow first log run []) (active : run.status ≠ .failed)
    (driven : executor.drive stepFuel workflow fuel run = some outcome)
    (intact : executor.Quiet ∨ ∃ last, outcome = .ok last) :
    ∃ log' last, outcome = .ok last ∧ executor.Reached workflow first log' last [] ∧
      (last.status = .failed ∨ workflow.steps.length ≤ last.steps.size) := by
  induction fuel generalizing log run with
  | zero => cases driven
  | succ fuel ih =>
      by_cases complete : workflow.steps.length ≤ run.steps.size
      · rw [drive_of_complete executor _ _ complete] at driven
        exact ⟨log, run, (Option.some.inj driven).symm, reached, .inr complete⟩
      · have unfinished := Nat.lt_of_not_le complete
        have ready := (starts.planned reached).ready_ne_nil starts.valid active unfinished
        rw [drive_of_ready executor _ _ unfinished ready] at driven
        cases ran : executor.runChunks stepFuel run
            ((readySteps workflow run).toChunks executor.options.maxParallelSteps) with
        | none =>
            rw [ran] at driven
            cases driven
        | some waved =>
            have unbroken : executor.Quiet ∨ ∃ middle, waved = .ok middle := by
              refine intact.imp_right fun ok => ?_
              cases waved with
              | ok middle => exact ⟨middle, rfl⟩
              | error error =>
                  obtain ⟨last, rfl⟩ := ok
                  rw [ran] at driven
                  cases driven
            obtain ⟨log', middle, rfl, later⟩ :=
              Reached.of_runChunks (.wave reached unfinished active) ran unbroken
            rw [ran, resume] at driven
            split at driven
            next failed => exact ⟨log', middle, (Option.some.inj driven).symm, later, .inl failed⟩
            next going => exact ih later going driven

/-- At its end the loop left the run failed just if some step did not succeed. -/
theorem Planned.not_failed_iff (planned : Planned executor workflow first log last [])
    (ended : last.status = .failed ∨ workflow.steps.length ≤ last.steps.size) :
    last.status ≠ .failed ↔ ∀ step ∈ workflow.steps, ∃ record,
      last.steps[step.id]? = some record ∧ record.status = .succeeded := by
  constructor
  · intro active step listed
    have known : last.steps.keys ⊆ workflow.stepIds := by
      intro id member
      obtain ⟨record, found⟩ := BTreeMap.mem_keys_iff.mp member
      obtain ⟨e, inside, rfl, -⟩ := (planned.records id record).mp found
      exact List.mem_map_of_mem (planned.proper e inside).listed
    have perm : last.steps.keys.Perm workflow.stepIds := by
      refine (List.subperm_of_subset Std.ExtTreeMap.nodup_keys known).perm_of_length_le ?_
      rw [WorkflowSpec.stepIds, List.length_map, Std.ExtTreeMap.length_keys]
      exact ended.resolve_left active
    have member : step.id ∈ last.steps.keys := perm.mem_iff.mpr (List.mem_map_of_mem listed)
    obtain ⟨record, found⟩ := BTreeMap.mem_keys_iff.mp member
    exact ⟨record, found, planned.succeeded active found⟩
  · intro every failed
    obtain ⟨active, -⟩ | ⟨-, broken, -⟩ := planned.status
    · rw [failed] at active
      cases active
    · obtain ⟨id, record, found, unsuccessful⟩ := BTreeMap.anyValue_iff.mp broken
      obtain ⟨e, inside, rfl, -⟩ := (planned.records id record).mp found
      obtain ⟨record', found', succeeded⟩ := every e.step (planned.proper e inside).listed
      obtain rfl := Option.some.inj (found.symm.trans found')
      rw [beq_iff_eq, succeeded] at unsuccessful
      cases unsuccessful

/-- The gates decide on a run that the loop did not leave failed. -/
theorem conclude_status (run : RunRecord) (metrics : List Metric) :
    (conclude run metrics).status =
      if run.status ≠ .failed ∧ (run.setMetrics metrics).gatesPassed = true then .succeeded
      else .failed := by
  by_cases failed : run.status = .failed
  · simp [conclude, failed]
  · cases passed : (run.setMetrics metrics).gatesPassed with
    | true => simp [conclude, failed, passed]
    | false => simp [conclude, failed, passed]

theorem conclude_kept (run : RunRecord) (metrics : List Metric) :
    (conclude run metrics).steps = run.steps ∧
      (conclude run metrics).gateDecisions = (run.setMetrics metrics).gateDecisions := by
  simp only [conclude]
  split <;> split <;> exact ⟨rfl, rfl⟩

theorem finish_quiet (quiet : executor.Quiet) (run : RunRecord) :
    executor.finish run = .ok { run with
      events := run.events ++ [.runFinished run.runId run.status]
      revision := run.revision.saturatingAdd 1 } := by
  simp only [finish, emit_quiet quiet, bind, Except.bind, save_quiet quiet, pure, Except.pure]

/-- What the executor returns is a concluded state of the loop. -/
theorem Starts.of_execute (starts : Starts executor workflow first) {stepFuel fuel : Nat}
    {runId : RunId} {now : UInt64} {input : Value} {metrics : List Metric}
    {outcome : Except OrchestratorError RunRecord}
    (prepared : executor.prepare runId now workflow input = some (.ok first))
    (executed : executor.executeWithMetrics stepFuel fuel runId now workflow input metrics =
      some outcome) (intact : executor.Quiet ∨ ∃ run, outcome = .ok run) :
    ∃ log last run, outcome = .ok run ∧ executor.Reached workflow first log last [] ∧
      (last.status = .failed ∨ workflow.steps.length ≤ last.steps.size) ∧
      run.steps = last.steps ∧ run.status = (conclude last metrics).status ∧
      run.gateDecisions = (last.setMetrics metrics).gateDecisions := by
  rw [executeWithMetrics, prepared] at executed
  simp only at executed
  cases driven : executor.drive stepFuel workflow fuel first with
  | none =>
      rw [driven] at executed
      cases executed
  | some looped =>
      have active : first.status ≠ .failed := by
        rw [starts.running]
        decide
      have unbroken : executor.Quiet ∨ ∃ last, looped = .ok last := by
        refine intact.imp_right fun ok => ?_
        cases looped with
        | ok last => exact ⟨last, rfl⟩
        | error error =>
            obtain ⟨run, rfl⟩ := ok
            rw [driven] at executed
            cases executed
      obtain ⟨log, last, rfl, reached, ended⟩ := starts.of_drive .start active driven unbroken
      rw [driven] at executed
      obtain ⟨steps, decisions⟩ := conclude_kept last metrics
      obtain ⟨run, finished⟩ : ∃ run, executor.finish (conclude last metrics) = .ok run := by
        obtain quiet | ⟨run, rfl⟩ := intact
        · exact ⟨_, finish_quiet quiet _⟩
        · exact ⟨run, Option.some.inj executed⟩
      obtain rfl := (Option.some.inj executed).symm.trans finished
      obtain rfl := finish_ok finished
      exact ⟨log, last, _, rfl, reached, ended, steps, rfl, decisions⟩

/-- A run succeeds just if it fulfils the workflow, and it fails otherwise. -/
theorem Starts.verdict (starts : Starts executor workflow first)
    {metrics : List Metric} (reached : executor.Reached workflow first log last [])
    (ended : last.status = .failed ∨ workflow.steps.length ≤ last.steps.size)
    (steps : run.steps = last.steps) (status : run.status = (conclude last metrics).status)
    (decisions : run.gateDecisions = (last.setMetrics metrics).gateDecisions) :
    (run.status = .succeeded ↔ run.Fulfills workflow) ∧
      (run.status = .failed ↔ ¬ run.Fulfills workflow) := by
  have passed : run.gatesPassed = (last.setMetrics metrics).gatesPassed := by
    rw [RunRecord.gatesPassed, decisions, RunRecord.gatesPassed]
  rw [RunRecord.Fulfills, steps, ← (starts.planned reached).not_failed_iff ended, passed, status,
    conclude_status]
  split
  next fulfilled => exact ⟨⟨fun _ => fulfilled, fun _ => rfl⟩,
    ⟨fun failed => (nomatch failed), fun broken => absurd fulfilled broken⟩⟩
  next broken =>
    exact ⟨⟨fun succeeded => (nomatch succeeded), fun fulfilled => absurd fulfilled broken⟩,
      ⟨fun _ => broken, fun _ => rfl⟩⟩

/-- The executor runs the workflow to the right end. -/
structure RunsRight (executor : InMemoryExecutor) (workflow : WorkflowSpec) (runId : RunId)
    (now : UInt64) (input : Value) (metrics : List Metric) : Prop where
  /-- It returns a run. -/
  ends : ∃ stepFuel fuel run,
    executor.executeWithMetrics stepFuel fuel runId now workflow input metrics = some (.ok run)
  /-- As long as steps are missing and none has failed, one is ready. -/
  advances : ∀ first log run, executor.prepare runId now workflow input = some (.ok first) →
    executor.Reached workflow first log run [] → run.status ≠ .failed →
    run.steps.size < workflow.steps.length → readySteps workflow run ≠ []
  /-- Each step is executed at most once, with the outputs of all its dependencies,
  and the records are those of the executions. -/
  once : ∀ first log run chunks, executor.prepare runId now workflow input = some (.ok first) →
    executor.Reached workflow first log run chunks →
    (log.map fun e => e.step.id).Nodup ∧ (∀ e ∈ log, executor.Proper workflow first e) ∧
      ∀ (id : StepId) (record : StepRecord), run.steps[id]? = some record ↔
        ∃ e ∈ log, e.step.id = id ∧ e.result.record = record
  /-- What it returns has the records of a reached state and the right status. -/
  verdict : ∀ stepFuel fuel outcome,
    executor.executeWithMetrics stepFuel fuel runId now workflow input metrics = some outcome →
    ∃ run, outcome = .ok run ∧
      (∃ first log last, executor.prepare runId now workflow input = some (.ok first) ∧
        executor.Reached workflow first log last [] ∧ run.steps = last.steps) ∧
      (run.status = .succeeded ↔ run.Fulfills workflow) ∧
      (run.status = .failed ↔ ¬ run.Fulfills workflow)

/-- Where nothing fails but the tasks, the executor returns a run just if it starts
no step that exhausts its attempt counter where overflow panics. -/
theorem returns_iff {runId : RunId} {now : UInt64} {input : Value} (metrics : List Metric)
    (quiet : executor.Quiet) (valid : workflow.validate = some (.ok ()))
    (checked : executor.validateTasks workflow = .ok ()) :
    (∃ stepFuel fuel run, executor.executeWithMetrics stepFuel fuel runId now workflow input
      metrics = some (.ok run)) ↔
      ∀ first, executor.prepare runId now workflow input = some (.ok first) →
        executor.Countable workflow first := by
  obtain ⟨first, prepared⟩ := prepare_quiet quiet valid checked runId now input
  obtain ⟨starts, -⟩ := starts_of_prepare prepared
  constructor
  · rintro ⟨stepFuel, fuel, run, executed⟩ first' prepared'
    obtain rfl := Except.ok.inj (Option.some.inj (prepared'.symm.trans prepared))
    by_contra uncountable
    rw [executeWithMetrics, prepared] at executed
    simp only [starts.stuck uncountable] at executed
    cases executed
  · intro countable
    have active : first.status ≠ .failed := by
      rw [starts.running]
      decide
    obtain ⟨log, last, driven, -⟩ := starts.drive quiet (countable first prepared)
      workflow.steps.length [] first .start active (Nat.le_add_left _ _)
    obtain ⟨final, finished⟩ : ∃ final, executor.finish (conclude last metrics) = .ok final :=
      ⟨_, finish_quiet quiet _⟩
    refine ⟨enoughTurns, workflow.steps.length + 1, final, ?_⟩
    rw [executeWithMetrics, prepared]
    simp only [driven, finished]

/-- The executor runs a valid workflow to the right end just if it starts no step
that exhausts its attempt counter where overflow panics. -/
theorem runs_right_iff (executor : InMemoryExecutor) (workflow : WorkflowSpec) (runId : RunId)
    (now : UInt64) (input : Value) (metrics : List Metric) (quiet : executor.Quiet)
    (valid : workflow.validate = some (.ok ()))
    (checked : executor.validateTasks workflow = .ok ()) :
    executor.RunsRight workflow runId now input metrics ↔
      ∀ first, executor.prepare runId now workflow input = some (.ok first) →
        executor.Countable workflow first := by
  rw [← returns_iff metrics quiet valid checked]
  refine ⟨RunsRight.ends, fun ends => ⟨ends, ?_, ?_, ?_⟩⟩
  · intro first log run prepared reached active unfinished
    exact ((starts_of_prepare prepared).1.planned reached).ready_ne_nil valid active unfinished
  · intro first log run chunks prepared reached
    have planned := (starts_of_prepare prepared).1.planned reached
    exact ⟨planned.once, planned.proper, planned.records⟩
  · intro stepFuel fuel outcome executed
    obtain ⟨first, prepared⟩ := prepare_quiet quiet valid checked runId now input
    obtain ⟨starts, -⟩ := starts_of_prepare prepared
    obtain ⟨log, last, run, rfl, reached, ended, steps, status, decisions⟩ :=
      starts.of_execute prepared executed (.inl quiet)
    exact ⟨run, rfl, ⟨first, log, last, prepared, reached, steps⟩,
      starts.verdict reached ended steps status decisions⟩

end InMemoryExecutor

namespace Sample

theorem memory_quiet (script : Script) : (memory script).Quiet :=
  ⟨fun _ _ => rfl, fun _ => rfl⟩

/-- The step with the largest budget, whose tasks are always busy. -/
def tireless : StepSpec := step "only" 4294967295 true

def busy : Script := fun _ _ => .error (.transient "busy")

/-- Before anything is recorded, the steps without dependencies are ready. -/
theorem readySteps_of_unrecorded {workflow : WorkflowSpec} {first : RunRecord}
    (unrecorded : first.steps = ∅) (alone : ∀ step ∈ workflow.steps, step.dependsOn = []) :
    InMemoryExecutor.readySteps workflow first = workflow.steps := by
  refine List.filter_eq_self.mpr fun step listed => ?_
  simp [unrecorded, dependenciesSucceeded, alone step listed]

/-- Where the loop starts with the step, it does not end. -/
theorem tireless_uncountable {executor : InMemoryExecutor} {workflow : WorkflowSpec}
    {first : RunRecord} (starts : executor.Starts workflow first)
    (checked : executor.overflow = .panics) {task : Task}
    (known : executor.registry tireless.task = some task)
    (fails : ∀ input context, ∃ text, task.execute input context = .error (.transient text))
    (alone : ∀ step ∈ workflow.steps, step.dependsOn = []) {chunk : List StepSpec}
    {rest : List (List StepSpec)} (cut : workflow.steps.toChunks executor.options.maxParallelSteps =
      (tireless :: chunk) :: rest) : ¬ executor.Countable workflow first := by
  have listed : tireless ∈ workflow.steps := by
    rw [← List.flatten_toChunks executor.options.maxParallelSteps workflow.steps, cut]
    exact List.mem_append_left _ List.mem_cons_self
  have unfinished : first.steps.size < workflow.steps.length := by
    rw [starts.unrecorded]
    exact List.length_pos_of_mem listed
  have started := InMemoryExecutor.Reached.wave
    (.start : executor.Reached workflow first [] first []) unfinished
    (by rw [starts.running]; decide)
  rw [readySteps_of_unrecorded starts.unrecorded alone, cut] at started
  intro countable
  obtain wraps | fits := countable _ _ _ _ started tireless List.mem_cons_self
  · rw [checked] at wraps
    cases wraps
  · refine fits ⟨rfl, Option.some_ne_none _, task, known, fun attempt _ _ => ?_⟩
    obtain ⟨text, failed⟩ := fails (buildStepInput first.input (dependencyOutputs first tireless))
      { runId := first.runId, workflowId := first.workflow.id, stepId := tireless.id, attempt
        task := task.spec, worker := some executor.options.worker.id }
    exact ⟨_, failed, fun _ => rfl⟩

/-- Two steps that may be tried twice. -/
def leftFirst : WorkflowSpec := (request [step "left" 2 false, step "right" 2 false] []).workflow

end Sample

/-- Two steps whose first attempts fail are run to the right end. -/
theorem InMemoryExecutor.runs_right_iff_transient :
    (Sample.memory (Sample.failFirst (.transient "busy"))).RunsRight Sample.leftFirst Sample.runId 0
      .null [] := by
  apply (InMemoryExecutor.runs_right_iff _ Sample.leftFirst Sample.runId 0 .null []
    (Sample.memory_quiet _) (by decide +kernel) (by decide +kernel)).mpr
  intro first prepared
  obtain ⟨starts, -⟩ := InMemoryExecutor.starts_of_prepare prepared
  exact starts.countable (by decide)

/-- The fallback gets an attempt whose number does not fit. -/
theorem InMemoryExecutor.spent_budget_overflows :
    (Sample.memory Sample.busy).Quiet ∧
    (Sample.request [Sample.tireless] []).workflow.validate = some (.ok ()) ∧
    (Sample.memory Sample.busy).validateTasks (Sample.request [Sample.tireless] []).workflow =
      .ok () ∧
    ¬ (Sample.memory Sample.busy).RunsRight (Sample.request [Sample.tireless] []).workflow
      Sample.runId 0 .null [] := by
  have quiet := Sample.memory_quiet Sample.busy
  have valid : (Sample.request [Sample.tireless] []).workflow.validate = some (.ok ()) := by
    decide +kernel
  have checked : (Sample.memory Sample.busy).validateTasks
      (Sample.request [Sample.tireless] []).workflow = .ok () := by decide +kernel
  refine ⟨quiet, valid, checked, fun right => ?_⟩
  obtain ⟨first, prepared⟩ :=
    InMemoryExecutor.prepare_quiet quiet valid checked Sample.runId 0 .null
  obtain ⟨starts, -⟩ := InMemoryExecutor.starts_of_prepare prepared
  have countable := (InMemoryExecutor.returns_iff [] quiet valid checked).mp right.ends first
    prepared
  refine Sample.tireless_uncountable starts rfl rfl (fun _ _ => ⟨"busy", rfl⟩) ?_ rfl countable
  exact fun step listed => by rw [List.mem_singleton.mp listed]; rfl

end Orchestrator
