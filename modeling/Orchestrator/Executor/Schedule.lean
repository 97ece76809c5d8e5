import Orchestrator.Executor.Termination
import Orchestrator.Foundation.Lists
import Orchestrator.Model.Topology
import Orchestrator.Repository.Gates
import Orchestrator.Repository.Inputs

/-!
# The schedule of the process-local executor

`Reached` are the states that the loop over the ready steps comes to: the steps
executed so far, the run as it then stands, and the chunks of the wave that are
still to run.
-/

namespace Orchestrator

open Json (Value)

/-- One execution of a step, with the run that it was started on. -/
structure Execution where
  run : RunRecord
  step : StepSpec
  result : StepRunResult

namespace InMemoryExecutor

/-- The store and the event sink never fail. -/
structure Quiet (executor : InMemoryExecutor) : Prop where
  emit : ∀ run event, executor.emitEvent run event = .ok ()
  save : ∀ run, executor.saveRun run = .ok ()

/-- The chunk of steps ran on the run to these results. -/
def ChunkRuns (executor : InMemoryExecutor) (run : RunRecord) (chunk : List StepSpec)
    (results : List StepRunResult) : Prop :=
  ∃ fuel, chunk.mapM (fun step =>
    executor.executeStep fuel run step (dependencyOutputs run step)) = some results

/-- The run with the events and the records of a chunk, stored. -/
def settleChunk (executor : InMemoryExecutor) (run : RunRecord) (results : List StepRunResult) :
    Except OrchestratorError RunRecord := do
  let run ← results.foldlM executor.collect run
  executor.save run
  return run

/-- The executions of a chunk. -/
def executions (run : RunRecord) (chunk : List StepSpec) (results : List StepRunResult) :
    List Execution :=
  (chunk.zip results).map fun pair => ⟨run, pair.1, pair.2⟩

/-- The states that the loop comes to from the first one. -/
inductive Reached (executor : InMemoryExecutor) (workflow : WorkflowSpec) (first : RunRecord) :
    List Execution → RunRecord → List (List StepSpec) → Prop where
  | start : Reached executor workflow first [] first []
  | wave {log : List Execution} {run : RunRecord}
      (before : Reached executor workflow first log run [])
      (unfinished : run.steps.size < workflow.steps.length) (active : run.status ≠ .failed) :
      Reached executor workflow first log run
        ((readySteps workflow run).toChunks executor.options.maxParallelSteps)
  | passed {log : List Execution} {run run' : RunRecord} {chunk : List StepSpec}
      {rest : List (List StepSpec)} {results : List StepRunResult}
      (before : Reached executor workflow first log run (chunk :: rest))
      (ran : executor.ChunkRuns run chunk results)
      (settled : executor.settleChunk run results = .ok run') (intact : run'.hasFailed = false) :
      Reached executor workflow first (log ++ executions run chunk results) run' rest
  | failed {log : List Execution} {run run' : RunRecord} {chunk : List StepSpec}
      {rest : List (List StepSpec)} {results : List StepRunResult}
      (before : Reached executor workflow first log run (chunk :: rest))
      (ran : executor.ChunkRuns run chunk results)
      (settled : executor.settleChunk run results = .ok run') (broken : run'.hasFailed = true) :
      Reached executor workflow first (log ++ executions run chunk results)
        { run' with status := .failed, error := firstError run' } []

section Chunks

variable {executor : InMemoryExecutor} {run run' : RunRecord}

theorem emit_quiet (quiet : executor.Quiet) (run : RunRecord) (event : ExecutionEvent) :
    executor.emit run event = .ok { run with
      events := run.events ++ [event], revision := run.revision.saturatingAdd 1 } := by
  simp only [emit, quiet.emit]

theorem save_quiet (quiet : executor.Quiet) (run : RunRecord) : executor.save run = .ok () := by
  simp only [save, quiet.save]

/-- The run gains records and nothing else that the schedule looks at. -/
structure Gains (run : RunRecord) (records : List StepRecord) (run' : RunRecord) : Prop where
  steps : run'.steps = records.foldl (fun steps record => steps.insert record.id record) run.steps
  same : run.SameRequest run'
  status : run'.status = run.status

theorem Gains.refl (run : RunRecord) : Gains run [] run := ⟨rfl, .refl run, rfl⟩

theorem Gains.trans {run'' : RunRecord} {records more : List StepRecord}
    (h : Gains run records run') (h' : Gains run' more run'') :
    Gains run (records ++ more) run'' := by
  refine ⟨?_, h.same.trans h'.same, h'.status.trans h.status⟩
  rw [h'.steps, h.steps, List.foldl_append]

theorem emit_gains {events : List ExecutionEvent}
    (emitted : events.foldlM executor.emit run = .ok run') : Gains run [] run' := by
  induction events generalizing run with
  | nil =>
      obtain rfl := Except.ok.inj emitted
      exact .refl run
  | cons event events ih =>
      rw [List.foldlM_cons] at emitted
      cases logged : executor.emit run event with
      | error error =>
          rw [logged] at emitted
          cases emitted
      | ok middle =>
          rw [logged] at emitted
          obtain rfl := emit_ok logged
          have gains := ih emitted
          exact ⟨gains.steps, ⟨gains.same.runId, gains.same.workflow, gains.same.manifest,
            gains.same.input⟩, gains.status⟩

theorem collect_gains {result : StepRunResult}
    (collected : executor.collect run result = .ok run') :
    Gains run [result.record] run' := by
  rw [collect] at collected
  cases emitted : result.events.foldlM executor.emit run with
  | error error =>
      rw [emitted] at collected
      cases collected
  | ok logged =>
      have gains := emit_gains emitted
      rw [emitted] at collected
      obtain rfl := Except.ok.inj collected
      refine ⟨?_, gains.same.trans (.setStep _ _), gains.status⟩
      rw [RunRecord.setStep_steps, gains.steps]
      rfl

/-- A run gains the records of the results that are collected. -/
theorem gains_of_collect {results : List StepRunResult}
    (collected : results.foldlM executor.collect run = .ok run') :
    Gains run (results.map StepRunResult.record) run' := by
  induction results generalizing run with
  | nil =>
      obtain rfl := Except.ok.inj collected
      exact .refl run
  | cons result results ih =>
      rw [List.foldlM_cons] at collected
      cases first : executor.collect run result with
      | error error =>
          rw [first] at collected
          cases collected
      | ok middle =>
          rw [first] at collected
          exact (collect_gains first).trans (ih collected)

/-- A run gains the records of the results of a chunk that settles. -/
theorem gains_of_settleChunk {results : List StepRunResult}
    (settled : executor.settleChunk run results = .ok run') :
    Gains run (results.map StepRunResult.record) run' := by
  rw [settleChunk] at settled
  cases collected : results.foldlM executor.collect run with
  | error error =>
      rw [collected] at settled
      cases settled
  | ok last =>
      rw [collected] at settled
      cases saved : executor.save last with
      | error error =>
          simp only [bind, Except.bind, saved] at settled
          cases settled
      | ok =>
          simp only [bind, Except.bind, saved, pure, Except.pure, Except.ok.injEq] at settled
          exact settled ▸ gains_of_collect collected

/-- Where nothing fails but the tasks, a chunk settles. -/
theorem settleChunk_quiet (quiet : executor.Quiet) (results : List StepRunResult)
    (run : RunRecord) : ∃ run', executor.settleChunk run results = .ok run' := by
  have collect : ∀ (run : RunRecord), ∀ result ∈ results,
      ∃ run', executor.collect run result = .ok run' := by
    intro run result _
    obtain ⟨logged, emitted⟩ := List.exists_foldlM_eq_ok
      (fun run event (_ : event ∈ result.events) => ⟨_, emit_quiet quiet run event⟩) run
    refine ⟨logged.setStep result.record.id result.record, ?_⟩
    rw [InMemoryExecutor.collect, emitted]
    rfl
  obtain ⟨run', collected⟩ := List.exists_foldlM_eq_ok collect run
  refine ⟨run', ?_⟩
  rw [settleChunk, collected]
  simp only [bind, Except.bind, save_quiet quiet, pure, Except.pure]

end Chunks

/-- An execution of the log: of a step of the workflow, on a run of the same request
that supplied the outputs of all dependencies, and to the end of the step's loop. -/
structure Proper (executor : InMemoryExecutor) (workflow : WorkflowSpec) (first : RunRecord)
    (e : Execution) : Prop where
  listed : e.step ∈ workflow.steps
  same : first.SameRequest e.run
  unrecorded : e.run.steps[e.step.id]? = none
  supplied : e.run.Supplies e.step (dependencyOutputs e.run e.step)
  ended : ∃ fuel, executor.executeStep fuel e.run e.step (dependencyOutputs e.run e.step) =
    some e.result

/-- What holds of the states that the loop comes to. -/
structure Planned (executor : InMemoryExecutor) (workflow : WorkflowSpec) (first : RunRecord)
    (log : List Execution) (run : RunRecord) (chunks : List (List StepSpec)) : Prop where
  same : first.SameRequest run
  status : run.status = .running ∧ run.hasFailed = false ∨
    run.status = .failed ∧ run.hasFailed = true ∧ chunks = []
  proper : ∀ e ∈ log, executor.Proper workflow first e
  records : ∀ (id : StepId) (record : StepRecord), run.steps[id]? = some record ↔
    ∃ e ∈ log, e.step.id = id ∧ e.result.record = record
  kept : ∀ e ∈ log, ∀ (id : StepId) (record : StepRecord), e.run.steps[id]? = some record →
    run.steps[id]? = some record
  once : (log.map fun e => e.step.id).Nodup
  pending : ∀ step ∈ chunks.flatten, step ∈ workflow.steps ∧ run.steps[step.id]? = none ∧
    dependenciesSucceeded run step = true
  distinct : (chunks.flatten.map StepSpec.id).Nodup

section Planned

variable {executor : InMemoryExecutor} {workflow : WorkflowSpec} {first run run' : RunRecord}
  {log : List Execution} {chunk : List StepSpec} {rest chunks : List (List StepSpec)}
  {results : List StepRunResult}

theorem ChunkRuns.forall₂ (ran : executor.ChunkRuns run chunk results) :
    ∃ fuel, List.Forall₂ (fun step result =>
      executor.executeStep fuel run step (dependencyOutputs run step) = some result)
      chunk results := by
  obtain ⟨fuel, ran⟩ := ran
  exact ⟨fuel, List.mapM_eq_some_iff.mp ran⟩

theorem ChunkRuns.length (ran : executor.ChunkRuns run chunk results) :
    chunk.length = results.length :=
  ran.forall₂.choose_spec.length_eq

/-- The records of a chunk carry the ids of its steps. -/
theorem ChunkRuns.ids (ran : executor.ChunkRuns run chunk results) :
    (results.map StepRunResult.record).map StepRecord.id = chunk.map StepSpec.id := by
  obtain ⟨fuel, each⟩ := ran.forall₂
  induction each with
  | nil => rfl
  | cons ended _ ih =>
      rw [List.map_cons, List.map_cons, List.map_cons, (executeStep_closes ended).id]
      exact congrArg _ (ih ⟨fuel, List.mapM_eq_some_iff.mpr ‹_›⟩)

theorem executions_steps (run : RunRecord) (same : chunk.length = results.length) :
    (executions run chunk results).map Execution.step = chunk := by
  rw [executions, List.map_map]
  exact List.map_fst_zip (Nat.le_of_eq same)

theorem executions_results (run : RunRecord) (same : chunk.length = results.length) :
    (executions run chunk results).map Execution.result = results := by
  rw [executions, List.map_map]
  exact List.map_snd_zip (Nat.le_of_eq same.symm)

theorem executions_run {e : Execution} (member : e ∈ executions run chunk results) :
    e.run = run := by
  obtain ⟨pair, -, rfl⟩ := List.mem_map.mp member
  rfl

/-- Each execution of a chunk came to its end. -/
theorem ChunkRuns.ended (ran : executor.ChunkRuns run chunk results) {e : Execution}
    (member : e ∈ executions run chunk results) :
    ∃ fuel, executor.executeStep fuel run e.step (dependencyOutputs run e.step) =
      some e.result := by
  obtain ⟨fuel, each⟩ := ran.forall₂
  obtain ⟨pair, listed, rfl⟩ := List.mem_map.mp member
  exact ⟨fuel, List.forall₂_zip each listed⟩

/-- The records of the run after a chunk: those of the chunk and those before. -/
theorem ChunkRuns.records (ran : executor.ChunkRuns run chunk results)
    (gains : Gains run (results.map StepRunResult.record) run')
    (distinct : (chunk.map StepSpec.id).Nodup) (id : StepId) (record : StepRecord) :
    run'.steps[id]? = some record ↔
      (∃ e ∈ executions run chunk results, e.step.id = id ∧ e.result.record = record) ∨
        (id ∉ chunk.map StepSpec.id ∧ run.steps[id]? = some record) := by
  rw [gains.steps, BTreeMap.getElem?_foldl_insert (by rw [ran.ids]; exact distinct), ran.ids]
  refine or_congr_left ?_
  constructor
  · rintro ⟨member, rfl⟩
    obtain ⟨result, listed, rfl⟩ := List.mem_map.mp member
    rw [← executions_results run ran.length] at listed
    obtain ⟨e, inside, rfl⟩ := List.mem_map.mp listed
    obtain ⟨fuel, ended⟩ := ran.ended inside
    exact ⟨e, inside, (executeStep_closes ended).id.symm, rfl⟩
  · rintro ⟨e, inside, rfl, rfl⟩
    obtain ⟨fuel, ended⟩ := ran.ended inside
    refine ⟨List.mem_map_of_mem ?_, (executeStep_closes ended).id⟩
    rw [← executions_results run ran.length]
    exact List.mem_map_of_mem inside

/-- Succeeded dependencies supply their outputs. -/
theorem Planned.supplies (planned : Planned executor workflow first log run chunks)
    {step : StepSpec} (ready : dependenciesSucceeded run step = true) :
    run.Supplies step (dependencyOutputs run step) := by
  simp only [dependenciesSucceeded, List.all_eq_true, Option.any_eq_true, beq_iff_eq] at ready
  constructor
  · intro dependency member
    obtain ⟨record, found, succeeded⟩ := ready dependency member
    obtain ⟨e, inside, -, rfl⟩ := (planned.records dependency record).mp found
    obtain ⟨fuel, ended⟩ := (planned.proper e inside).ended
    obtain ⟨-, stored, -⟩ | ⟨failed, -⟩ := (executeStep_closes ended).status
    · obtain ⟨output, stored⟩ := Option.isSome_iff_exists.mp stored
      refine ⟨output, ?_, ?_⟩
      · rw [RunRecord.committed_of_found found, StepRecord.committed, if_pos succeeded, stored]
      · rw [dependencyOutputs_getElem?, if_pos member]
        exact (congrArg (· >>= StepRecord.output) found).trans stored
    · rw [failed] at succeeded
      cases succeeded
  · intro name output entry
    rw [dependencyOutputs_getElem?] at entry
    split at entry
    next member => exact ⟨⟨name⟩, member, rfl⟩
    · cases entry

/-- Running the next chunk: its steps are recorded and no longer pending. -/
theorem Planned.advance {last : RunRecord} {chunks : List (List StepSpec)}
    (planned : Planned executor workflow first log run (chunk :: rest))
    (ran : executor.ChunkRuns run chunk results)
    (gains : Gains run (results.map StepRunResult.record) run') (steps : last.steps = run'.steps)
    (same : run'.SameRequest last)
    (status : last.status = .running ∧ last.hasFailed = false ∨
      last.status = .failed ∧ last.hasFailed = true ∧ chunks = [])
    (left : chunks = rest ∨ chunks = []) :
    Planned executor workflow first (log ++ executions run chunk results) last chunks := by
  have pending : ∀ step ∈ chunk, step ∈ workflow.steps ∧ run.steps[step.id]? = none ∧
      dependenciesSucceeded run step = true := fun step member =>
    planned.pending step (List.mem_append_left _ member)
  have distinct := planned.distinct
  rw [List.flatten_cons, List.map_append, List.nodup_append] at distinct
  obtain ⟨own_, others, apart⟩ := distinct
  have records := ran.records gains own_
  have grown : ∀ (id : StepId) (record : StepRecord), run.steps[id]? = some record →
      last.steps[id]? = some record := by
    intro id record found
    rw [steps]
    refine (records id record).mpr (.inr ⟨fun member => ?_, found⟩)
    obtain ⟨step, listed, rfl⟩ := List.mem_map.mp member
    rw [(pending step listed).2.1] at found
    cases found
  have ids : (executions run chunk results).map (fun e => e.step.id) = chunk.map StepSpec.id := by
    conv_rhs => rw [← executions_steps run ran.length]
    rw [List.map_map]
    rfl
  refine ⟨planned.same.trans (gains.same.trans same), status, ?_, ?_, ?_, ?_, ?_, ?_⟩
  · intro e member
    obtain old | new := List.mem_append.mp member
    · exact planned.proper e old
    · have run_ := executions_run new
      have listed : e.step ∈ chunk := by
        rw [← executions_steps run ran.length]
        exact List.mem_map_of_mem new
      obtain ⟨known, unrecorded, ready⟩ := pending e.step listed
      refine ⟨known, ?_, ?_, ?_, ?_⟩
      · rw [run_]
        exact planned.same
      · rw [run_]
        exact unrecorded
      · rw [run_]
        exact planned.supplies ready
      · rw [run_]
        exact ran.ended new
  · intro id record
    rw [steps, records]
    constructor
    · rintro (⟨e, inside, own, stored⟩ | ⟨-, found⟩)
      · exact ⟨e, List.mem_append_right _ inside, own, stored⟩
      · obtain ⟨e, inside, own, stored⟩ := (planned.records id record).mp found
        exact ⟨e, List.mem_append_left _ inside, own, stored⟩
    · rintro ⟨e, inside, own, stored⟩
      obtain old | new := List.mem_append.mp inside
      · have found := (planned.records id record).mpr ⟨e, old, own, stored⟩
        refine .inr ⟨fun member => ?_, found⟩
        obtain ⟨step, listed, rfl⟩ := List.mem_map.mp member
        rw [(pending step listed).2.1] at found
        cases found
      · exact .inl ⟨e, new, own, stored⟩
  · intro e member id record found
    obtain old | new := List.mem_append.mp member
    · exact grown id record (planned.kept e old id record found)
    · rw [executions_run new] at found
      exact grown id record found
  · rw [List.map_append, ids, List.nodup_append]
    refine ⟨planned.once, own_, ?_⟩
    rintro id old _ new rfl
    obtain ⟨e, inside, rfl⟩ := List.mem_map.mp old
    obtain ⟨step, listed, own⟩ := List.mem_map.mp new
    have found := (planned.records e.step.id e.result.record).mpr ⟨e, inside, rfl, rfl⟩
    rw [← own, (pending step listed).2.1] at found
    cases found
  · obtain rfl | rfl := left
    · intro step member
      obtain ⟨known, unrecorded, ready⟩ := planned.pending step (List.mem_append_right _ member)
      refine ⟨known, ?_, ?_⟩
      · cases found : last.steps[step.id]? with
        | none => rfl
        | some record =>
            rw [steps] at found
            obtain ⟨e, inside, own, -⟩ | ⟨-, before⟩ := (records step.id record).mp found
            · refine absurd rfl (apart step.id ?_ step.id (List.mem_map_of_mem member))
              rw [← ids, ← own]
              exact List.mem_map_of_mem inside
            · rw [unrecorded] at before
              cases before
      · simp only [dependenciesSucceeded, List.all_eq_true, Option.any_eq_true] at ready ⊢
        intro dependency named
        obtain ⟨record, found, succeeded⟩ := ready dependency named
        exact ⟨record, grown dependency record found, succeeded⟩
    · intro step member
      cases member
  · obtain rfl | rfl := left
    · exact others
    · exact List.nodup_nil

/-- The loop starts with nothing recorded. -/
theorem Planned.start (unrecorded : first.steps = ∅) (running : first.status = .running) :
    Planned executor workflow first [] first [] := by
  have none : ∀ id : StepId, first.steps[id]? = none := by
    intro id
    rw [unrecorded]
    exact Std.ExtTreeMap.getElem?_empty
  refine ⟨.refl first, .inl ⟨running, ?_⟩, (fun e member => absurd member List.not_mem_nil), ?_,
    (fun e member => absurd member List.not_mem_nil), List.nodup_nil,
    (fun step member => absurd member List.not_mem_nil), List.nodup_nil⟩
  · rw [Bool.eq_false_iff, Ne, RunRecord.hasFailed, BTreeMap.anyValue_iff]
    rintro ⟨id, record, found, -⟩
    rw [none] at found
    cases found
  · intro id record
    rw [none]
    constructor
    · intro found
      cases found
    · rintro ⟨e, member, -⟩
      cases member

/-- A new wave consists of the steps that are ready. -/
theorem Planned.wave (planned : Planned executor workflow first log run [])
    (valid : workflow.validate = some (.ok ())) (active : run.status ≠ .failed) (size : Nat) :
    Planned executor workflow first log run ((readySteps workflow run).toChunks size) := by
  refine { planned with status := ?_, pending := ?_, distinct := ?_ }
  · exact .inl (planned.status.resolve_right fun failed => active failed.1)
  · intro step member
    rw [List.flatten_toChunks, readySteps, List.mem_filter, Bool.and_eq_true,
      Bool.not_eq_true'] at member
    refine ⟨member.1, ?_, member.2.2⟩
    have absent := member.2.1
    rw [Bool.eq_false_iff, Ne, BTreeMap.contains_iff] at absent
    exact Option.eq_none_iff_forall_ne_some.mpr fun record found => absent ⟨record, found⟩
  · rw [List.flatten_toChunks]
    exact (WorkflowSpec.stepIds_nodup valid).sublist (List.filter_sublist.map _)

/-- Every state that the loop comes to is as planned. -/
theorem Reached.planned (reached : executor.Reached workflow first log run chunks)
    (valid : workflow.validate = some (.ok ()))
    (unrecorded : first.steps = ∅) (running : first.status = .running) :
    Planned executor workflow first log run chunks := by
  induction reached with
  | start => exact .start unrecorded running
  | wave _ _ active ih => exact ih.wave valid active _
  | @passed log run run' chunk rest results _ ran settled intact ih =>
      have gains := gains_of_settleChunk settled
      have status : run'.status = .running := by
        obtain ⟨going, -⟩ | ⟨-, -, none⟩ := ih.status
        · exact gains.status.trans going
        · cases none
      exact ih.advance ran gains rfl (.refl run') (.inl ⟨status, intact⟩) (.inl rfl)
  | @failed log run run' chunk rest results _ ran settled broken ih =>
      have gains := gains_of_settleChunk settled
      exact ih.advance ran gains rfl ⟨rfl, rfl, rfl, rfl⟩ (.inr ⟨rfl, broken, rfl⟩) (.inr rfl)

end Planned

end InMemoryExecutor

end Orchestrator
