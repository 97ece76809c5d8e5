import Orchestrator.Executor.Schedule

/-!
# The process-local executor runs a valid workflow to its end

Every wave has a ready step, as long as steps are missing, and records what it
runs, so that the loop ends once no step can exhaust its attempt counter. Where
one can, and overflow panics, the loop does not end.
-/

namespace Orchestrator

open Json (Value)

namespace InMemoryExecutor

variable {executor : InMemoryExecutor} {workflow : WorkflowSpec} {first run run' : RunRecord}
  {log : List Execution} {chunk : List StepSpec} {rest chunks : List (List StepSpec)}
  {results : List StepRunResult}

/-- There is one record for each execution. -/
theorem Planned.size (planned : Planned executor workflow first log run chunks) :
    run.steps.size = log.length := by
  have perm : run.steps.keys.Perm (log.map fun e => e.step.id) := by
    refine (List.perm_ext_iff_of_nodup Std.ExtTreeMap.nodup_keys planned.once).mpr fun id => ?_
    rw [BTreeMap.mem_keys_iff, List.mem_map]
    constructor
    · rintro ⟨record, found⟩
      obtain ⟨e, inside, own, -⟩ := (planned.records id record).mp found
      exact ⟨e, inside, own⟩
    · rintro ⟨e, inside, own⟩
      exact ⟨_, (planned.records id _).mpr ⟨e, inside, own, rfl⟩⟩
  rw [← Std.ExtTreeMap.length_keys, perm.length_eq, List.length_map]

/-- A record of a run without failures is that of a success. -/
theorem Planned.succeeded (planned : Planned executor workflow first log run chunks)
    (active : run.status ≠ .failed) {id : StepId} {record : StepRecord}
    (found : run.steps[id]? = some record) : record.status = .succeeded := by
  have intact := (planned.status.resolve_right fun failed => active failed.1).2
  obtain ⟨e, inside, -, rfl⟩ := (planned.records id record).mp found
  obtain ⟨fuel, ended⟩ := (planned.proper e inside).ended
  obtain ⟨succeeded, -⟩ | ⟨failed, -⟩ := (executeStep_closes ended).status
  · exact succeeded
  · have broken : run.hasFailed = true :=
      BTreeMap.anyValue_iff.mpr ⟨id, _, found, beq_iff_eq.mpr failed⟩
    rw [intact] at broken
    cases broken

/-- As long as steps are missing, one is ready. -/
theorem Planned.ready_ne_nil (planned : Planned executor workflow first log run [])
    (valid : workflow.validate = some (.ok ())) (active : run.status ≠ .failed)
    (unfinished : run.steps.size < workflow.steps.length) : readySteps workflow run ≠ [] := by
  have missing : ∃ step ∈ workflow.steps, ¬ ∃ record, run.steps[step.id]? = some record := by
    by_contra complete
    have every : workflow.stepIds ⊆ run.steps.keys := by
      intro id member
      obtain ⟨step, listed, rfl⟩ := List.mem_map.mp member
      rw [BTreeMap.mem_keys_iff]
      by_contra absent
      exact complete ⟨step, listed, absent⟩
    have fits := (List.subperm_of_subset (WorkflowSpec.stepIds_nodup valid) every).length_le
    rw [WorkflowSpec.stepIds, List.length_map, Std.ExtTreeMap.length_keys] at fits
    exact absurd unfinished (Nat.not_lt.mpr fits)
  obtain ⟨step, listed, absent, done⟩ := WorkflowSpec.exists_ready valid
    (fun id => ∃ record, run.steps[id]? = some record) missing
  have member : step ∈ readySteps workflow run := by
    rw [readySteps, List.mem_filter, Bool.and_eq_true, Bool.not_eq_true', Bool.eq_false_iff, Ne,
      BTreeMap.contains_iff]
    refine ⟨listed, absent, ?_⟩
    simp only [dependenciesSucceeded, List.all_eq_true, Option.any_eq_true, beq_iff_eq]
    intro dependency named
    obtain ⟨record, found⟩ := done dependency named
    exact ⟨record, found, planned.succeeded active found⟩
  exact List.ne_nil_of_mem member

/-- No step that the loop starts exhausts its attempt counter where overflow panics. -/
def Countable (executor : InMemoryExecutor) (workflow : WorkflowSpec) (first : RunRecord) : Prop :=
  ∀ (log : List Execution) (run : RunRecord) (chunk : List StepSpec) (rest : List (List StepSpec)),
    executor.Reached workflow first log run (chunk :: rest) → ∀ step ∈ chunk,
      executor.overflow = .wraps ∨ ¬ executor.Exhausted run step (dependencyOutputs run step)

/-- Turns that suffice for every step. -/
def enoughTurns : Nat := 3 * (UInt32.maxNat + 1) + 1

/-- What a valid workflow is run under. -/
structure Starts (executor : InMemoryExecutor) (workflow : WorkflowSpec) (first : RunRecord) :
    Prop where
  valid : workflow.validate = some (.ok ())
  registered : ∀ step ∈ workflow.steps, executor.Registered step
  unrecorded : first.steps = ∅
  running : first.status = .running

theorem Starts.planned (starts : Starts executor workflow first)
    (reached : executor.Reached workflow first log run chunks) :
    Planned executor workflow first log run chunks :=
  reached.planned starts.valid starts.unrecorded starts.running

/-- Only the largest budget can exhaust its counter. -/
theorem Starts.countable (starts : Starts executor workflow first)
    (modest : ∀ step ∈ workflow.steps, step.policy.retry.budget.toNat < UInt32.maxNat) :
    executor.Countable workflow first := by
  intro log run chunk rest reached step member
  refine .inr fun exhausted => ?_
  have pending := (starts.planned reached).pending step (List.mem_append_left _ member)
  exact Nat.ne_of_lt (modest step pending.1) exhausted.budget

/-- A chunk that may run runs with enough turns. -/
theorem Starts.chunkRuns (starts : Starts executor workflow first)
    (countable : executor.Countable workflow first)
    (reached : executor.Reached workflow first log run (chunk :: rest)) :
    ∃ results, chunk.mapM (fun step => executor.executeStep enoughTurns run step
      (dependencyOutputs run step)) = some results := by
  refine List.exists_mapM_eq_some fun step member => ?_
  have listed := ((starts.planned reached).pending step (List.mem_append_left _ member)).1
  exact executeStep_ends (starts.registered step listed)
    (countable log run chunk rest reached step member) (Nat.lt_succ_self _)

theorem runChunks_cons (executor : InMemoryExecutor) (fuel : Nat) (run : RunRecord)
    (chunk : List StepSpec) (rest : List (List StepSpec)) :
    executor.runChunks fuel run (chunk :: rest) =
      match chunk.mapM fun step =>
          executor.executeStep fuel run step (dependencyOutputs run step) with
      | none => none
      | some results =>
        match executor.settleChunk run results with
        | .error error => some (.error error)
        | .ok run =>
          if run.hasFailed then some (.ok { run with status := .failed, error := firstError run })
          else executor.runChunks fuel run rest := rfl

/-- The results of a chunk do not depend on the turns allowed. -/
theorem ChunkRuns.unique {results' : List StepRunResult}
    (ran : executor.ChunkRuns run chunk results) (ran' : executor.ChunkRuns run chunk results') :
    results = results' := by
  obtain ⟨fuel, each⟩ := ran.forall₂
  obtain ⟨fuel', each'⟩ := ran'.forall₂
  clear ran ran'
  induction each generalizing results' with
  | nil => cases each'; rfl
  | cons ended _ ih =>
      cases each' with
      | cons ended' others =>
          rw [executeStep_unique ended ended', ih others]

/-- A wave runs until a step fails or all its steps are recorded. -/
theorem Starts.runChunks (starts : Starts executor workflow first) (quiet : executor.Quiet)
    (countable : executor.Countable workflow first) (chunks : List (List StepSpec))
    (log : List Execution) (run : RunRecord)
    (reached : executor.Reached workflow first log run chunks) :
    ∃ log' run', executor.runChunks enoughTurns run chunks = some (.ok run') ∧
      executor.Reached workflow first log' run' [] ∧
      (run'.status = .failed ∨ log'.length = log.length + chunks.flatten.length) := by
  induction chunks generalizing log run with
  | nil => exact ⟨log, run, rfl, reached, .inr rfl⟩
  | cons chunk rest ih =>
      obtain ⟨results, mapped⟩ := starts.chunkRuns countable reached
      have ran : executor.ChunkRuns run chunk results := ⟨_, mapped⟩
      obtain ⟨settled, stored⟩ := settleChunk_quiet quiet results run
      have unfolded : executor.runChunks enoughTurns run (chunk :: rest) =
          if settled.hasFailed then
            some (.ok { settled with status := .failed, error := firstError settled })
          else executor.runChunks enoughTurns settled rest := by
        rw [runChunks_cons, mapped]
        simp only [stored]
      cases broken : settled.hasFailed with
      | true =>
          refine ⟨_, _, ?_, .failed reached ran stored broken, .inl rfl⟩
          rw [unfolded, if_pos broken]
      | false =>
          obtain ⟨log', run', goes, later, ended⟩ := ih _ _ (.passed reached ran stored broken)
          refine ⟨log', run', ?_, later, ended.imp_right fun length => ?_⟩
          · rw [unfolded, broken, if_neg Bool.false_ne_true]
            exact goes
          · rw [length, List.length_append, List.flatten_cons, List.length_append, executions,
              List.length_map, List.length_zip, ran.length, Nat.min_self, Nat.add_assoc]

/-- What the loop does after a wave. -/
def resume (executor : InMemoryExecutor) (stepFuel : Nat) (workflow : WorkflowSpec) (fuel : Nat) :
    Option (Except OrchestratorError RunRecord) → Option (Except OrchestratorError RunRecord)
  | none => none
  | some (.error error) => some (.error error)
  | some (.ok run) =>
    if run.status = .failed then some (.ok run) else executor.drive stepFuel workflow fuel run

theorem drive_of_complete (executor : InMemoryExecutor) (stepFuel fuel : Nat)
    (complete : workflow.steps.length ≤ run.steps.size) :
    executor.drive stepFuel workflow (fuel + 1) run = some (.ok run) := by
  rw [drive, if_pos complete]

theorem drive_of_ready (executor : InMemoryExecutor) (stepFuel fuel : Nat)
    (unfinished : run.steps.size < workflow.steps.length) (ready : readySteps workflow run ≠ []) :
    executor.drive stepFuel workflow (fuel + 1) run = executor.resume stepFuel workflow fuel
      (executor.runChunks stepFuel run
        ((readySteps workflow run).toChunks executor.options.maxParallelSteps)) := by
  rw [drive, if_neg (Nat.not_le.mpr unfinished)]
  split
  next none => exact absurd none ready
  next => rfl

/-- The loop ends with all steps recorded or with a failed one. -/
theorem Starts.drive (starts : Starts executor workflow first) (quiet : executor.Quiet)
    (countable : executor.Countable workflow first) (missing : Nat) (log : List Execution)
    (run : RunRecord) (reached : executor.Reached workflow first log run [])
    (active : run.status ≠ .failed) (left : workflow.steps.length ≤ run.steps.size + missing) :
    ∃ log' last, executor.drive enoughTurns workflow (missing + 1) run = some (.ok last) ∧
      executor.Reached workflow first log' last [] ∧
      (last.status = .failed ∨ workflow.steps.length ≤ last.steps.size) := by
  induction missing generalizing log run with
  | zero => exact ⟨log, run, drive_of_complete executor _ _ left, reached, .inr left⟩
  | succ missing ih =>
      by_cases complete : workflow.steps.length ≤ run.steps.size
      · exact ⟨log, run, drive_of_complete executor _ _ complete, reached, .inr complete⟩
      · have unfinished := Nat.lt_of_not_le complete
        have ready := (starts.planned reached).ready_ne_nil starts.valid active unfinished
        obtain ⟨log', run', ran, later, ended⟩ := starts.runChunks quiet countable _ log run
          (.wave reached unfinished active)
        rw [drive_of_ready executor _ _ unfinished ready, ran, resume]
        split
        next failed => exact ⟨log', run', rfl, later, .inl failed⟩
        next going =>
          refine ih log' run' later going ?_
          have length := ended.resolve_left going
          rw [List.flatten_toChunks, ← (starts.planned reached).size,
            ← (starts.planned later).size] at length
          have positive := List.length_pos_iff.mpr ready
          omega

/-- A chunk that the loop gets past had the results that it can have. -/
theorem ChunkRuns.runChunks_of_resumes (ran : executor.ChunkRuns run chunk results)
    {stepFuel fuel : Nat} {outcome : Except OrchestratorError RunRecord}
    (going : executor.resume stepFuel workflow fuel
      (executor.runChunks stepFuel run (chunk :: rest)) = some outcome) :
    executor.runChunks stepFuel run (chunk :: rest) =
      match executor.settleChunk run results with
      | .error error => some (.error error)
      | .ok run =>
        if run.hasFailed then some (.ok { run with status := .failed, error := firstError run })
        else executor.runChunks stepFuel run rest := by
  rw [runChunks_cons] at going ⊢
  cases mapped : chunk.mapM fun step =>
      executor.executeStep stepFuel run step (dependencyOutputs run step) with
  | none =>
      rw [mapped] at going
      cases going
  | some results' =>
      rw [ran.unique ⟨stepFuel, mapped⟩]

/-- Where the loop of the executor comes to a state, it goes on from there. -/
theorem Reached.resumes (reached : executor.Reached workflow first log run chunks)
    (active : first.status ≠ .failed) {stepFuel fuel : Nat}
    {outcome : Except OrchestratorError RunRecord}
    (driven : executor.drive stepFuel workflow fuel first = some outcome) :
    ∃ fuel', executor.resume stepFuel workflow fuel' (executor.runChunks stepFuel run chunks) =
      some outcome := by
  induction reached with
  | start => exact ⟨fuel, (if_neg active).trans driven⟩
  | @wave log run _ unfinished active ih =>
      obtain ⟨fuel', going⟩ := ih
      rw [runChunks, resume, if_neg active] at going
      by_cases ready : readySteps workflow run = []
      · refine ⟨fuel', ?_⟩
        rw [ready, List.toChunks, runChunks, resume, if_neg active]
        exact going
      · cases fuel' with
        | zero => cases going
        | succ fuel' =>
            rw [drive_of_ready executor _ _ unfinished ready] at going
            exact ⟨fuel', going⟩
  | passed _ ran settled intact ih =>
      obtain ⟨fuel', going⟩ := ih
      rw [ran.runChunks_of_resumes going, settled] at going
      simp only [intact, Bool.false_eq_true, if_false] at going
      exact ⟨fuel', going⟩
  | failed _ ran settled broken ih =>
      obtain ⟨fuel', going⟩ := ih
      rw [ran.runChunks_of_resumes going, settled] at going
      simp only [broken, if_true] at going
      exact ⟨fuel', going⟩

/-- A step that would exhaust its attempt counter keeps the loop from ending. -/
theorem Starts.stuck (starts : Starts executor workflow first)
    (uncountable : ¬ executor.Countable workflow first) (stepFuel fuel : Nat) :
    executor.drive stepFuel workflow fuel first = none := by
  simp only [Countable, not_forall, not_or, not_not] at uncountable
  obtain ⟨log, run, chunk, rest, reached, step, member, checked, exhausted⟩ := uncountable
  have panics : executor.overflow = .panics := by
    cases overflow : executor.overflow with
    | panics => rfl
    | wraps => exact absurd overflow checked
  have listed := ((starts.planned reached).pending step (List.mem_append_left _ member)).1
  have none := exhausted.stuck (starts.registered step listed) panics stepFuel
  by_contra ended
  obtain ⟨outcome, driven⟩ := Option.ne_none_iff_exists'.mp ended
  obtain ⟨fuel', going⟩ := reached.resumes (by rw [starts.running]; decide) driven
  rw [runChunks_cons] at going
  cases mapped : chunk.mapM fun step =>
      executor.executeStep stepFuel run step (dependencyOutputs run step) with
  | none =>
      rw [mapped] at going
      cases going
  | some results =>
      obtain ⟨result, ended⟩ := List.exists_of_mapM_eq_some mapped member
      rw [none] at ended
      cases ended

/-- The checks on the tasks find the tasks of every step registered. -/
theorem registered_of_validateTasks (checked : executor.validateTasks workflow = .ok ())
    {step : StepSpec} (listed : step ∈ workflow.steps) : executor.Registered step := by
  have passed := List.forM_eq_ok_iff.mp checked step listed
  simp only [bind, Except.bind, pure, Except.pure, throw, throwThe, MonadExceptOf.throw] at passed
  cases known : executor.registry step.task with
  | none =>
      rw [known] at passed
      split at passed <;> cases passed
  | some task =>
      refine ⟨⟨task, known⟩, fun id selected => ?_⟩
      rw [known, selected] at passed
      cases found : executor.registry id with
      | some fallback => exact ⟨fallback, rfl⟩
      | none =>
          simp only [found] at passed
          repeat' split at passed
          all_goals cases passed

/-- Registered tasks make a manifest with the gates of the workflow. -/
theorem buildManifest_ok (provenance : RunProvenance)
    (registered : ∀ step ∈ workflow.steps, executor.Registered step) :
    ∃ manifest, buildManifest executor.registry provenance workflow = .ok manifest ∧
      manifest.evaluationGates = workflow.evaluationGates := by
  have made : ∀ collected : Except WorkflowError (BTreeMap TaskId TaskSpec),
      (∃ tasks, collected = .ok tasks) → ∃ manifest, (do
        let tasks ← collected
        return ((RunManifest.new workflow.id workflow.version tasks).withEvaluationGates
          workflow.evaluationGates).withProvenance provenance) = Except.ok manifest ∧
        manifest.evaluationGates = workflow.evaluationGates := by
    rintro _ ⟨tasks, rfl⟩
    exact ⟨_, rfl, rfl⟩
  refine made _ (List.exists_foldlM_eq_ok ?_ ∅)
  intro tasks step listed
  obtain ⟨task, known⟩ := (registered step listed).task
  cases selected : step.policy.fallbackTask with
  | none => exact ⟨_, by rw [known]; rfl⟩
  | some id =>
      obtain ⟨fallback, found⟩ := (registered step listed).fallback id selected
      refine ⟨(tasks.insert task.spec.id task.spec).insert fallback.spec.id fallback.spec, ?_⟩
      rw [known]
      simp only [found]
      rfl

/-- What `prepare` starts is a run of a valid workflow with registered tasks. -/
theorem starts_of_prepare {runId : RunId} {now : UInt64} {input : Value}
    (prepared : executor.prepare runId now workflow input = some (.ok first)) :
    Starts executor workflow first ∧ first.input = input ∧
      first.manifest.evaluationGates = workflow.evaluationGates := by
  rw [prepare] at prepared
  split at prepared
  · cases prepared
  · cases prepared
  next valid =>
    replace prepared := Option.some.inj prepared
    split at prepared
    · cases prepared
    next checked =>
      have registered : ∀ step ∈ workflow.steps, executor.Registered step :=
        fun step listed => registered_of_validateTasks checked listed
      obtain ⟨manifest, built, gates⟩ :=
        buildManifest_ok executor.options.provenance registered
      rw [built] at prepared
      simp only [bind, Except.bind] at prepared
      split at prepared
      · cases prepared
      next logged emitted =>
        obtain rfl := emit_ok emitted
        split at prepared
        · cases prepared
        · obtain rfl := Except.ok.inj prepared
          exact ⟨⟨valid, registered, rfl, rfl⟩, rfl, gates⟩

/-- Where nothing fails but the tasks, a valid workflow is started. -/
theorem prepare_quiet (quiet : executor.Quiet) (valid : workflow.validate = some (.ok ()))
    (checked : executor.validateTasks workflow = .ok ()) (runId : RunId) (now : UInt64)
    (input : Value) : ∃ first, executor.prepare runId now workflow input = some (.ok first) := by
  obtain ⟨manifest, built, -⟩ := buildManifest_ok executor.options.provenance
    fun step listed => registered_of_validateTasks checked listed
  let started : RunRecord :=
    { RunRecord.new runId workflow manifest input now with status := .running }
  refine ⟨{ started with
    events := started.events ++ [.runStarted runId workflow.id]
    revision := started.revision.saturatingAdd 1 }, ?_⟩
  simp only [prepare, valid, checked, built, emit_quiet quiet, bind, Except.bind,
    save_quiet quiet, pure, Except.pure]
  rfl

end InMemoryExecutor

end Orchestrator
