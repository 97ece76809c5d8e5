import Orchestrator.Foundation.Fallible
import Orchestrator.Foundation.Lists
import Orchestrator.Model.Durable
import Orchestrator.Repository.Sound

/-!
# Requests of accepted workflows

The executor looks up every task of a workflow three times: to check the workflow, to make
the manifest under the ids that the registered tasks have themselves, and to check the
request under the ids that the workflow names. The first pass compares the two ids of a
primary task, but not those of a fallback.
-/

namespace Orchestrator

open Json (Value)

/-- The tasks that a step names. -/
def StepSpec.taskIds (step : StepSpec) : List TaskId := step.task :: step.policy.fallbackTask.toList

/-- The registered task of an id is put under its own id. -/
def insertSpec (registry : TaskRegistry) (tasks : BTreeMap TaskId TaskSpec) (id : TaskId) :
    Except WorkflowError (BTreeMap TaskId TaskSpec) :=
  match registry id with
  | none => .error (.unregisteredTask id)
  | some task => .ok (tasks.insert task.spec.id task.spec)

section Building

variable {registry : TaskRegistry} {provenance : RunProvenance} {workflow : WorkflowSpec}

/-- The manifest is made of the named tasks one after the other. -/
theorem buildManifest_eq : buildManifest registry provenance workflow =
    ((workflow.steps.flatMap StepSpec.taskIds).foldlM (insertSpec registry) ∅).map fun tasks =>
      ((RunManifest.new workflow.id workflow.version tasks).withEvaluationGates
        workflow.evaluationGates).withProvenance provenance := by
  have completed : ∀ collected collected' : Except WorkflowError (BTreeMap TaskId TaskSpec),
      collected = collected' → (do
        let tasks ← collected
        return ((RunManifest.new workflow.id workflow.version tasks).withEvaluationGates
          workflow.evaluationGates).withProvenance provenance) =
      collected'.map fun tasks =>
        ((RunManifest.new workflow.id workflow.version tasks).withEvaluationGates
          workflow.evaluationGates).withProvenance provenance := by
    rintro collected _ rfl
    cases collected <;> rfl
  refine completed _ _ ?_
  rw [List.foldlM_flatMap]
  congr 1
  funext tasks step
  rw [StepSpec.taskIds, List.foldlM_cons, insertSpec]
  cases registry step.task with
  | none => rfl
  | some task =>
      cases step.policy.fallbackTask with
      | none => rfl
      | some fallback =>
          simp only [Option.toList_some, List.foldlM_cons, List.foldlM_nil, insertSpec]
          cases registry fallback <;> rfl

/-- Each inserted task is registered. -/
theorem foldlM_insertSpec {ids : List TaskId} (tasks : BTreeMap TaskId TaskSpec)
    (own : ∀ id ∈ ids, ∃ task, registry id = some task ∧ task.spec.id = id) :
    ∃ tasks', ids.foldlM (insertSpec registry) tasks = .ok tasks' ∧
      ∀ id, tasks'[id]? = if id ∈ ids then (registry id).map Task.spec else tasks[id]? := by
  induction ids generalizing tasks with
  | nil => exact ⟨tasks, rfl, fun id => (if_neg List.not_mem_nil).symm⟩
  | cons first rest ih =>
      obtain ⟨⟨task, known, same⟩, others⟩ := List.forall_mem_cons.mp own
      obtain ⟨tasks', collected, entries⟩ := ih (tasks.insert task.spec.id task.spec) others
      refine ⟨tasks', ?_, fun id => ?_⟩
      · rw [List.foldlM_cons, insertSpec, known]
        exact collected
      · rw [entries, BTreeMap.getElem?_insert, same]
        by_cases later : id ∈ rest
        · simp [later]
        · by_cases now : first = id
          · subst now
            simp [later, known]
          · simp [later, now, Ne.symm now]

end Building

/-- What the request of a workflow is checked for, against the manifest. -/
theorem validateRunRequest_of_accepted {request : RunRequest}
    (accepted : Accepted request.workflow request.manifest)
    (id : request.manifest.workflowId = request.workflow.id)
    (version : request.manifest.workflowVersion = request.workflow.version) :
    validateRunRequest request = some (.ok ()) := by
  have keyed : request.manifest.tasks.toList.find? (fun entry => entry.1 != entry.2.id) = none := by
    rw [List.find?_eq_none]
    rintro ⟨key, task⟩ member
    have own := accepted.keyed key task (Std.ExtTreeMap.mem_toList_iff_getElem?_eq_some.mp member)
    simp [own]
  have complete : request.workflow.steps.find? (fun step =>
      !request.manifest.tasks.contains step.task ||
        step.policy.fallbackTask.any fun task => !request.manifest.tasks.contains task) = none := by
    rw [List.find?_eq_none]
    intro step listed
    have primary := BTreeMap.contains_iff.mpr (accepted.tasks step listed)
    rw [primary, Bool.not_true, Bool.false_or, Option.any_eq_true]
    rintro ⟨fallback, selected, absent⟩
    rw [BTreeMap.contains_iff.mpr (accepted.fallbacks step listed fallback selected)] at absent
    cases absent
  simp [validateRunRequest, accepted.valid, accepted.schema, id, version, keyed, complete]

namespace DurableExecutor

variable {executor : DurableExecutor} {workflow : WorkflowSpec}

theorem validateWorkflow_eq_ok : executor.validateWorkflow workflow = .ok () ↔
    ∀ step ∈ workflow.steps,
      (∃ task, executor.registry step.task = some task ∧ task.spec.id = step.task) ∧
      ∀ id, step.policy.fallbackTask = some id → ∃ task, executor.registry id = some task := by
  rw [validateWorkflow, List.forM_eq_ok_iff]
  refine forall₂_congr fun step _ => ?_
  cases known : executor.registry step.task with
  | none => simp [throw, throwThe, MonadExceptOf.throw]
  | some task =>
      by_cases own : task.spec.id = step.task
      · cases selected : step.policy.fallbackTask with
        | none => simp [own, pure, Except.pure]
        | some fallback =>
            cases found : executor.registry fallback <;>
              simp [own, found, pure, Except.pure, throw, throwThe, MonadExceptOf.throw]
      · simp [own, throw, throwThe, MonadExceptOf.throw, bind, Except.bind]

/-- The workflow makes valid requests with the manifest, whose entries for the named tasks
are the registered ones, and no submission of it is refused as invalid. -/
structure Requests (executor : DurableExecutor) (workflow : WorkflowSpec)
    (manifest : RunManifest) : Prop where
  valid : ∀ runId input idempotencyKey,
    validateRunRequest { runId, workflow, manifest, input, idempotencyKey } = some (.ok ())
  entries : ∀ step ∈ workflow.steps, ∀ id ∈ step.taskIds, ∀ spec, manifest.tasks[id]? = some spec →
    ∃ task, executor.registry id = some task ∧ spec = task.spec
  submits : ∀ s runId input idempotencyKey clock message,
    (executor.submitWithIdempotency s runId workflow input idempotencyKey clock).1 ≠
      some (.error (.repository (.invalidRequest message)))

/-- The manifest of a checked workflow, in its parts. -/
theorem exists_manifest (checked : executor.validateWorkflow workflow = .ok ()) :
    ∃ tasks, (workflow.steps.flatMap StepSpec.taskIds).foldlM (insertSpec executor.registry) ∅ =
        .ok tasks ∧
      buildManifest executor.registry executor.options.provenance workflow =
        .ok (((RunManifest.new workflow.id workflow.version tasks).withEvaluationGates
          workflow.evaluationGates).withProvenance executor.options.provenance) := by
  have registered : ∀ tasks : BTreeMap TaskId TaskSpec,
      ∀ id ∈ workflow.steps.flatMap StepSpec.taskIds,
        ∃ tasks', insertSpec executor.registry tasks id = .ok tasks' := by
    intro tasks id member
    obtain ⟨step, listed, named⟩ := List.mem_flatMap.mp member
    obtain ⟨⟨task, known, -⟩, fallbacks⟩ := validateWorkflow_eq_ok.mp checked step listed
    obtain ⟨task, found⟩ : ∃ task, executor.registry id = some task := by
      obtain rfl | fallback := List.mem_cons.mp named
      · exact ⟨task, known⟩
      · exact fallbacks id (Option.mem_toList.mp fallback)
    exact ⟨tasks.insert task.spec.id task.spec, by rw [insertSpec, found]⟩
  obtain ⟨tasks, collected⟩ := List.exists_foldlM_eq_ok registered ∅
  exact ⟨tasks, collected, by rw [buildManifest_eq, collected]; rfl⟩

/-- The run of an event is missing where it is looked up, before or after. -/
theorem appendAndReturn_error {s : Repository} {k : RunId} {event : ExecutionEvent} {now : UInt64}
    {absent error : RepositoryError}
    (failed : (s.appendAndReturn k event now absent).1 = .error error) :
    error = .runNotFound k ∨ error = absent := by
  unfold Repository.appendAndReturn at failed
  split at failed
  next other s' appended =>
    obtain rfl := Except.error.inj failed
    simp only [appendEvent] at appended
    split at appended
    · exact .inl (Except.error.inj (congrArg Prod.fst appended)).symm
    · cases congrArg Prod.fst appended
  · unfold Repository.getRun at failed
    split at failed
    · cases failed
    · exact .inr (Except.error.inj failed).symm

/-- A creation with a valid request is not refused as invalid. -/
theorem createRun_ne_invalidRequest (s : Repository) {request : RunRequest} (clock : Clock)
    (accepted : validateRunRequest request = some (.ok ())) (message : String) :
    (s.createRun request clock).1 ≠ some (.error (.invalidRequest message)) := by
  intro refused
  simp only [Repository.createRun, accepted] at refused
  split at refused
  · split at refused
    · cases refused
    · split at refused <;> cases refused
  · split at refused
    · cases refused
    · obtain missing | missing := appendAndReturn_error (Option.some.inj refused) <;> cases missing

/-- A workflow that is valid and passes the check of the executor has a manifest; it makes
valid requests exactly where each registered fallback task has the id under which it is
registered. -/
theorem accepted_workflow_valid_iff (executor : DurableExecutor) (workflow : WorkflowSpec)
    (valid : workflow.validate = some (.ok ()))
    (checked : executor.validateWorkflow workflow = .ok ()) :
    ∃ manifest, buildManifest executor.registry executor.options.provenance workflow =
        .ok manifest ∧
      (executor.Requests workflow manifest ↔
        ∀ step ∈ workflow.steps, ∀ id task, step.policy.fallbackTask = some id →
          executor.registry id = some task → task.spec.id = id) := by
  obtain ⟨tasks, collected, built⟩ := exists_manifest checked
  refine ⟨_, built, fun requests => ?_, fun own => ?_⟩
  · intro step listed id task selected known
    have accepted := accepted_of_validate (requests.valid ⟨"run"⟩ .null none)
    obtain ⟨spec, entry⟩ := accepted.fallbacks step listed id selected
    obtain ⟨task', known', rfl⟩ := requests.entries step listed id
      (List.mem_cons_of_mem _ (Option.mem_toList.mpr selected)) spec entry
    obtain rfl := Option.some.inj (known.symm.trans known')
    exact accepted.keyed id _ entry
  · have named : ∀ id ∈ workflow.steps.flatMap StepSpec.taskIds,
        ∃ task, executor.registry id = some task ∧ task.spec.id = id := by
      intro id member
      obtain ⟨step, listed, named⟩ := List.mem_flatMap.mp member
      obtain ⟨primary, fallbacks⟩ := validateWorkflow_eq_ok.mp checked step listed
      obtain rfl | fallback := List.mem_cons.mp named
      · exact primary
      · obtain ⟨task, known⟩ := fallbacks id (Option.mem_toList.mp fallback)
        exact ⟨task, known, own step listed id task (Option.mem_toList.mp fallback) known⟩
    obtain ⟨tasks', collected', entries⟩ := foldlM_insertSpec ∅ named
    obtain rfl := Except.ok.inj (collected.symm.trans collected')
    have entry : ∀ id ∈ workflow.steps.flatMap StepSpec.taskIds,
        ∃ task, executor.registry id = some task ∧ tasks[id]? = some task.spec := by
      intro id member
      obtain ⟨task, known, -⟩ := named id member
      exact ⟨task, known, by rw [entries, if_pos member, known, Option.map_some]⟩
    have accepts : ∀ runId input idempotencyKey, validateRunRequest
        { runId, workflow, input, idempotencyKey
          manifest := ((RunManifest.new workflow.id workflow.version tasks).withEvaluationGates
            workflow.evaluationGates).withProvenance executor.options.provenance } =
          some (.ok ()) := by
      intro runId input idempotencyKey
      refine validateRunRequest_of_accepted ⟨valid, rfl, ?_, ?_, ?_⟩ rfl rfl
      · intro id spec stored
        change tasks[id]? = some spec at stored
        rw [entries] at stored
        split at stored
        next member =>
          obtain ⟨task, known, same⟩ := named id member
          rw [known, Option.map_some] at stored
          rw [← Option.some.inj stored, same]
        · simp at stored
      · intro step listed
        obtain ⟨task, -, stored⟩ :=
          entry step.task (List.mem_flatMap.mpr ⟨step, listed, List.mem_cons_self⟩)
        exact ⟨task.spec, stored⟩
      · intro step listed id selected
        obtain ⟨task, -, stored⟩ := entry id (List.mem_flatMap.mpr
          ⟨step, listed, List.mem_cons_of_mem _ (Option.mem_toList.mpr selected)⟩)
        exact ⟨task.spec, stored⟩
    refine ⟨accepts, fun step listed id member spec stored => ?_, ?_⟩
    · obtain ⟨task, known, stored'⟩ := entry id (List.mem_flatMap.mpr ⟨step, listed, member⟩)
      exact ⟨task, known, Option.some.inj (stored.symm.trans stored')⟩
    · intro s runId input idempotencyKey clock message refused
      simp only [submitWithIdempotency, valid, checked, built] at refused
      have answered := createRun_ne_invalidRequest s clock (accepts runId input idempotencyKey)
        message
      generalize s.createRun _ clock = answer at refused answered
      obtain ⟨created, s'⟩ := answer
      cases created with
      | none => cases refused
      | some result =>
          cases result with
          | error error =>
              simp only [Option.some.injEq, Except.error.injEq,
                OrchestratorError.repository.injEq] at refused
              exact answered (congrArg (fun error => some (Except.error error)) refused)
          | ok => cases refused

end DurableExecutor

namespace Sample

/-- A registry that has a task for every id, where that of `backup` has the given id. -/
def naming (backup : String) : TaskRegistry := fun id =>
  some ⟨task (if id.value = "backup" then backup else id.value), fun _ _ => .ok .null, fun _ _ => 0⟩

def submitter (backup : String) : DurableExecutor :=
  ⟨naming backup, ⟨worker, ⟨none, none, none, none, none, none, ∅⟩, 10⟩⟩

/-- One step with the fallback `backup`. -/
def backed : WorkflowSpec := (request [step "only" 1 true] []).workflow

end Sample

namespace DurableExecutor

theorem accepted_workflow_valid_iff_backup : ∃ manifest,
    buildManifest (Sample.naming "backup") (Sample.submitter "backup").options.provenance
      Sample.backed = .ok manifest ∧ (Sample.submitter "backup").Requests Sample.backed manifest := by
  obtain ⟨manifest, built, requests⟩ := accepted_workflow_valid_iff (Sample.submitter "backup")
    Sample.backed (by decide +kernel) (by decide +kernel)
  refine ⟨manifest, built, requests.mpr ?_⟩
  intro step listed id task selected known
  obtain rfl := List.mem_singleton.mp listed
  obtain rfl := Option.some.inj selected
  obtain rfl := Option.some.inj known
  rfl

/-- A workflow passes both checks of a submission, and its request is refused: the fallback
task is registered under another id than its own. -/
theorem misnamed_fallback_refused :
    Sample.backed.validate = some (.ok ()) ∧
      (Sample.submitter "other").validateWorkflow Sample.backed = .ok () ∧
      ((Sample.submitter "other").submitWithIdempotency .empty Sample.runId Sample.backed .null none
        (.at 0)).1.map (fun result => result.map fun run => run.runId) =
          some (.error (.repository (.invalidRequest
            "manifest does not contain all tasks for step only"))) := by
  decide +kernel

end DurableExecutor

end Orchestrator
