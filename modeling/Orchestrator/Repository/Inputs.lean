import Orchestrator.Model.Topology
import Orchestrator.Repository.Lease

/-!
# The inputs that claims carry

A step commits its output with the completion that makes it succeed. Succeeded
records hold no lease, so no later call touches them: along a history each step
commits at most one output, and it stays in the step's record. A claim is handed
out when all dependencies have succeeded, and carries these outputs.
-/

namespace Orchestrator

open Json (Value)

/-- The output of a record that succeeded. -/
def StepRecord.committed (record : StepRecord) : Option Value :=
  if record.status = .succeeded then record.output else none

/-- The output that a step of the run has committed. -/
def RunRecord.committed (run : RunRecord) (id : StepId) : Option Value :=
  run.steps[id]? >>= StepRecord.committed

/-- The output that a step of a stored run has committed. -/
def Repository.committed (s : Repository) (k : RunId) (id : StepId) : Option Value :=
  s.runs[k]? >>= fun run => run.committed id

/-- The output that a change commits for the step. -/
def RunAction.commits (id : StepId) : RunAction → List Value
  | .complete held completion =>
    if held.step.id = id ∧ completion.status = .succeeded then completion.output.toList else []
  | _ => []

section Run

variable {token : UInt64} {action : RunAction} {run run' : RunRecord}

/-- A record with a lease has committed nothing. -/
theorem StepRecord.Sound.uncommitted {workflow : WorkflowSpec} {manifest : RunManifest}
    {id : StepId} {record : StepRecord} {lease : StepLease}
    (sound : record.Sound workflow manifest id) (leased : record.lease = some lease) :
    record.committed = none := by
  have running := sound.leased.mp (by rw [leased]; rfl)
  simp [StepRecord.committed, running]

theorem RunRecord.committed_of_insert (run : RunRecord) {k : StepId} {record : StepRecord}
    (steps : run'.steps = run.steps.insert k record) (id : StepId) :
    run'.committed id = if k = id then record.committed else run.committed id := by
  rw [RunRecord.committed, steps, BTreeMap.getElem?_insert]
  split <;> rfl

theorem RunRecord.committed_of_found {id : StepId} {record : StepRecord}
    (found : run.steps[id]? = some record) : run.committed id = record.committed := by
  rw [RunRecord.committed, found]
  rfl

/-- A step that may be leased has committed nothing. -/
theorem uncommitted_of_available {step : StepSpec} {now : UInt64}
    (available : stepAvailable run.steps[step.id]? step now = true) :
    run.committed step.id = none := by
  rw [RunRecord.committed]
  cases found : run.steps[step.id]? with
  | none => rfl
  | some record =>
      simp only [stepAvailable, found, Option.all_some, Bool.and_eq_true, Bool.or_eq_true,
        beq_iff_eq] at available
      obtain ⟨⟨⟨-, waiting⟩, -⟩, -⟩ := available
      change (if record.status = .succeeded then record.output else none) = none
      obtain h | h := waiting <;> simp [h]

/-- A completion commits the output of a success and nothing else. -/
theorem Commits.committed {claim : StepClaim} {manifest : RunManifest}
    {completion : StepCompletion} (h : Commits claim manifest completion) (record : StepRecord)
    (retryNow finishNow : UInt64) :
    (record.complete completion retryNow finishNow).committed.toList =
      RunAction.commits claim.step.id (.complete claim completion) := by
  cases h <;> simp [StepRecord.committed, StepRecord.complete, RunAction.commits,
    StepCompletion.retrying, StepCompletion.fallback, StepCompletion.succeeded,
    StepCompletion.failed]

theorem Recovers.committed {runId : RunId} {step : StepSpec} {record recovered : StepRecord}
    {now : UInt64} {event : ExecutionEvent}
    (h : Recovers runId step record now recovered event) : recovered.committed = none := by
  cases h <;> rfl

theorem StepRecord.cancel_committed (record : StepRecord) (now : UInt64) :
    (record.cancel now).committed = record.committed := by
  unfold StepRecord.cancel
  split
  · rfl
  next open_ =>
    simp only [Bool.or_eq_true, beq_iff_eq, not_or] at open_
    simp [StepRecord.committed, open_.1]

/-- One step of a run keeps what its steps have committed and adds what the step commits. -/
theorem RunStep.committed (h : RunStep token action run run') (sound : run.Sound) (id : StepId) :
    (run'.committed id).toList = (run.committed id).toList ++ action.commits id := by
  cases h with
  | claim worker seen now leaseMs running listed candidate known =>
      obtain ⟨-, -, -, -, -, available⟩ := Repository.claimCandidate_eq_some.mp candidate
      change _ = _ ++ []
      rw [RunRecord.committed_of_insert run rfl, List.append_nil]
      split
      next same =>
        rw [← same, uncommitted_of_available available]
        rfl
      · rfl
  | renew claim now again leaseMs found leased valid =>
      change _ = _ ++ []
      rw [RunRecord.committed_of_insert run rfl, List.append_nil]
      split
      next same =>
        rw [← same, RunRecord.committed_of_found found]
        rfl
      · rfl
  | complete claim completion now retryNow finishNow sequence eventNow found leased valid
      accepted =>
      change (RunRecord.committed (run.commit _ _) id).toList = _
      rw [RunRecord.committed_of_insert run (run.commit_steps _ claim.step.id)]
      split
      next same =>
        subst same
        rw [(completionMatchesClaim_iff.mp accepted).committed,
          RunRecord.committed_of_found found, (sound.records _ _ found).uncommitted leased]
        rfl
      next other => simp [RunAction.commits, other]
  | record => simp [RunAction.commits, RunRecord.committed]
  | measure => simp [RunAction.commits, RunRecord.committed]
  | settle => simp [RunAction.commits, RunRecord.committed]
  | finish => simp [RunAction.commits, RunRecord.committed]
  | cancel now sequence eventNow active =>
      change _ = _ ++ []
      rw [List.append_nil, RunRecord.committed, RunRecord.committed, RunRecord.logged_steps,
        RunRecord.cancelSteps_steps, Std.ExtTreeMap.getElem?_map]
      cases run.steps[id]? with
      | none => rfl
      | some record => exact congrArg Option.toList (record.cancel_committed (now id))
  | recover now sequence eventNow listed found expired =>
      obtain ⟨⟨lease, leased, -⟩, outcome⟩ := recoverExpiredStep_eq_some expired
      change _ = _ ++ []
      rw [RunRecord.committed_of_insert run (RunRecord.noteRecovery_steps _ _),
        List.append_nil]
      split
      next same =>
        rw [← same, outcome.committed, RunRecord.committed_of_found found,
          (sound.records _ _ found).uncommitted leased]
      · rfl

/-- A committed output stays. -/
theorem RunStep.committed_kept (h : RunStep token action run run') (sound : run.Sound)
    {id : StepId} {output : Value} (done : run.committed id = some output) :
    run'.committed id = some output := by
  have sum := h.committed sound id
  rw [done] at sum
  cases later : run'.committed id with
  | none => simp [later] at sum
  | some value =>
      rw [later, Option.toList_some, Option.toList_some, List.cons_append, List.cons.injEq] at sum
      rw [sum.1]

end Run

/-- The outputs that the run's steps have committed, for the dependencies of the
step: one entry for each, and no other. -/
structure RunRecord.Supplies (run : RunRecord) (step : StepSpec)
    (dependencies : BTreeMap String Value) : Prop where
  each : ∀ dependency ∈ step.dependsOn, ∃ output, run.committed dependency = some output ∧
    dependencies[dependency.value]? = some output
  only : ∀ (name : String) (output : Value), dependencies[name]? = some output →
    ∃ dependency ∈ step.dependsOn, dependency.value = name

namespace RunRecord.Supplies

variable {run run' : RunRecord} {step : StepSpec} {dependencies others : BTreeMap String Value}

/-- The outputs are determined by the run. -/
theorem unique (h : run.Supplies step dependencies) (h' : run.Supplies step others) :
    dependencies = others := by
  refine Std.ExtTreeMap.ext_getElem? fun name => ?_
  by_cases named : ∃ dependency ∈ step.dependsOn, dependency.value = name
  · obtain ⟨dependency, member, rfl⟩ := named
    obtain ⟨output, done, entry⟩ := h.each dependency member
    obtain ⟨output', done', entry'⟩ := h'.each dependency member
    rw [entry, entry', ← done, ← done']
  · cases entry : dependencies[name]? with
    | some output => exact absurd (h.only name output entry) named
    | none =>
        cases entry' : others[name]? with
        | some output => exact absurd (h'.only name output entry') named
        | none => rfl

theorem kept {token : UInt64} {action : RunAction} (h : run.Supplies step dependencies)
    (change : RunStep token action run run') (sound : run.Sound) :
    run'.Supplies step dependencies := by
  refine ⟨fun dependency member => ?_, h.only⟩
  obtain ⟨output, done, entry⟩ := h.each dependency member
  exact ⟨output, change.committed_kept sound done, entry⟩

end RunRecord.Supplies

/-- The entry of the collected outputs under a name. -/
theorem dependencyOutputs_getElem? (run : RunRecord) (step : StepSpec) (name : String) :
    (dependencyOutputs run step)[name]? =
      if (⟨name⟩ : StepId) ∈ step.dependsOn then
        run.steps[(⟨name⟩ : StepId)]? >>= StepRecord.output
      else none := by
  rw [dependencyOutputs]
  induction step.dependsOn using List.reverseRecOn with
  | nil => simp
  | append_singleton dependencies last ih =>
      rw [List.foldl_append, List.foldl_cons, List.foldl_nil]
      by_cases same : last = ⟨name⟩
      · subst same
        cases found : run.steps[(⟨name⟩ : StepId)]? >>= StepRecord.output with
        | none => simpa [found] using ih
        | some output => simp
      · have other : last.value ≠ name := fun h => same (Id.ext h)
        cases found : run.steps[last]? >>= StepRecord.output with
        | none => simpa [found, Ne.symm same] using ih
        | some output => simpa [found, Ne.symm same, BTreeMap.getElem?_insert_ne other] using ih

/-- A step whose dependencies have succeeded is supplied with their outputs. -/
theorem RunRecord.Sound.supplies {run : RunRecord} (sound : run.Sound) {step : StepSpec}
    (ready : dependenciesSucceeded run step = true) :
    run.Supplies step (dependencyOutputs run step) := by
  simp only [dependenciesSucceeded, List.all_eq_true, Option.any_eq_true, beq_iff_eq] at ready
  constructor
  · intro dependency member
    obtain ⟨record, found, succeeded⟩ := ready dependency member
    obtain ⟨output, stored⟩ := (sound.records _ _ found).output succeeded
    refine ⟨output, ?_, ?_⟩
    · rw [RunRecord.committed_of_found found, StepRecord.committed, if_pos succeeded, stored]
    · rw [dependencyOutputs_getElem?, if_pos member]
      exact (congrArg (· >>= StepRecord.output) found).trans stored
  · intro name output entry
    rw [dependencyOutputs_getElem?] at entry
    split at entry
    next member => exact ⟨⟨name⟩, member, rfl⟩
    · cases entry

/-- The claim was handed out for a step of its run, with the outputs that the
step's dependencies committed. -/
def Carries (claim : StepClaim) (run : RunRecord) : Prop :=
  claim.step ∈ run.workflow.steps ∧ ∃ dependencies,
    claim.input = buildStepInput run.input dependencies ∧ run.Supplies claim.step dependencies

theorem RunStep.claim_carries {token : UInt64} {claim : StepClaim} {run run' : RunRecord}
    (h : RunStep token (.claim claim) run run') (sound : run.Sound) : Carries claim run := by
  cases h with
  | claim worker seen now leaseMs running listed candidate known =>
      obtain ⟨-, -, rfl, -, ready, -⟩ := Repository.claimCandidate_eq_some.mp candidate
      exact ⟨listed, _, rfl, sound.supplies ready⟩

theorem Carries.kept {token : UInt64} {action : RunAction} {claim : StepClaim}
    {run run' : RunRecord} (h : Carries claim run) (change : RunStep token action run run')
    (sound : run.Sound) : Carries claim run' := by
  obtain ⟨listed, dependencies, input, supplies⟩ := h
  have same := change.sameRequest
  exact ⟨same.workflow ▸ listed, dependencies, same.input ▸ input, supplies.kept change sound⟩

/-- Every claim handed out still carries what its run now supplies. -/
def Carried (claims : List StepClaim) (s : Repository) : Prop :=
  ∀ claim ∈ claims, ∃ run, s.runs[claim.runId]? = some run ∧ Carries claim run

theorem carried_kept : Kept (fun _ _ _ => True) Carried where
  free _ _ _ := trivial
  create request now sequence eventNow accepted creation carried := by
    intro claim member
    obtain ⟨run, found, carries⟩ := carried claim member
    exact ⟨run, (creation.kept found).trans found, carries⟩
  move {C s k action run run' s'} keyed sound move _ carried := by
    intro claim member
    obtain old | new := List.mem_append.mp member
    · obtain ⟨other, found, carries⟩ := carried claim old
      by_cases same : k = claim.runId
      · subst same
        obtain rfl := Option.some.inj (move.found.symm.trans found)
        exact ⟨run', by rw [move.runs, if_pos rfl], carries.kept move.step (sound _ _ found)⟩
      · exact ⟨other, by rw [move.runs, if_neg same]; exact found, carries⟩
    · cases action with
      | claim handed =>
          obtain rfl := List.mem_singleton.mp new
          have own := move.step.claim_fields.2.trans (move.own keyed)
          have stable := move.step
          exact ⟨run', by rw [move.runs, if_pos own.symm],
            (stable.claim_carries (sound _ _ move.found)).kept stable (sound _ _ move.found)⟩
      | _ => cases new

theorem carried_after (ops : List Op) : Carried (issued ops) (repository.after ops) :=
  carried_kept.after (by intro claim member; cases member) ops (guarded_true ops)

end Orchestrator
