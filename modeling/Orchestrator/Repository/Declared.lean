import Orchestrator.Foundation.Fallible
import Orchestrator.Model.Task
import Orchestrator.Repository.Gates

/-!
# The gates that a workflow declares

A request has two gate lists, one in its workflow and one in its manifest. Validation does
not compare them, and `finish_run` evaluates the one of the manifest. So the declared
gates bind a run exactly where the evaluated ones cover them, as they do in the requests
of the executors, which copy the declared gates.
-/

namespace Orchestrator

namespace EvaluationGate

/-- The observed value is on the right side of the threshold. -/
def admits (gate : EvaluationGate) (value : Binary64) : Bool :=
  match gate.direction with
  | .atLeast => gate.threshold.le value
  | .atMost => value.le gate.threshold

/-- A gate passes when the first metric of its name has a value that it admits. -/
theorem passes_iff {gate : EvaluationGate} {metrics : List Metric} :
    gate.Passes metrics ↔ ∃ metric,
      metrics.find? (fun metric => metric.name == gate.metric) = some metric ∧
        gate.admits metric.value = true := by
  rw [Passes, evaluate]
  simp only [Option.any_map, Option.any_eq_true]
  rfl

end EvaluationGate

/-- No other gate of the list is on the metric. -/
def UniqueIn (gates : List EvaluationGate) (gate : EvaluationGate) : Prop :=
  gates.filter (fun other => other.metric == gate.metric) = [gate]

/-- The evaluated gates cover the declared ones. Either some metric's last evaluated gate
admits no value, so that no run succeeds, or each declared gate that is alone on its
metric has a last evaluated gate there, which admits only values that it admits. -/
def Covers (declared evaluated : List EvaluationGate) : Prop :=
  (∃ metric last, lastGate evaluated metric = some last ∧ ∀ value, last.admits value = false) ∨
    ∀ gate ∈ declared, UniqueIn declared gate → ∃ last,
      lastGate evaluated gate.metric = some last ∧
        ∀ value, last.admits value = true → gate.admits value = true

/-- A run with these gates in its workflow and in its manifest that `finish_run` moves to
success passes each declared gate that is alone on its metric. -/
def DeclaredBind (declared evaluated : List EvaluationGate) : Prop :=
  ∀ (ops : List Op) (runId : RunId) (metrics : List Metric) (clock : Clock)
    (run run' : RunRecord), (repository.after ops).runs[runId]? = some run →
      run.workflow.evaluationGates = declared → run.manifest.evaluationGates = evaluated →
      run.status ≠ .succeeded →
      ((repository.after ops).finishRun runId metrics clock).1 = .ok run' →
      run'.status = .succeeded →
        ∀ gate ∈ declared, UniqueIn declared gate → gate.Passes metrics

/-- A gate list has last gates on the metrics of its gates. -/
theorem lastGate_metric {gates : List EvaluationGate} {metric : String} {last : EvaluationGate}
    (found : lastGate gates metric = some last) : last ∈ gates ∧ last.metric = metric := by
  obtain ⟨member, same⟩ := List.mem_filter.mp (List.mem_of_getLast? found)
  exact ⟨member, beq_iff_eq.mp same⟩

/-- A list covers itself. -/
theorem covers_self (gates : List EvaluationGate) : Covers gates gates := by
  refine .inr fun gate _ unique => ⟨gate, ?_, fun value admitted => admitted⟩
  rw [lastGate, unique]
  rfl

/-- A run that a finish request moves to success passes the last evaluated gates. -/
theorem finishRun_passes {ops : List Op} {runId : RunId} {metrics : List Metric} {clock : Clock}
    {run run' : RunRecord} (found : (repository.after ops).runs[runId]? = some run)
    (before : run.status ≠ .succeeded)
    (finished : ((repository.after ops).finishRun runId metrics clock).1 = .ok run')
    (succeeded : run'.status = .succeeded) : run.passes metrics = true := by
  obtain ⟨final, s', result, move⟩ := Repository.finishRun_of_some _
    (Repository.keyed_after ops) metrics clock found
  obtain rfl := Except.ok.inj ((congrArg Prod.fst result).symm.trans finished)
  cases move.step.statusStep with
  | kept status => exact absurd (status ▸ succeeded) before
  | finished _ settled status =>
      rw [status, RunRecord.verdict_setMetrics] at succeeded
      cases passes : run.passes metrics with
      | false => cases failed : run.hasFailed <;> simp [failed, passes] at succeeded
      | true => rfl

/-- A run on a request with these gates succeeds with metrics that pass the evaluated ones. -/
theorem finishRun_succeeds (declared : List EvaluationGate) {evaluated : List EvaluationGate}
    {metrics : List Metric}
    (passes : ∀ metric gate, lastGate evaluated metric = some gate → gate.Passes metrics) :
    ∃ run run', (repository.after (settledDeclaring declared evaluated)).runs[Sample.runId]? =
        some run ∧ run.workflow.evaluationGates = declared ∧
      run.manifest.evaluationGates = evaluated ∧ run.status ≠ .succeeded ∧
      ((repository.after (settledDeclaring declared evaluated)).finishRun Sample.runId metrics
        (.at 2)).1 = .ok run' ∧ run'.status = .succeeded := by
  obtain ⟨run, found, workflow, manifest, active, succeeded, unfailed⟩ :=
    settledDeclaring_run declared evaluated
  obtain ⟨run', s', finished, move⟩ := Repository.finishRun_of_some _
    (Repository.keyed_after _) metrics (.at 2) found
  refine ⟨run, run', found, workflow, manifest, by simp [active], congrArg Prod.fst finished, ?_⟩
  rw [move.step.finish_status (by rw [RunRecord.settled, succeeded, Bool.or_true]),
    RunRecord.verdict_setMetrics, unfailed, RunRecord.passes, manifest,
    (allPassed_iff _ _).mpr passes]
  rfl

section Reports

variable (names : List String) (value : String → Binary64)

/-- One metric for each name. -/
def reports : List Metric := names.map fun name => ⟨name, value name⟩

theorem find?_reports (name : String) :
    (reports names value).find? (fun metric => metric.name == name) =
      if name ∈ names then some ⟨name, value name⟩ else none := by
  induction names with
  | nil => rfl
  | cons first rest ih =>
      show List.find? _ (⟨first, value first⟩ :: reports rest value) = _
      rw [List.find?_cons]
      by_cases same : first = name
      · simp [same]
      · have apart : name ≠ first := fun equal => same equal.symm
        have different : (first == name) = false := beq_eq_false_iff_ne.mpr same
        simp [different, apart, ih]

/-- A gate passes on the reports when they have its metric with a value that it admits. -/
theorem passes_reports_iff (gate : EvaluationGate) :
    gate.Passes (reports names value) ↔
      gate.metric ∈ names ∧ gate.admits (value gate.metric) = true := by
  rw [EvaluationGate.passes_iff, find?_reports]
  by_cases reported : gate.metric ∈ names
  · simp [reported]
  · simp [reported]

end Reports

/-- Where the evaluated gates do not cover the declared ones, some metrics pass all last
evaluated gates and fail a declared one. -/
theorem exists_metrics_of_not_covers {declared evaluated : List EvaluationGate}
    (uncovered : ¬ Covers declared evaluated) : ∃ metrics : List Metric,
      (∀ metric gate, lastGate evaluated metric = some gate → gate.Passes metrics) ∧
        ∃ gate ∈ declared, UniqueIn declared gate ∧ ¬ gate.Passes metrics := by
  obtain ⟨satisfiable, blind⟩ := not_or.mp uncovered
  push Not at satisfiable blind
  obtain ⟨gate, member, unique, escapes⟩ := blind
  -- a value for each metric that its last gate admits, and on the gate's own metric
  -- one that the gate does not admit
  have chosen : ∀ metric, ∃ value, ∀ last, lastGate evaluated metric = some last →
      last.admits value = true ∧ (metric = gate.metric → gate.admits value = false) := by
    intro metric
    cases found : lastGate evaluated metric with
    | none => exact ⟨⟨0⟩, fun last same => nomatch same⟩
    | some last =>
        by_cases own : metric = gate.metric
        · obtain ⟨value, admitted, refused⟩ := escapes last (own ▸ found)
          refine ⟨value, fun other same => ?_⟩
          obtain rfl := Option.some.inj same
          exact ⟨admitted, fun _ => Bool.eq_false_iff.mpr refused⟩
        · obtain ⟨value, admitted⟩ := satisfiable metric last found
          refine ⟨value, fun other same => ?_⟩
          obtain rfl := Option.some.inj same
          exact ⟨eq_true_of_ne_false admitted, fun equal => absurd equal own⟩
  choose value holds using chosen
  refine ⟨reports (evaluated.map EvaluationGate.metric) value, ?_, gate, member, unique, ?_⟩
  · intro metric last found
    obtain ⟨inside, rfl⟩ := lastGate_metric found
    exact (passes_reports_iff _ _ last).mpr
      ⟨List.mem_map_of_mem inside, (holds last.metric last found).1⟩
  · intro passes
    obtain ⟨reported, admitted⟩ := (passes_reports_iff _ _ gate).mp passes
    obtain ⟨other, inside, same⟩ := List.mem_map.mp reported
    cases found : lastGate evaluated gate.metric with
    | none =>
        have present : other ∈ evaluated.filter fun other => other.metric == gate.metric :=
          List.mem_filter.mpr ⟨inside, beq_iff_eq.mpr same⟩
        rw [List.getLast?_eq_none_iff.mp found] at present
        cases present
    | some last =>
        rw [(holds gate.metric last found).2 rfl] at admitted
        cases admitted

/-- Covered gates bind every run. -/
theorem Covers.bind {declared evaluated : List EvaluationGate}
    (covers : Covers declared evaluated) :
    DeclaredBind declared evaluated := by
  intro ops runId metrics clock run run' found workflow manifest before finished succeeded gate
    member unique
  have passes := finishRun_passes found before finished succeeded
  rw [RunRecord.passes, manifest, allPassed_iff] at passes
  obtain ⟨metric, last, lastOf, refuses⟩ | covered := covers
  · obtain ⟨reported, -, admitted⟩ := EvaluationGate.passes_iff.mp (passes metric last lastOf)
    rw [refuses] at admitted
    cases admitted
  · obtain ⟨last, lastOf, implies⟩ := covered gate member unique
    obtain ⟨reported, found, admitted⟩ :=
      EvaluationGate.passes_iff.mp (passes gate.metric last lastOf)
    rw [(lastGate_metric lastOf).2] at found
    exact EvaluationGate.passes_iff.mpr ⟨reported, found, implies reported.value admitted⟩

/-- The declared gates of a run bind it exactly where the evaluated ones cover them. -/
theorem declared_gates_bind_iff (declared evaluated : List EvaluationGate) :
    DeclaredBind declared evaluated ↔ Covers declared evaluated := by
  refine ⟨fun bind => ?_, Covers.bind⟩
  by_contra uncovered
  obtain ⟨metrics, passes, gate, member, unique, failing⟩ := exists_metrics_of_not_covers uncovered
  obtain ⟨run, run', found, workflow, manifest, before, finished, succeeded⟩ :=
    finishRun_succeeds declared passes
  exact failing (bind _ _ metrics (.at 2) run run' found workflow manifest before finished
    succeeded gate member unique)

/-- A workflow with one gate, and a manifest without: a run that reports no metrics
succeeds. -/
theorem declared_gate_ignored :
    ¬ DeclaredBind [⟨"score", ⟨0x3FECCCCCCCCCCCCD⟩, .atLeast⟩] [] := by
  intro bind
  have passes : ∀ metric gate, lastGate [] metric = some gate → gate.Passes [] :=
    fun metric gate last => nomatch last
  obtain ⟨run, run', found, workflow, manifest, before, finished, succeeded⟩ :=
    finishRun_succeeds [⟨"score", ⟨0x3FECCCCCCCCCCCCD⟩, .atLeast⟩] passes
  have passed := bind _ _ [] (.at 2) run run' found workflow manifest before finished succeeded _
    (List.mem_singleton_self _) rfl
  exact absurd passed (by rw [EvaluationGate.Passes]; decide +kernel)

/-- The executors copy the declared gates into the manifests of their requests, whose runs
they bind. -/
theorem buildManifest_bind {registry : TaskRegistry} {provenance : RunProvenance}
    {workflow : WorkflowSpec} {manifest : RunManifest}
    (built : buildManifest registry provenance workflow = .ok manifest) :
    DeclaredBind workflow.evaluationGates manifest.evaluationGates := by
  have copied : manifest.evaluationGates = workflow.evaluationGates := by
    unfold buildManifest at built
    obtain ⟨tasks, -, copied⟩ := Except.bind_eq_ok.mp built
    rw [← Except.ok.inj copied]
    rfl
  rw [copied]
  exact (covers_self _).bind

end Orchestrator
