import Orchestrator.Model.Payload

/-!
# Which run records are read back from their JSON form

Two things are not read back from what is written for them: an output that is
there and is null, which is read as no output, and a double that is not finite,
which has no JSON form.
-/

namespace Orchestrator

open Json (Reads fromValue toValue)

/-- The doubles of a gate, a metric or a decision are finite. -/
def EvaluationGate.Finite (gate : EvaluationGate) : Prop := gate.threshold.isFinite = true

def Metric.Finite (metric : Metric) : Prop := metric.value.isFinite = true

def GateDecision.Finite (decision : GateDecision) : Prop :=
  (∀ value ∈ decision.observed, value.isFinite = true) ∧ decision.threshold.isFinite = true

/-- No double of the run is infinite or not a number. -/
structure RunRecord.Finite (run : RunRecord) : Prop where
  workflow : ∀ gate ∈ run.workflow.evaluationGates, gate.Finite
  manifest : ∀ gate ∈ run.manifest.evaluationGates, gate.Finite
  metrics : ∀ metric ∈ run.metrics, metric.Finite
  gateDecisions : ∀ (name : String) (decision : GateDecision),
    run.gateDecisions[name]? = some decision → decision.Finite

/-- A run that is read back: its doubles are finite and no output is null. -/
structure RunRecord.Readable (run : RunRecord) : Prop where
  finite : run.Finite
  outputs : ∀ (id : StepId) (record : StepRecord), run.steps[id]? = some record →
    record.output ≠ some .null

/-- Reading a field of a record that cannot be another value than the record's. -/
theorem bind_fromValue {α β : Type} [Json.Serde α] {a : α} {k : α → Option β} {b : β}
    (only : ∀ a', k a' = some b → a' = a) :
    (Json.fromValue (Json.toValue a)).bind k = some b ↔ Reads a ∧ k a = some b := by
  rw [Option.bind_eq_some_iff]
  constructor
  · rintro ⟨a', read, rest⟩
    obtain rfl := only a' rest
    exact ⟨read, rest⟩
  · rintro ⟨read, rest⟩
    exact ⟨a, read, rest⟩

@[simp] theorem reads_metric (metric : Metric) : Reads metric ↔ metric.Finite := by
  change Metric.fromValue (Metric.toValue metric) = some metric ↔ _
  simp only [Metric.fromValue, Metric.toValue]
  simp
  rw [bind_fromValue fun value same => congrArg Metric.value (Option.some.inj same)]
  simp [Metric.Finite]

@[simp] theorem reads_evaluationGate (gate : EvaluationGate) : Reads gate ↔ gate.Finite := by
  change EvaluationGate.fromValue (EvaluationGate.toValue gate) = some gate ↔ _
  simp [EvaluationGate.fromValue, EvaluationGate.toValue]
  rw [bind_fromValue fun value same => congrArg EvaluationGate.threshold (Option.some.inj same)]
  simp [EvaluationGate.Finite]

/-- A double that may be missing is read back just if it is not there or finite. -/
theorem reads_observed (observed : Option Binary64) :
    Reads observed ↔ ∀ value ∈ observed, value.isFinite = true := by
  cases observed with
  | none => simp [Json.reads_none]
  | some value =>
      rw [Json.reads_some, Json.reads_binary64]
      by_cases finite : value.isFinite = true
      · simp [Json.toValue, finite]
      · simp [Json.toValue, finite]

@[simp] theorem reads_gateDecision (decision : GateDecision) :
    Reads decision ↔ decision.Finite := by
  change GateDecision.fromValue (GateDecision.toValue decision) = some decision ↔ _
  simp [GateDecision.fromValue, GateDecision.toValue]
  rw [bind_fromValue ?_, bind_fromValue ?_, reads_observed]
  · simp [GateDecision.Finite]
  · exact fun value same => congrArg GateDecision.threshold (Option.some.inj same)
  · intro observed same
    obtain ⟨threshold, -, same⟩ := Option.bind_eq_some_iff.mp same
    exact congrArg GateDecision.observed (Option.some.inj same)

/-- A workflow, a manifest and a step record are read with all but one field as they were. -/
theorem fromValue_workflowSpec (workflow : WorkflowSpec) :
    fromValue (toValue workflow) =
      (fromValue (toValue workflow.evaluationGates)).bind fun evaluationGates =>
        some { workflow with evaluationGates } := by
  change WorkflowSpec.fromValue (WorkflowSpec.toValue workflow) = _
  rw [WorkflowSpec.toValue]
  simp [WorkflowSpec.fromValue]

theorem fromValue_runManifest (manifest : RunManifest) :
    fromValue (toValue manifest) =
      (fromValue (toValue manifest.evaluationGates)).bind fun evaluationGates =>
        some { manifest with evaluationGates } := by
  change RunManifest.fromValue (RunManifest.toValue manifest) = _
  rw [RunManifest.toValue]
  simp [RunManifest.fromValue]

theorem fromValue_stepRecord (record : StepRecord) :
    fromValue (toValue record) =
      (fromValue (toValue record.output)).bind fun output => some { record with output } := by
  change StepRecord.fromValue (StepRecord.toValue record) = _
  rw [StepRecord.toValue]
  simp [StepRecord.fromValue]

@[simp] theorem reads_workflowSpec (workflow : WorkflowSpec) :
    Reads workflow ↔ ∀ gate ∈ workflow.evaluationGates, gate.Finite := by
  rw [Reads, fromValue_workflowSpec, bind_fromValue fun gates same =>
    congrArg WorkflowSpec.evaluationGates (Option.some.inj same)]
  simp

@[simp] theorem reads_runManifest (manifest : RunManifest) :
    Reads manifest ↔ ∀ gate ∈ manifest.evaluationGates, gate.Finite := by
  rw [Reads, fromValue_runManifest, bind_fromValue fun gates same =>
    congrArg RunManifest.evaluationGates (Option.some.inj same)]
  simp

/-- A step record is read back unless its output is null. -/
@[simp] theorem reads_stepRecord (record : StepRecord) :
    Reads record ↔ record.output ≠ some .null := by
  rw [Reads, fromValue_stepRecord, bind_fromValue fun output same =>
    congrArg StepRecord.output (Option.some.inj same)]
  refine (and_iff_left rfl).trans ?_
  cases record.output with
  | none => simp [Json.reads_none]
  | some output => simp [Json.reads_some, Json.toValue]

/-- A run record is read with the fields that are always read back as they were. -/
theorem fromValue_runRecord (run : RunRecord) :
    fromValue (toValue run) =
      (fromValue (toValue run.workflow)).bind fun workflow =>
      (fromValue (toValue run.manifest)).bind fun manifest =>
      (fromValue (toValue run.steps)).bind fun steps =>
      (fromValue (toValue run.metrics)).bind fun metrics =>
      (fromValue (toValue run.gateDecisions)).bind fun gateDecisions =>
        some { run with workflow, manifest, steps, metrics, gateDecisions } := by
  change RunRecord.fromValue (RunRecord.toValue run) = _
  rw [RunRecord.toValue]
  simp [RunRecord.fromValue]

/-- Where a record is read, all but five fields are as they were. -/
theorem eq_of_fromValue_runRecord {run run' : RunRecord} (h : fromValue (toValue run) = some run') :
    run' = { run with
      workflow := run'.workflow, manifest := run'.manifest, steps := run'.steps
      metrics := run'.metrics, gateDecisions := run'.gateDecisions } := by
  rw [fromValue_runRecord] at h
  simp only [Option.bind_eq_some_iff, Option.some.injEq] at h
  obtain ⟨workflow, -, manifest, -, steps, -, metrics, -, decisions, -, rfl⟩ := h
  rfl

/-- A run record is read back just if it is readable. -/
theorem reads_runRecord (run : RunRecord) : Reads run ↔ run.Readable := by
  rw [Reads, fromValue_runRecord]
  rw [bind_fromValue ?_, bind_fromValue ?_, bind_fromValue ?_, bind_fromValue ?_, bind_fromValue ?_]
  · simp only [reads_workflowSpec, reads_runManifest, Json.reads_map, reads_stepRecord,
      Json.reads_list, reads_metric, reads_gateDecision]
    constructor
    · rintro ⟨workflow, manifest, outputs, metrics, decisions, -⟩
      exact ⟨⟨workflow, manifest, metrics, decisions⟩, outputs⟩
    · rintro ⟨⟨workflow, manifest, metrics, decisions⟩, outputs⟩
      exact ⟨workflow, manifest, outputs, metrics, decisions, trivial⟩
  · exact fun decisions same => congrArg RunRecord.gateDecisions (Option.some.inj same)
  · intro metrics same
    obtain ⟨decisions, -, same⟩ := Option.bind_eq_some_iff.mp same
    exact congrArg RunRecord.metrics (Option.some.inj same)
  · intro steps same
    simp only [Option.bind_eq_some_iff, Option.some.injEq] at same
    obtain ⟨metrics, -, decisions, -, same⟩ := same
    exact congrArg RunRecord.steps same
  · intro manifest same
    simp only [Option.bind_eq_some_iff, Option.some.injEq] at same
    obtain ⟨steps, -, metrics, -, decisions, -, same⟩ := same
    exact congrArg RunRecord.manifest same
  · intro workflow same
    simp only [Option.bind_eq_some_iff, Option.some.injEq] at same
    obtain ⟨manifest, -, steps, -, metrics, -, decisions, -, same⟩ := same
    exact congrArg RunRecord.workflow same

/-- An output that is null is the only thing that a step record can lose. -/
theorem exists_fromValue_stepRecord (record : StepRecord) :
    ∃ record' : StepRecord, fromValue (toValue record) = some record' := by
  rw [fromValue_stepRecord]
  cases record.output with
  | none => exact ⟨_, rfl⟩
  | some output => cases output <;> exact ⟨_, rfl⟩

/-- A record whose doubles are finite is read with all but its steps as they were. -/
theorem RunRecord.Finite.exists_fromValue {run : RunRecord} (finite : run.Finite) :
    ∃ steps, Json.fromValue (Json.toValue run) = some { run with steps } := by
  obtain ⟨steps, read⟩ : ∃ steps : BTreeMap StepId StepRecord,
      Json.fromValue (Json.toValue run.steps) = some steps :=
    Json.exists_fromValue_map fun _ record _ => exists_fromValue_stepRecord record
  refine ⟨steps, ?_⟩
  have workflow : Reads run.workflow := (reads_workflowSpec _).mpr finite.workflow
  have manifest : Reads run.manifest := (reads_runManifest _).mpr finite.manifest
  have metrics : Reads run.metrics := by
    refine (Json.reads_list _).mpr fun metric member => ?_
    exact (reads_metric metric).mpr (finite.metrics metric member)
  have decisions : Reads run.gateDecisions := by
    refine (Json.reads_map _).mpr fun name decision found => ?_
    exact (reads_gateDecision decision).mpr (finite.gateDecisions name decision found)
  rw [fromValue_runRecord, workflow.eq, Option.bind_some, manifest.eq, Option.bind_some, read,
    Option.bind_some, metrics.eq, Option.bind_some, decisions.eq, Option.bind_some]

end Orchestrator
