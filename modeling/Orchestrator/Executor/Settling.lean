import Orchestrator.Executor.Agreement
import Orchestrator.Executor.Polling

/-!
# Runs that idle workers leave active

When no call is in progress, no step is leased or waits, and a worker that supports every
task finds nothing to do, an active run is one whose steps have ended. `work_once` finishes
a run only after a completion of its own. So the run is left by a worker that crashed
between the completion and the finish request, or by a sweep that gave up its last step.
-/

namespace Orchestrator

open Json (Value)

namespace Repository

variable {s : Repository}

/-- A search for a claim that finds none was refused by every run. -/
theorem claimFrom_none {worker : WorkerProfile} {leaseMs : UInt64} {clock : Clock}
    {runs : List RunId} (keyed : s.Keyed)
    (nothing : (s.claimFrom worker leaseMs clock runs).1 = .ok none) :
    ∀ k ∈ runs, (s.claimNextStep k worker leaseMs clock).1 = .ok none := by
  induction runs with
  | nil => exact fun k member => absurd member List.not_mem_nil
  | cons first rest ih =>
      have effect := claimNextStep_effect s keyed first worker leaseMs clock
      rw [claimFrom] at nothing
      generalize answered : s.claimNextStep first worker leaseMs clock = answer at nothing effect
      obtain ⟨result, s'⟩ := answer
      have refused : result = .ok none := by
        cases result with
        | error error => cases nothing
        | ok handed =>
            cases handed with
            | none => rfl
            | some claim => cases nothing
      subst refused
      obtain rfl : s' = s := by
        cases effect
        rfl
      intro k member
      obtain rfl | later := List.mem_cons.mp member
      · rw [answered]
      · exact ih nothing k later

theorem mem_candidates (keyed : s.Keyed) {k : RunId} {run : RunRecord}
    (found : s.runs[k]? = some run) (active : run.status = .running) : k ∈ s.candidates := by
  refine List.mem_filterMap.mpr
    ⟨(k, run), Std.ExtTreeMap.mem_toList_iff_getElem?_eq_some.mpr found, ?_⟩
  rw [active, keyed k run found]
  rfl

/-- A step of an active run waits for a retry that no claim grants. -/
def Stranded (s : Repository) (k : RunId) : Prop :=
  ∃ run step record, s.runs[k]? = some run ∧ run.status = .running ∧
    step ∈ run.workflow.steps ∧ run.steps[step.id]? = some record ∧ record.status = .retrying ∧
    ¬ (record.attempts < step.policy.retry.budget ∨
      record.fallbackUsed = true ∧ record.attempts = step.policy.retry.budget)

/-- No step holds a lease, no step waits for its next attempt as the clock reads it, and the
worker supports every task. -/
structure Resting (s : Repository) (worker : WorkerProfile) (clock : Clock) : Prop where
  unleased : ∀ (k : RunId) (run : RunRecord), s.runs[k]? = some run → run.Unleased
  due : ∀ (k : RunId) (run : RunRecord) (id : StepId) (record : StepRecord) (next : UInt64),
    s.runs[k]? = some run → run.steps[id]? = some record →
      record.nextAttemptAtMs = some next → next ≤ clock.step k id
  supports : ∀ (k : RunId) (run : RunRecord), s.runs[k]? = some run → SupportsAll worker run

/-- Where no claim is found an active run is settled, or a step of it is stranded. -/
theorem Resting.settled {worker : WorkerProfile} {leaseMs : UInt64} {clock : Clock}
    (resting : s.Resting worker clock) (keyed : s.Keyed) (sound : s.Every RunRecord.Sound)
    (phased : s.Every RunRecord.Phased)
    (nothing : (s.claimNextRunnableStep worker leaseMs clock).1 = .ok none) {k : RunId}
    {run : RunRecord} (found : s.runs[k]? = some run) (active : run.status = .running)
    (free : ¬ s.Stranded k) : run.settled = true := by
  by_contra unsettled
  rw [RunRecord.settled, Bool.or_eq_true, not_or, Bool.not_eq_true,
    RunRecord.allSucceeded_iff_done (sound k run found)] at unsettled
  obtain ⟨unfailed, unfinished⟩ := unsettled
  obtain ⟨step, listed, undone, ready⟩ :=
    WorkflowSpec.exists_ready (sound k run found).accepted.valid run.Done
      (by simpa only [not_forall, exists_prop] using unfinished)
  have granted : ∀ record, run.steps[step.id]? = some record → record.status = .retrying →
      record.attempts < step.policy.retry.budget ∨
        record.fallbackUsed = true ∧ record.attempts = step.policy.retry.budget := by
    intro record foundStep retrying
    by_contra refused
    exact free ⟨run, step, record, found, active, listed, foundStep, retrying, refused⟩
  obtain ⟨record, lease, foundStep, leased⟩ | ⟨record, next, foundStep, -, scheduled, early⟩ |
    ⟨candidate, chosen⟩ := ready_step (sound k run found) (phased k run found) active unfailed
      (resting.supports k run found) listed granted undone ready (clock.step k step.id)
  · have unleased := resting.unleased k run found step.id record foundStep
    rw [leased] at unleased
    cases unleased
  · have due := resting.due k run step.id record next found foundStep scheduled
    exact absurd early (UInt64.not_lt.mpr due)
  · obtain ⟨claim, handed⟩ := claimed_of_candidate keyed found active listed leaseMs chosen
    have refused := claimFrom_none keyed nothing k (mem_candidates keyed found active)
    rw [handed] at refused
    cases refused

end Repository

/-- A polling tick that returns idle has found no claim. -/
theorem DurableExecutor.claim_of_idle {executor : DurableExecutor} {s : Repository}
    {metrics : List Metric} {tick : Tick}
    (idle : (executor.workOnce s metrics tick).1 = .ok .idle) :
    (s.claimNextRunnableStep executor.options.worker executor.options.leaseMs tick.claim).1 =
      .ok none := by
  unfold workOnce at idle
  split at idle
  · cases idle
  next claimed =>
    rw [claimed]
  · split at idle
    · cases idle
    · split at idle
      · cases idle
      · split at idle <;> cases idle

/-- No call is in progress, no step is leased or waits, and a worker that supports every task
is idle. -/
def Fleet.Quiet (m : Fleet) : Prop :=
  m.calls = [] ∧ ∃ (executor : DurableExecutor) (metrics : List Metric)
    (tick : DurableExecutor.Tick), m.repository.Resting executor.options.worker tick.claim ∧
      (executor.workOnce m.repository metrics tick).1 = .ok .idle

/-- Every run has ended. -/
def Repository.Ended (s : Repository) : Prop := s.Every fun run => run.status.isTerminal = true

/-- In every quiet state all runs have ended exactly when a finish request has come after
each call that ended a step, and no step is stranded. -/
theorem polling_settles_iff (acts : List FleetOp) (quiet : (fleet.after acts).Quiet) :
    (fleet.after acts).repository.Ended ↔
      ∀ k, ¬ Unreported (performed acts) k ∧ ¬ (fleet.after acts).repository.Stranded k := by
  obtain ⟨-, executor, metrics, tick, resting, idle⟩ := quiet
  rw [Fleet.repository_after] at *
  have phased := phased_after (performed acts)
  constructor
  · intro ended k
    have inactive : ∀ run, (repository.after (performed acts)).runs[k]? = some run →
        run.status ≠ .running := by
      intro run found running
      have terminal : run.status.isTerminal = true := ended k run found
      rw [running] at terminal
      cases terminal
    refine ⟨fun unreported => ?_, ?_⟩
    · obtain ⟨run, found, running⟩ := unreported.active (Fleet.uncancelled acts k)
      exact inactive run found running
    · rintro ⟨run, -, -, found, running, -⟩
      exact inactive run found running
  · intro free k run found
    obtain active | ended := (phased k run found).phase
    · have settled := resting.settled (Repository.keyed_after _) (sound_after _) phased
        (DurableExecutor.claim_of_idle idle) found active (free k).2
      exact absurd (unreported_of_unfinished _ ⟨run, found, active, settled⟩) (free k).1
    · exact ended

/-- The test of a quiet state for the worker of the small run. -/
def Fleet.isQuiet (m : Fleet) : Bool :=
  m.calls.isEmpty &&
  BTreeMap.allValues m.repository.runs (fun run =>
    BTreeMap.allValues run.steps (fun record =>
      record.lease.isNone && record.nextAttemptAtMs.isNone) &&
    run.workflow.steps.all fun step =>
      BTreeMap.allValues run.manifest.tasks (Sample.worker.supportsTask · step.policy)) &&
  ((Sample.durable fun _ _ => .ok .null).workOnce m.repository [] (Sample.ticks 0)).1.toOption ==
    some .idle

theorem Fleet.quiet_of_isQuiet {m : Fleet} (h : m.isQuiet = true) : m.Quiet := by
  simp only [isQuiet, BTreeMap.allValues_iff, Bool.and_eq_true, List.all_eq_true,
    Option.isNone_iff_eq_none, List.isEmpty_iff, beq_iff_eq] at h
  obtain ⟨⟨returned, stored⟩, idle⟩ := h
  refine ⟨returned, Sample.durable fun _ _ => .ok .null, [], Sample.ticks 0, ⟨?_, ?_, ?_⟩, ?_⟩
  · intro k run found id record foundStep
    exact ((stored k run found).1 id record foundStep).1
  · intro k run id record next found foundStep scheduled
    rw [((stored k run found).1 id record foundStep).2] at scheduled
    cases scheduled
  · intro k run found step listed id task known
    exact (stored k run found).2 step listed id task known
  · generalize (DurableExecutor.workOnce _ _ _ _).1 = outcome at idle
    cases outcome with
    | error => cases idle
    | ok outcome => exact congrArg Except.ok (Option.some.inj idle)

/-- A run of one step is submitted, and a polling call claims the step. -/
def claimedByPoll (step : StepSpec) : List FleetOp :=
  let executor := Sample.durable fun _ _ => .ok .null
  [.submit executor Sample.runId (Sample.request [step] []).workflow .null none (.at 0),
    .poll executor [], .proceed 0 (.ok .null) (.at 0)]

/-- The call that holds the claim executes the task and completes the step. -/
def completedByPoll : List FleetOp :=
  claimedByPoll Sample.only ++ [.proceed 0 (.ok .null) (.at 0), .proceed 0 (.ok .null) (.at 0)]

/-- The call that completed the step finishes the run. -/
theorem polling_settles_iff_finished :
    (fleet.after (completedByPoll ++ [.proceed 0 (.ok .null) (.at 0)])).repository.Ended ∧
      ∀ k, ¬ Unreported (performed (completedByPoll ++ [.proceed 0 (.ok .null) (.at 0)])) k ∧
        ¬ (fleet.after (completedByPoll ++ [.proceed 0 (.ok .null) (.at 0)])).repository.Stranded
          k := by
  have quiet : (fleet.after (completedByPoll ++ [.proceed 0 (.ok .null) (.at 0)])).Quiet :=
    Fleet.quiet_of_isQuiet (by decide +kernel)
  have ended : BTreeMap.allValues
      (fleet.after (completedByPoll ++ [.proceed 0 (.ok .null) (.at 0)])).repository.runs
      (fun run => run.status.isTerminal) = true := by
    decide +kernel
  rw [BTreeMap.allValues_iff] at ended
  exact ⟨ended, (polling_settles_iff _ quiet).mp ended⟩

/-- The worker crashes before it finishes the run of the completed step, or it crashes under
the claim of the last attempt and a sweep gives the step up: no worker ends the run. -/
theorem crash_leaves_running :
    let completed := completedByPoll ++ [.crash 0]
    let givenUp := claimedByPoll (Sample.step "only" 1 false) ++ [.crash 0,
      .poll (Sample.durable fun _ _ => .ok .null) [], .proceed 0 (.ok .null) (.at 20),
      .proceed 0 (.ok .null) (.at 20)]
    ((fleet.after completed).Quiet ∧ ¬ (fleet.after completed).repository.Ended) ∧
      (fleet.after givenUp).Quiet ∧ ¬ (fleet.after givenUp).repository.Ended := by
  have running : ∀ {s : Repository}, ((s.runs[Sample.runId]?).map fun run => run.status) =
      some .running → ¬ s.Ended := by
    intro s active ended
    obtain ⟨run, found, status⟩ := Option.map_eq_some_iff.mp active
    have terminal : run.status.isTerminal = true := ended Sample.runId run found
    rw [status] at terminal
    cases terminal
  exact ⟨⟨Fleet.quiet_of_isQuiet (by decide +kernel), running (by decide +kernel)⟩,
    Fleet.quiet_of_isQuiet (by decide +kernel), running (by decide +kernel)⟩

/-- With fewer than 2 ^ 64 claims no step is stranded. -/
theorem not_stranded (acts : List FleetOp) (few : (issued (performed acts)).length < 2 ^ 64)
    (k : RunId) : ¬ (fleet.after acts).repository.Stranded k := by
  rw [Fleet.repository_after]
  rintro ⟨run, step, record, found, -, listed, foundStep, retrying, refused⟩
  exact refused (granted_after (Fleet.genuine_after acts).1 few found listed foundStep retrying)

end Orchestrator
