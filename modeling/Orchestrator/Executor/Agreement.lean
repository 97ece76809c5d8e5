import Orchestrator.Executor.Memory
import Orchestrator.Executor.Round

/-!
# The two executors on one step

`execute_step` runs a step to its end in one loop; the durable cycle makes the same
attempts one round at a time. They come to the same end exactly when the step is
`Agreeable`: the loop retries a permanent error that the cycle fails at once, and
the cycle refuses an attempt that the largest counter does not tell from the last.
-/

namespace Orchestrator

open Json (Value)

/-- Every event of a step is about a step with a record. -/
def RunRecord.Recorded (run : RunRecord) : Prop :=
  ∀ envelope ∈ run.eventLog, ∀ id, envelope.event.stepId? = some id →
    ∃ record, run.steps[id]? = some record

namespace RunRecord.Recorded

variable {token : UInt64} {action : RunAction} {run run' : RunRecord}

/-- One more event, about a step with a record. -/
theorem logged {last : EventEnvelope} (h : run.Recorded)
    (log : run'.eventLog = run.eventLog ++ [last])
    (kept : ∀ (id : StepId) (record : StepRecord), run.steps[id]? = some record →
      ∃ record', run'.steps[id]? = some record')
    (about : ∀ id, last.event.stepId? = some id → ∃ record, run'.steps[id]? = some record) :
    run'.Recorded := by
  intro envelope member id named
  rw [log, List.mem_append, List.mem_singleton] at member
  obtain old | rfl := member
  · obtain ⟨record, found⟩ := h envelope old id named
    exact kept id record found
  · exact about id named

/-- Writing one record keeps all others. -/
theorem kept_of_insert {id : StepId} {record : StepRecord}
    (steps : run'.steps = run.steps.insert id record) (other : StepId) (old : StepRecord)
    (found : run.steps[other]? = some old) : ∃ record', run'.steps[other]? = some record' := by
  rw [steps, BTreeMap.getElem?_insert]
  split
  · exact ⟨record, rfl⟩
  · exact ⟨old, found⟩

theorem step (h : RunStep token action run run') (sound : run.Sound) (recorded : run.Recorded) :
    run'.Recorded := by
  cases h with
  | claim worker seen now leaseMs running listed candidate known =>
      intro envelope member id named
      obtain ⟨record, found⟩ := recorded envelope member id named
      exact kept_of_insert rfl id record found
  | renew claim now again leaseMs found leased valid =>
      intro envelope member id named
      obtain ⟨record, found⟩ := recorded envelope member id named
      exact kept_of_insert rfl id record found
  | @complete _ record lease claim completion now retryNow finishNow sequence eventNow found
      leased valid
      accepted =>
      have steps := run.commit_steps (record.complete completion retryNow finishNow) claim.step.id
      refine recorded.logged (congrArg (· ++ _) (run.commit_eventLog _ _)) (kept_of_insert steps)
        fun id named => ?_
      obtain rfl := Option.some.inj ((completionMatchesClaim_iff.mp accepted).stepId?.symm.trans
        named)
      exact ⟨_, (congrArg (·[claim.step.id]?) steps).trans Std.ExtTreeMap.getElem?_insert_self⟩
  | record event sequence eventNow accepted =>
      refine recorded.logged rfl (fun id record found => ⟨record, found⟩) ?_
      intro id named
      cases event with
      | runStarted => cases named
      | runFinished => cases named
      | _ =>
          obtain rfl := Option.some.inj named
          simp only [eventIsValidForRecord] at accepted
          split at accepted
          · cases accepted
          · split at accepted
            · cases accepted
            next record found => exact ⟨record, found⟩
  | measure metrics unsettled => exact recorded
  | settle metrics settled same =>
      intro envelope member
      rw [settle_eventLog, setMetrics_eventLog] at member
      rw [settle_steps, setMetrics_steps]
      exact recorded envelope member
  | finish metrics sequence eventNow settled changed =>
      refine recorded.logged (congrArg (· ++ _) (settle_eventLog _))
        (fun id record found => ⟨record, ?_⟩) fun id named => (by cases named)
      rw [logged_steps, settle_steps]
      exact found
  | cancel now sequence eventNow active =>
      refine recorded.logged rfl (fun id record found => ?_) fun id named => (by cases named)
      rw [logged_steps, cancelSteps_steps, Std.ExtTreeMap.getElem?_map, found]
      exact ⟨_, rfl⟩
  | @recover _ step record recovered event now sequence eventNow listed found expired =>
      have steps := (run.setStep step.id recovered).noteRecovery_steps recovered
      refine recorded.logged (congrArg (· ++ _) (noteRecovery_eventLog _ recovered))
        (kept_of_insert steps) fun id named => ?_
      have about := (recoverExpiredStep_eq_some expired).2.stepId?
      rw [(sound.records _ _ found).named] at about
      obtain rfl := Option.some.inj (about.symm.trans named)
      exact ⟨_, (congrArg (·[step.id]?) steps).trans Std.ExtTreeMap.getElem?_insert_self⟩

end RunRecord.Recorded

/-- Every stored run has records for the steps in its log. -/
theorem recorded_after (ops : List Op) : (repository.after ops).Every RunRecord.Recorded := by
  have both := Repository.runs_invariant (P := fun run => run.Sound ∧ run.Recorded)
    (fun request now sequence eventNow accepted =>
      ⟨.created now sequence eventNow accepted, fun envelope member id named => by
        obtain rfl := List.mem_singleton.mp member
        cases named⟩)
    (fun move holds => ⟨holds.1.step move, holds.2.step move holds.1⟩) ops
  exact fun k run found => (both k run found).2

/-- The rounds happen in time: each lease outlives its round, and each claim is
made when the step is due. -/
structure Paced (executor : DurableExecutor) (step : StepSpec) (start : RunRecord)
    (s : Repository) (ticks : Nat → DurableExecutor.Tick) : Prop where
  live : ∀ n, executor.Live (ticks n)
  due : ∀ (n : Nat) (s' : Repository) (run : RunRecord),
    executor.attemptStep s start.runId step.id ticks n = some s' →
      DurableExecutor.stepEnded s' start.runId step.id = false →
        s'.runs[start.runId]? = some run →
          Due run executor.options.worker step (ticks n).claim

/-- Both executors end the step, with equal records and events. -/
def Agree (memory : InMemoryExecutor) (durable : DurableExecutor) (view start : RunRecord)
    (step : StepSpec) (dependencies : BTreeMap String Value) (s : Repository)
    (ticks : Nat → DurableExecutor.Tick) : Prop :=
  ∃ fuel result n s' run record,
    memory.executeStep fuel view step dependencies = some result ∧
    durable.attemptStep s start.runId step.id ticks n = some s' ∧
    DurableExecutor.stepEnded s' start.runId step.id = true ∧
    s'.runs[start.runId]? = some run ∧ run.steps[step.id]? = some record ∧
    record.status = result.record.status ∧ record.attempts = result.record.attempts ∧
    record.task = result.record.task ∧ record.fallbackUsed = result.record.fallbackUsed ∧
    record.output = result.record.output ∧ record.error = result.record.error ∧
    run.stepEvents step.id = result.events

section Rounds

variable {executor : DurableExecutor} {script : Script} {step : StepSpec} {start run : RunRecord}
  {p : Standing} {s s' : Repository} {ticks : Nat → DurableExecutor.Tick} {k : RunId} {n m : Nat}

/-- An ended step stays as it is. -/
theorem attemptStep_kept (after : executor.attemptStep s k step.id ticks n = some s')
    (ended : DurableExecutor.stepEnded s' k step.id = true) (later : n ≤ m) :
    executor.attemptStep s k step.id ticks m = some s' := by
  induction later with
  | refl => exact after
  | step _ ih => simp only [DurableExecutor.attemptStep, ih, ended, if_true]

/-- A round that failed is not followed by another. -/
theorem attemptStep_none (failed : executor.attemptStep s k step.id ticks n = none)
    (later : n ≤ m) : executor.attemptStep s k step.id ticks m = none := by
  induction later with
  | refl => exact failed
  | step _ ih => simp only [DurableExecutor.attemptStep, ih]

/-- The rounds come to one end. -/
theorem attemptStep_unique {s'' : Repository}
    (after : executor.attemptStep s k step.id ticks n = some s')
    (ended : DurableExecutor.stepEnded s' k step.id = true)
    (after' : executor.attemptStep s k step.id ticks m = some s'')
    (ended' : DurableExecutor.stepEnded s'' k step.id = true) : s' = s'' := by
  have first := attemptStep_kept after ended (Nat.le_max_left n m)
  have second := attemptStep_kept after' ended' (Nat.le_max_right n m)
  exact Option.some.inj (first.symm.trans second)

/-- A step that waits has not ended. -/
theorem Waiting.unended (waiting : Waiting step start p s run) :
    DurableExecutor.stepEnded s start.runId step.id = false := by
  rw [DurableExecutor.stepEnded, waiting.found]
  cases waiting.waits with
  | unstarted absent same => simp [absent]
  | retrying found status unleased task used attempts => simp [found, status]

/-- A step with its ending has ended. -/
theorem Ended.ended {e : Ending} {record : StepRecord} (h : Ended step start e s run record)
    (attempted : p.attempt script start.runId step = .inr e) :
    DurableExecutor.stepEnded s start.runId step.id = true := by
  rw [DurableExecutor.stepEnded, h.found]
  obtain ⟨output, -, rfl⟩ | ⟨error, -, -, -, rfl⟩ := Standing.attempt_inr attempted
  · simp [h.foundStep, h.status, Standing.succeed]
  · simp [h.foundStep, h.status, Standing.fail]

/-- The step of a stored run that has no record waits for its first attempt. -/
theorem waiting_start (ops : List Op)
    (found : (repository.after ops).runs[start.runId]? = some start)
    (unstarted : start.steps[step.id]? = none) :
    Waiting step start (.start step) (repository.after ops) start := by
  refine ⟨Repository.keyed_after ops, sound_after ops, found, ⟨.refl _, rfl, fun _ _ => rfl⟩, ?_,
    .unstarted unstarted rfl⟩
  refine List.filter_eq_nil_iff.mpr fun event member about => ?_
  obtain ⟨envelope, logged, rfl⟩ := List.mem_map.mp member
  obtain ⟨record, stored⟩ :=
    recorded_after ops _ start found envelope logged step.id (by simpa using about)
  rw [unstarted] at stored
  cases stored

/-- The rounds come to every standing of the machine. -/
theorem attemptStep_reached (setting : Setting executor script step start)
    (initial : Waiting step start (.start step) s start)
    (paced : Paced executor step start s ticks) (reached : p.Reached script start.runId step) :
    ∃ n s' run, executor.attemptStep s start.runId step.id ticks n = some s' ∧
      Waiting step start p s' run := by
  induction reached with
  | start => exact ⟨0, s, start, rfl, initial⟩
  | @next p p' before counted attempted ih =>
      obtain ⟨n, s', run, after, waiting⟩ := ih
      obtain ⟨s'', run', round, ⟨q, again, next⟩ | ⟨e, record, final, -⟩⟩ :=
        attemptOnce_of_waiting (ticks n) setting waiting before.stands
          (paced.due n s' run after waiting.unended waiting.found) (paced.live n) counted
      · obtain rfl := Sum.inl.inj (again.symm.trans attempted)
        refine ⟨n + 1, s'', run', ?_, next⟩
        simp only [DurableExecutor.attemptStep, after, waiting.unended, Bool.false_eq_true,
          if_false, round]
      · rw [attempted] at final
        cases final

/-- The rounds come to the ending of the machine. -/
theorem attemptStep_ending {e : Ending} (setting : Setting executor script step start)
    (initial : Waiting step start (.start step) s start)
    (paced : Paced executor step start s ticks) (reached : p.Reached script start.runId step)
    (counted : p.attempts.toNat < UInt32.maxNat)
    (attempted : p.attempt script start.runId step = .inr e) :
    ∃ n s' run record, executor.attemptStep s start.runId step.id ticks n = some s' ∧
      DurableExecutor.stepEnded s' start.runId step.id = true ∧
      Ended step start e s' run record := by
  obtain ⟨n, s', run, after, waiting⟩ := attemptStep_reached setting initial paced reached
  obtain ⟨s'', run', round, ⟨q, again, -⟩ | ⟨e', record, final, ended⟩⟩ :=
    attemptOnce_of_waiting (ticks n) setting waiting reached.stands
      (paced.due n s' run after waiting.unended waiting.found) (paced.live n) counted
  · rw [attempted] at again
    cases again
  · obtain rfl := Sum.inr.inj (final.symm.trans attempted)
    refine ⟨n + 1, s'', run', record, ?_, ended.ended attempted, ended⟩
    simp only [DurableExecutor.attemptStep, after, waiting.unended, Bool.false_eq_true, if_false,
      round]

/-- From a standing with the largest counter the rounds never end the step. -/
theorem attemptStep_full (setting : Setting executor script step start)
    (initial : Waiting step start (.start step) s start)
    (paced : Paced executor step start s ticks) (reached : p.Reached script start.runId step)
    (full : p.attempts.toNat = UInt32.maxNat)
    (after : executor.attemptStep s start.runId step.id ticks n = some s') :
    DurableExecutor.stepEnded s' start.runId step.id = false := by
  obtain ⟨m, s'', run, before, waiting⟩ := attemptStep_reached setting initial paced reached
  have failed : executor.attemptStep s start.runId step.id ticks (m + 1) = none := by
    simp only [DurableExecutor.attemptStep, before, waiting.unended, Bool.false_eq_true, if_false]
    exact attemptOnce_of_full setting waiting reached.stands
      (paced.due m s'' run before waiting.unended waiting.found) full
  rw [Bool.eq_false_iff]
  intro ended
  have kept := attemptStep_kept after ended (Nat.le_max_left n (m + 1))
  rw [attemptStep_none failed (Nat.le_max_right n (m + 1))] at kept
  cases kept

end Rounds

/-- An ending is reached by a last attempt. -/
theorem Standing.Leads.reached {script : Script} {runId : RunId} {step : StepSpec} {p : Standing}
    {e : Ending} (leads : p.Leads script runId step e)
    (together : ∀ p : Standing, p.Reached script runId step → p.attempts.toNat < UInt32.maxNat)
    (reached : p.Reached script runId step) :
    ∃ q : Standing, q.Reached script runId step ∧ q.attempt script runId step = .inr e := by
  induction leads with
  | last attempted => exact ⟨_, reached, attempted⟩
  | next attempted rest ih => exact ih (.next reached (together _ reached) attempted)

section Agreement

variable {memory : InMemoryExecutor} {durable : DurableExecutor} {script : Script}
  {step : StepSpec} {view start : RunRecord} {dependencies : BTreeMap String Value}
  {s : Repository} {ticks : Nat → DurableExecutor.Tick}

/-- On an agreeable step both executors come to the ending of the machine. -/
theorem agree_of_agreeable (agreeable : Agreeable script step)
    (setting : Setting durable script step start)
    (initial : Waiting step start (.start step) s start)
    (scripted : Scripted memory.registry script step) (same : view.runId = start.runId)
    (paced : Paced durable step start s ticks) :
    Agree memory durable view start step dependencies s ticks := by
  have together : ∀ p : Standing, p.Reached script start.runId step → ¬ p.Departs script step :=
    fun p reached => Standing.Agreeable.together agreeable reached
  have counted : ∀ p : Standing, p.Reached script start.runId step →
      p.attempts.toNat < UInt32.maxNat := fun p reached =>
    Nat.lt_of_le_of_ne p.attempts.toNat_le_maxNat fun full => together p reached (.inr full)
  obtain ⟨e, leads⟩ := Standing.leads_of_together counted .start
  obtain ⟨q, reached, attempted⟩ := leads.reached counted .start
  obtain ⟨n, s', run, record, after, ended, ending⟩ :=
    attemptStep_ending setting initial paced reached (counted q reached) attempted
  rw [← same] at together leads
  obtain ⟨fuel, result⟩ := InMemoryExecutor.stepLoop_leads dependencies false scripted together
    leads .start fun _ => rfl
  exact ⟨fuel, _, n, s', run, record, result, after, ended, ending.found, ending.foundStep,
    ending.status, ending.attempts, ending.task, ending.used, ending.output, ending.error,
    ending.logged⟩

/-- Where the executors part, they do not agree. -/
theorem not_agree_of_departs {p : Standing} (reached : p.Reached script start.runId step)
    (departs : p.Departs script step) (setting : Setting durable script step start)
    (initial : Waiting step start (.start step) s start)
    (scripted : Scripted memory.registry script step) (same : view.runId = start.runId)
    (paced : Paced durable step start s ticks) :
    ¬ Agree memory durable view start step dependencies s ticks := by
  rintro ⟨fuel, result, n, s', run, record, memoryEnded, after, ended, found, foundStep, -,
    attempts,
    -⟩
  obtain ⟨unused, alone, below, error, answered, permanent⟩ | full := departs
  · have bound := step.policy.retry.budget.toNat_le_maxNat
    have counted : p.attempts.toNat < UInt32.maxNat := by omega
    have attempted : p.attempt script start.runId step = .inr (p.fail start.runId step error) := by
      simp [Standing.attempt, answered, permanent, Standing.unusedFallback, unused, alone]
    obtain ⟨m, s'', run', record', before, ended', ending⟩ :=
      attemptStep_ending setting initial paced reached counted attempted
    obtain rfl := attemptStep_unique after ended before ended'
    obtain rfl := Option.some.inj (found.symm.trans ending.found)
    obtain rfl := Option.some.inj (foundStep.symm.trans ending.foundStep)
    rw [← same] at reached
    have more := InMemoryExecutor.stepLoop_departs scripted reached unused alone below answered
      permanent memoryEnded
    rw [← attempts, ending.attempts] at more
    have number := UInt32.toNat_add_one counted
    simp only [Standing.fail] at more
    omega
  · have open_ := attemptStep_full setting initial paced reached full after
    rw [ended] at open_
    cases open_

end Agreement

/-- The two executors agree on a step exactly when it is agreeable. -/
theorem executors_agree_iff {memory : InMemoryExecutor} {durable : DurableExecutor}
    {script : Script} {step : StepSpec} {view start : RunRecord}
    {dependencies : BTreeMap String Value} {ticks : Nat → DurableExecutor.Tick} (ops : List Op)
    (found : (repository.after ops).runs[start.runId]? = some start)
    (unstarted : start.steps[step.id]? = none) (setting : Setting durable script step start)
    (scripted : Scripted memory.registry script step) (same : view.runId = start.runId)
    (paced : Paced durable step start (repository.after ops) ticks) :
    Agree memory durable view start step dependencies (repository.after ops) ticks ↔
      Agreeable script step := by
  have initial := waiting_start ops found unstarted
  constructor
  · intro agree
    by_contra unagreeable
    obtain ⟨p, reached, departs⟩ := Standing.departs_of_not_agreeable start.runId unagreeable
    exact not_agree_of_departs reached departs setting initial scripted same paced agree
  · exact fun agreeable => agree_of_agreeable agreeable setting initial scripted same paced

/-! A step with a budget of two attempts, run by both executors at one instant. -/

namespace Sample

/-- The tasks answer by the script. -/
def registry (script : Script) : TaskRegistry := fun id =>
  some ⟨task id.value, fun _ context => script id context.attempt, fun _ _ => 0⟩

def provenance : RunProvenance := ⟨none, none, none, none, none, none, ∅⟩

def memory (script : Script) : InMemoryExecutor :=
  { registry := registry script, options := ⟨1, worker, provenance, Nat.one_pos⟩, overflow := .panics
    emitEvent := fun _ _ => .ok (), saveRun := fun _ => .ok () }

def durable (script : Script) : DurableExecutor := ⟨registry script, ⟨worker, provenance, 10⟩⟩

/-- The first attempt fails with the error and the second succeeds. -/
def failFirst (error : TaskError) : Script := fun _ attempt =>
  if attempt = 1 then .error error else .ok .null

def only : StepSpec := step "only" 2 false

def launched : List Op := [.createRun (request [only] []) (.at 0)]

def ticks : Nat → DurableExecutor.Tick := fun _ =>
  { claim := .at 0, recover := .at 0, pace := ⟨.at 0, []⟩, complete := .at 0, finish := .at 0 }

/-- The run has the one step, and the step waits for no later time. -/
def isDue (run : RunRecord) : Bool :=
  run.workflow.steps == [only] && (run.steps[only.id]?).all fun record =>
    record.nextAttemptAtMs.all fun next => decide (next ≤ 0)

theorem due_of_isDue {run : RunRecord} (h : isDue run = true) : Due run worker only (.at 0) := by
  simp only [isDue, Bool.and_eq_true, beq_iff_eq] at h
  obtain ⟨steps, past⟩ := h
  refine ⟨fun record next found scheduled => ?_, fun before after split other member => ?_⟩
  · rw [found, Option.all_some, scheduled, Option.all_some] at past
    exact of_decide_eq_true past
  · rw [steps] at split
    cases before with
    | nil => cases member
    | cons first rest => simp at split

/-- Rounds that are due until they end the step are paced. -/
theorem paced {script : Script} {start : RunRecord} (own : start.runId = runId) {n : Nat}
    (due : ∀ m < n, ((durable script).attemptStep (repository.after launched) runId only.id ticks
      m).all (fun s => (s.runs[runId]?).all isDue) = true)
    (ended : ((durable script).attemptStep (repository.after launched) runId only.id ticks n).any
      (fun s => DurableExecutor.stepEnded s runId only.id) = true) :
    Paced (durable script) only start (repository.after launched) ticks := by
  refine ⟨fun _ => (by decide : (0 : UInt64) < 10), fun m s run after unended found => ?_⟩
  rw [own] at after unended found
  obtain early | late := Nat.lt_or_ge m n
  · have checked := due m early
    rw [after, Option.all_some, found, Option.all_some] at checked
    exact due_of_isDue checked
  · obtain ⟨last, reached, finished⟩ := (Option.any_eq_true _ _).mp ended
    rw [attemptStep_kept reached finished late] at after
    obtain rfl := Option.some.inj after
    rw [finished] at unended
    cases unended

/-- The launched run, from which the cycle starts. -/
theorem launched_start (script : Script) : ∃ start : RunRecord,
    (repository.after launched).runs[runId]? = some start ∧ start.runId = runId ∧
      start.steps[only.id]? = none ∧ Setting (durable script) script only start := by
  obtain ⟨sequence, creation⟩ := Repository.createRun_of_fresh .empty (request [only] []) (.at 0)
    (by decide +kernel) rfl (by simp [Repository.empty])
  refine ⟨_, (creation.runs _).trans (if_pos rfl), rfl,
    by simp [RunRecord.created, RunRecord.new], ?_⟩
  exact
    { scripted := fun id _ => ⟨_, rfl, fun _ _ => rfl⟩
      running := rfl
      listed := List.mem_singleton_self _
      ready := rfl
      supported := fun _ _ _ _ => rfl }

end Sample

theorem executors_agree_iff_transient : ∃ start : RunRecord,
    (repository.after Sample.launched).runs[Sample.runId]? = some start ∧
    (Agree (Sample.memory (Sample.failFirst (.transient "busy")))
      (Sample.durable (Sample.failFirst (.transient "busy"))) start start Sample.only ∅
      (repository.after Sample.launched) Sample.ticks ↔
        Agreeable (Sample.failFirst (.transient "busy")) Sample.only) := by
  obtain ⟨start, found, own, unstarted, setting⟩ :=
    Sample.launched_start (Sample.failFirst (.transient "busy"))
  refine ⟨start, found, executors_agree_iff Sample.launched (own ▸ found) unstarted setting
    (fun id _ => ⟨_, rfl, fun _ _ => rfl⟩) rfl (Sample.paced own (n := 2) ?_ ?_)⟩
  · decide +kernel
  · decide +kernel

/-- The loop retries a permanent error, which the durable cycle fails at once. -/
theorem permanent_error_retried : ∃ start : RunRecord,
    (repository.after Sample.launched).runs[Sample.runId]? = some start ∧
    start.steps[Sample.only.id]? = none ∧
    Setting (Sample.durable (Sample.failFirst (.permanent "broken")))
      (Sample.failFirst (.permanent "broken")) Sample.only start ∧
    Paced (Sample.durable (Sample.failFirst (.permanent "broken"))) Sample.only start
      (repository.after Sample.launched) Sample.ticks ∧
    ¬ Agree (Sample.memory (Sample.failFirst (.permanent "broken")))
      (Sample.durable (Sample.failFirst (.permanent "broken"))) start start Sample.only ∅
      (repository.after Sample.launched) Sample.ticks := by
  obtain ⟨start, found, own, unstarted, setting⟩ :=
    Sample.launched_start (Sample.failFirst (.permanent "broken"))
  have paced : Paced (Sample.durable (Sample.failFirst (.permanent "broken"))) Sample.only start
      (repository.after Sample.launched) Sample.ticks :=
    Sample.paced own (n := 1) (by decide +kernel) (by decide +kernel)
  have departs : Standing.Departs (Sample.failFirst (.permanent "broken")) Sample.only
      (.start Sample.only) :=
    .inl ⟨rfl, rfl, by decide, .permanent "broken", rfl, rfl⟩
  exact ⟨start, found, unstarted, setting, paced, not_agree_of_departs .start departs setting
    (waiting_start Sample.launched (own ▸ found) unstarted)
    (fun id _ => ⟨_, rfl, fun _ _ => rfl⟩) rfl paced⟩

end Orchestrator
