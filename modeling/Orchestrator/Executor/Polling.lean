import Orchestrator.Model.Durable
import Orchestrator.Repository.Settled

/-!
# Polling workers that may crash

A call of `work_once` is a sequence of repository calls. Other workers may come between two
of them, and a worker may crash there: then its call is gone, and so is the claim that it
held. `fleet` is the machine of a repository, the runs that are submitted to it, and the
calls of `work_once` that are in progress.
-/

namespace Orchestrator

open Json (Value)

/-- Where a call of `work_once` stands. It asks the runs that were active at its start for
a claim, one after the other, records the start of the claimed attempt, executes its task
and completes it, and then finishes the run. -/
inductive WorkPhase where
  | asking (candidates : List RunId)
  | claimed (claim : StepClaim)
  | executing (claim : StepClaim) (beating : Bool)
  | finishing (claim : StepClaim) (runId : RunId)

/-- The claim that is held in a phase. -/
def WorkPhase.claim? : WorkPhase → Option StepClaim
  | .claimed claim => some claim
  | .executing claim _ => some claim
  | _ => none

/-- A call of `work_once` in progress. -/
structure WorkCall where
  executor : DurableExecutor
  metrics : List Metric
  phase : WorkPhase

namespace WorkCall

variable (call : WorkCall)

/-- The next repository call. While a task is executed this is the completion, with what
the task answers. -/
def op (result : Except TaskError Value) (clock : Clock) : Op :=
  match call.phase with
  | .asking [] => .recoverExpired clock
  | .asking (runId :: _) =>
      .claimNextStep runId call.executor.options.worker call.executor.options.leaseMs clock
  | .claimed claim =>
      .recordEvent claim.runId
        (.stepStarted claim.runId claim.step.id claim.task.id claim.attempt) clock
  | .executing claim _ => .completeStep claim (claim.completion result) clock
  | .finishing _ runId => .finishRun runId call.metrics clock

/-- What the call does with the response: it goes on, or it returns. -/
def receive (response : Response) : WorkCall ⊕ Except OrchestratorError WorkOutcome :=
  match call.phase, response with
  | .asking _, .recovered (.ok []) => .inr (.ok .idle)
  | .asking _, .recovered (.ok steps) => .inr (.ok (.recovered steps.length))
  | .asking _, .recovered (.error error) => .inr (.error (.repository error))
  | .asking candidates, .claimed (.ok none) =>
      .inl { call with phase := .asking candidates.tail }
  | .asking _, .claimed (.ok (some claim)) => .inl { call with phase := .claimed claim }
  | .asking _, .claimed (.error error) => .inr (.error (.repository error))
  | .claimed claim, .recorded (.ok _) =>
      match call.executor.registry claim.task.id with
      | none => .inr (.error (.workflow (.unregisteredTask claim.task.id)))
      | some _ => .inl { call with phase := .executing claim true }
  | .claimed _, .recorded (.error error) => .inr (.error (.repository error))
  | .executing claim _, .completed (.ok run) =>
      .inl { call with phase := .finishing claim run.runId }
  | .executing _ _, .completed (.error error) => .inr (.error (.repository error))
  | .finishing claim _, .finished (.ok run) => .inr (.ok (.progressed claim.runId run.status))
  | .finishing _ _, .finished (.error error) => .inr (.error (.repository error))
  | _, _ => .inl call

variable {call}

/-- A call holds the claim that it held, or the one that was handed out to it. -/
theorem receive_claim {next : WorkCall} {response : Response}
    (received : call.receive response = .inl next) {claim : StepClaim}
    (held : next.phase.claim? = some claim) :
    call.phase.claim? = some claim ∨ response.claim? = some claim := by
  obtain ⟨executor, metrics, phase⟩ := call
  cases phase with
  | asking candidates =>
      cases response with
      | claimed result =>
          cases result with
          | error => exact (Sum.inr_ne_inl received).elim
          | ok handed =>
              cases handed with
              | none =>
                  obtain rfl := Sum.inl.inj received
                  cases held
              | some claim =>
                  obtain rfl := Sum.inl.inj received
                  exact .inr held
      | recovered result =>
          cases result with
          | error => exact (Sum.inr_ne_inl received).elim
          | ok steps => cases steps <;> exact (Sum.inr_ne_inl received).elim
      | _ =>
          obtain rfl := Sum.inl.inj received
          cases held
  | claimed own =>
      cases response with
      | recorded result =>
          cases result with
          | error => exact (Sum.inr_ne_inl received).elim
          | ok =>
              unfold receive at received
              simp only at received
              split at received
              · exact (Sum.inr_ne_inl received).elim
              · obtain rfl := Sum.inl.inj received
                exact .inl held
      | _ =>
          obtain rfl := Sum.inl.inj received
          exact .inl held
  | executing own beating =>
      cases response with
      | completed result =>
          cases result with
          | error => exact (Sum.inr_ne_inl received).elim
          | ok =>
              obtain rfl := Sum.inl.inj received
              cases held
      | _ =>
          obtain rfl := Sum.inl.inj received
          exact .inl held
  | finishing own runId =>
      cases response with
      | finished result => cases result <;> exact (Sum.inr_ne_inl received).elim
      | _ =>
          obtain rfl := Sum.inl.inj received
          cases held

end WorkCall

/-- The request of a submission that passes the checks of the executor. -/
def DurableExecutor.submission (executor : DurableExecutor) (runId : RunId)
    (workflow : WorkflowSpec) (input : Value) (idempotencyKey : Option IdempotencyKey) :
    Option RunRequest :=
  match workflow.validate, executor.validateWorkflow workflow,
    buildManifest executor.registry executor.options.provenance workflow with
  | some (.ok ()), .ok (), .ok manifest =>
      some { runId, workflow, manifest, input, idempotencyKey }
  | _, _, _ => none

/-- A repository and the calls of `work_once` in progress. -/
structure Fleet where
  repository : Repository
  calls : List WorkCall

/-- What may happen: a run is submitted, a worker begins a call, a call in progress makes its
next repository call, the heartbeat of a task renews its lease, or a worker crashes. -/
inductive FleetOp where
  | submit (executor : DurableExecutor) (runId : RunId) (workflow : WorkflowSpec)
      (input : Value) (idempotencyKey : Option IdempotencyKey) (clock : Clock)
  | poll (executor : DurableExecutor) (metrics : List Metric)
  | proceed (i : Nat) (result : Except TaskError Value) (clock : Clock)
  | beat (i : Nat) (clock : Clock)
  | crash (i : Nat)

namespace Fleet

variable (m : Fleet)

/-- The repository makes a call. -/
def serve (op : Op) (calls : List WorkCall) : List Op × Fleet :=
  ([op], ⟨Orchestrator.repository.next m.repository op, calls⟩)

/-- The lease renewal of a heartbeat. -/
def renewal (executor : DurableExecutor) (claim : StepClaim) (clock : Clock) : Op :=
  .renewStep claim (executor.heartbeatInterval.saturatingMul 3) clock

/-- The heartbeat goes on after a renewal and stops where one fails. -/
def goesOn : Response → Bool
  | .renewed (.ok ()) => true
  | _ => false

/-- The calls in progress after one of them has received a response. -/
def received (i : Nat) (call : WorkCall) (response : Response) : List WorkCall :=
  match call.receive response with
  | .inl next => m.calls.set i next
  | .inr _ => m.calls.eraseIdx i

/-- One event, with the repository calls that it makes. -/
def step : FleetOp → List Op × Fleet
  | .submit executor runId workflow input idempotencyKey clock =>
      match executor.submission runId workflow input idempotencyKey with
      | none => ([], m)
      | some request => m.serve (.createRun request clock) m.calls
  | .poll executor metrics =>
      ([], { m with calls := m.calls ++ [⟨executor, metrics, .asking m.repository.candidates⟩] })
  | .proceed i result clock =>
      match m.calls[i]? with
      | none => ([], m)
      | some call =>
          let op := call.op result clock
          m.serve op (m.received i call (Orchestrator.repository.answer m.repository op))
  | .beat i clock =>
      match m.calls[i]? with
      | some ⟨executor, metrics, .executing claim true⟩ =>
          let op := renewal executor claim clock
          m.serve op (m.calls.set i ⟨executor, metrics,
            .executing claim (goesOn (Orchestrator.repository.answer m.repository op))⟩)
      | _ => ([], m)
  | .crash i => ([], { m with calls := m.calls.eraseIdx i })

end Fleet

/-- The fleet, starting with an empty repository and no calls. -/
def fleet : Machine Fleet FleetOp (List Op) := ⟨⟨.empty, []⟩, Fleet.step⟩

/-- The repository calls made along a history, in order. -/
def performed (acts : List FleetOp) : List Op := (fleet.transcript acts).flatten

theorem performed_concat (acts : List FleetOp) (act : FleetOp) :
    performed (acts ++ [act]) = performed acts ++ fleet.answer (fleet.after acts) act := by
  rw [performed, Machine.transcript_concat, List.flatten_append, List.flatten_singleton]
  rfl

namespace Fleet

variable {m : Fleet}

/-- A call in progress holds the claim. -/
def HoldsClaim (m : Fleet) (claim : StepClaim) : Prop :=
  ∃ call ∈ m.calls, call.phase.claim? = some claim

/-- What an event does: it makes no repository call and nobody gets a claim, or it makes one
call that cancels no run and completes held claims only, and a claim is got by its answer. -/
inductive Steps (m : Fleet) : List Op → Fleet → Prop where
  | silent (calls : List WorkCall)
      (claims : ∀ claim, HoldsClaim ⟨m.repository, calls⟩ claim → m.HoldsClaim claim) :
      Steps m [] ⟨m.repository, calls⟩
  | served (op : Op) (calls : List WorkCall) (uncancelled : ∀ k clock, op ≠ .cancelRun k clock)
      (presents : ∀ claim completion clock, op = .completeStep claim completion clock →
        m.HoldsClaim claim)
      (claims : ∀ claim, HoldsClaim ⟨m.repository, calls⟩ claim → m.HoldsClaim claim ∨
        (Orchestrator.repository.answer m.repository op).claim? = some claim) :
      Steps m [op] ⟨Orchestrator.repository.next m.repository op, calls⟩

theorem step_proceed {i : Nat} {call : WorkCall} (found : m.calls[i]? = some call)
    (result : Except TaskError Value) (clock : Clock) :
    m.Steps [call.op result clock]
      ⟨Orchestrator.repository.next m.repository (call.op result clock), m.received i call
        (Orchestrator.repository.answer m.repository (call.op result clock))⟩ := by
  have member : call ∈ m.calls := List.mem_of_getElem? found
  refine .served _ _ ?_ ?_ ?_
  · intro k clock'
    unfold WorkCall.op
    split <;> exact nofun
  · intro claim completion clock' same
    refine ⟨call, member, ?_⟩
    obtain ⟨executor, metrics, phase⟩ := call
    cases phase with
    | executing own beating =>
        obtain ⟨rfl, -⟩ := Op.completeStep.inj same
        rfl
    | asking candidates => cases candidates <;> cases same
    | _ => cases same
  · rintro claim ⟨other, listed, held⟩
    unfold received at listed
    split at listed
    next next received =>
      obtain old | rfl := List.mem_or_eq_of_mem_set listed
      · exact .inl ⟨other, old, held⟩
      · obtain own | handed := WorkCall.receive_claim received held
        · exact .inl ⟨call, member, own⟩
        · exact .inr handed
    · exact .inl ⟨other, List.mem_of_mem_eraseIdx listed, held⟩

theorem steps_next (act : FleetOp) : m.Steps (fleet.answer m act) (fleet.next m act) := by
  change m.Steps (m.step act).1 (m.step act).2
  cases act with
  | submit executor runId workflow input idempotencyKey clock =>
      simp only [step]
      split
      · exact .silent m.calls fun _ => id
      · exact .served _ m.calls (fun _ _ => nofun) (fun _ _ _ => nofun) fun _ => .inl
  | poll executor metrics =>
      refine .silent _ ?_
      rintro claim ⟨call, member, held⟩
      obtain old | new := List.mem_append.mp member
      · exact ⟨call, old, held⟩
      · rw [List.mem_singleton.mp new] at held
        cases held
  | proceed i result clock =>
      simp only [step]
      split
      · exact .silent m.calls fun _ => id
      next call found => exact step_proceed found result clock
  | beat i clock =>
      simp only [step]
      split
      next executor metrics claim found =>
        refine .served (renewal executor claim clock) _ (fun _ _ => nofun) (fun _ _ _ => nofun) ?_
        rintro other ⟨call, listed, held⟩
        obtain old | rfl := List.mem_or_eq_of_mem_set listed
        · exact .inl ⟨call, old, held⟩
        · exact .inl ⟨_, List.mem_of_getElem? found, held⟩
      · exact .silent m.calls fun _ => id
  | crash i =>
      refine .silent _ ?_
      rintro claim ⟨call, member, held⟩
      exact ⟨call, List.mem_of_mem_eraseIdx member, held⟩

/-- The repository is what the calls made so far have left. -/
theorem repository_after (acts : List FleetOp) :
    (fleet.after acts).repository = Orchestrator.repository.after (performed acts) := by
  induction acts using Machine.history_induction with
  | nil => rfl
  | concat acts act ih =>
      rw [Machine.after_concat, performed_concat]
      have steps := steps_next (m := fleet.after acts) act
      generalize fleet.answer (fleet.after acts) act = ops at steps
      generalize fleet.next (fleet.after acts) act = m' at steps
      cases steps with
      | silent => rw [List.append_nil, ih]
      | served => rw [Machine.after_concat, ih]

/-- Workers cancel no run. -/
theorem uncancelled (acts : List FleetOp) (k : RunId) (clock : Clock) :
    Op.cancelRun k clock ∉ performed acts := by
  induction acts using Machine.history_induction with
  | nil => exact List.not_mem_nil
  | concat acts act ih =>
      rw [performed_concat, List.mem_append, not_or]
      refine ⟨ih, ?_⟩
      have steps := steps_next (m := fleet.after acts) act
      generalize fleet.answer (fleet.after acts) act = ops at steps
      generalize fleet.next (fleet.after acts) act = m' at steps
      cases steps with
      | silent => exact List.not_mem_nil
      | served op calls uncancelled =>
          exact fun member => uncancelled k clock (List.mem_singleton.mp member).symm

/-- In a history completions present claims that were handed out. -/
theorem genuine_after (acts : List FleetOp) :
    Genuine (performed acts) ∧
      ∀ claim, (fleet.after acts).HoldsClaim claim → claim ∈ issued (performed acts) := by
  induction acts using Machine.history_induction with
  | nil =>
      refine ⟨.of_plain fun op member => absurd member List.not_mem_nil, ?_⟩
      rintro claim ⟨call, member, -⟩
      cases member
  | concat acts act ih =>
      obtain ⟨genuine, holds⟩ := ih
      rw [performed_concat, Machine.after_concat]
      have state := repository_after acts
      have steps := steps_next (m := fleet.after acts) act
      generalize fleet.answer (fleet.after acts) act = ops at steps
      generalize fleet.next (fleet.after acts) act = m' at steps
      cases steps with
      | silent calls claims =>
          rw [List.append_nil]
          exact ⟨genuine, fun claim held => holds claim (claims claim held)⟩
      | served op calls _ presents claims =>
          refine ⟨genuine.concat fun claim completion clock same =>
            holds claim (presents claim completion clock same), fun claim held => ?_⟩
          rw [issued_concat, ← state, List.mem_append, Option.mem_toList]
          exact (claims claim held).imp_left (holds claim)

/-- A submission does to the repository what the executor's does. -/
theorem repository_submit (m : Fleet) (executor : DurableExecutor) (runId : RunId)
    (workflow : WorkflowSpec) (input : Value) (idempotencyKey : Option IdempotencyKey)
    (clock : Clock) :
    (fleet.next m (.submit executor runId workflow input idempotencyKey clock)).repository =
      (executor.submitWithIdempotency m.repository runId workflow input idempotencyKey clock).2 := by
  change (step m (.submit executor runId workflow input idempotencyKey clock)).2.repository = _
  simp only [step, DurableExecutor.submission, DurableExecutor.submitWithIdempotency]
  cases workflow.validate with
  | none => rfl
  | some valid =>
      cases valid with
      | error error => rfl
      | ok =>
          cases executor.validateWorkflow workflow with
          | error error => rfl
          | ok =>
              cases buildManifest executor.registry executor.options.provenance workflow with
              | error error => rfl
              | ok manifest =>
                  simp only [serve, next_createRun]
                  generalize m.repository.createRun _ clock = answer
                  obtain ⟨created, s⟩ := answer
                  cases created with
                  | none => rfl
                  | some result => cases result <;> rfl

/-- Without a crash the first fleet comes to be the second one. -/
def Reaches (m m' : Fleet) : Prop :=
  ∃ acts, (∀ i, FleetOp.crash i ∉ acts) ∧ fleet.run m acts = m'

theorem Reaches.refl (m : Fleet) : m.Reaches m := ⟨[], fun _ => List.not_mem_nil, rfl⟩

theorem Reaches.trans {m m' m'' : Fleet} (h : m.Reaches m') (h' : m'.Reaches m'') :
    m.Reaches m'' := by
  obtain ⟨acts, unharmed, rfl⟩ := h
  obtain ⟨acts', unharmed', rfl⟩ := h'
  refine ⟨acts ++ acts', fun i member => ?_, fleet.run_append m acts acts'⟩
  obtain first | second := List.mem_append.mp member
  · exact unharmed i first
  · exact unharmed' i second

theorem Reaches.step {m m' : Fleet} (act : FleetOp) (unharmed : ∀ i, act ≠ .crash i)
    (next : fleet.next m act = m') : m.Reaches m' :=
  ⟨[act], fun i member => unharmed i (List.mem_singleton.mp member).symm, next⟩

section Alone

variable (s : Repository) (executor : DurableExecutor) (metrics : List Metric)

/-- The only call in progress makes its next repository call. -/
theorem reaches_proceed (phase : WorkPhase) (result : Except TaskError Value) (clock : Clock)
    {response : Response} {s' : Repository}
    (answered : s.step (WorkCall.op ⟨executor, metrics, phase⟩ result clock) = (response, s')) :
    Reaches ⟨s, [⟨executor, metrics, phase⟩]⟩
      ⟨s', received ⟨s, [⟨executor, metrics, phase⟩]⟩ 0 ⟨executor, metrics, phase⟩ response⟩ := by
  refine .step (.proceed 0 result clock) (fun _ => nofun) ?_
  have moved : Orchestrator.repository.next s
      (WorkCall.op ⟨executor, metrics, phase⟩ result clock) = s' := congrArg Prod.snd answered
  have got : Orchestrator.repository.answer s
      (WorkCall.op ⟨executor, metrics, phase⟩ result clock) = response := congrArg Prod.fst answered
  rw [← moved, ← got]
  rfl

/-- The call after its search for a claim. -/
def asked : Except RepositoryError (Option StepClaim) → List WorkCall
  | .error _ => []
  | .ok none => [⟨executor, metrics, .asking []⟩]
  | .ok (some claim) => [⟨executor, metrics, .claimed claim⟩]

theorem reaches_asked (clock : Clock) (candidates : List RunId) :
    Reaches ⟨s, [⟨executor, metrics, .asking candidates⟩]⟩
      ⟨(s.claimFrom executor.options.worker executor.options.leaseMs clock candidates).2,
        asked executor metrics
          (s.claimFrom executor.options.worker executor.options.leaseMs clock candidates).1⟩ := by
  induction candidates generalizing s with
  | nil => exact .refl _
  | cons k rest ih =>
      rw [Repository.claimFrom]
      generalize answered : s.claimNextStep k executor.options.worker executor.options.leaseMs
        clock = answer
      obtain ⟨result, s'⟩ := answer
      have first := reaches_proceed s executor metrics (.asking (k :: rest)) (.ok .null) clock
        (congrArg (Prod.map Response.claimed id) answered)
      cases result with
      | error error => exact first
      | ok handed =>
          cases handed with
          | none => exact first.trans (ih s')
          | some claim => exact first

theorem reaches_beats (claim : StepClaim) (beats : List Clock) :
    ∃ beating, Reaches ⟨s, [⟨executor, metrics, .executing claim true⟩]⟩
      ⟨s.heartbeat claim (executor.heartbeatInterval.saturatingMul 3) beats,
        [⟨executor, metrics, .executing claim beating⟩]⟩ := by
  induction beats generalizing s with
  | nil => exact ⟨true, .refl _⟩
  | cons beat rest ih =>
      have first : Reaches ⟨s, [⟨executor, metrics, .executing claim true⟩]⟩
          ⟨(s.step (renewal executor claim beat)).2, [⟨executor, metrics,
            .executing claim (goesOn (s.step (renewal executor claim beat)).1)⟩]⟩ :=
        .step (.beat 0 beat) (fun _ => nofun) rfl
      rw [Repository.heartbeat]
      generalize answered : s.renewStep claim (executor.heartbeatInterval.saturatingMul 3) beat =
        answer
      obtain ⟨result, s'⟩ := answer
      have renewed : s.step (renewal executor claim beat) = (.renewed result, s') :=
        congrArg (Prod.map Response.renewed id) answered
      rw [renewed] at first
      cases result with
      | error error => exact ⟨false, first⟩
      | ok =>
          obtain ⟨beating, later⟩ := ih s'
          exact ⟨beating, first.trans later⟩

theorem reaches_executed (claim : StepClaim) (pace : Pace)
    {outcome : Except OrchestratorError StepCompletion} {s' : Repository}
    (executed : executor.executeClaim s claim pace = (outcome, s')) :
    (∃ error, outcome = .error error ∧
      Reaches ⟨s, [⟨executor, metrics, .claimed claim⟩]⟩ ⟨s', []⟩) ∨
    ∃ result beating, outcome = .ok (claim.completion result) ∧
      Reaches ⟨s, [⟨executor, metrics, .claimed claim⟩]⟩
        ⟨s', [⟨executor, metrics, .executing claim beating⟩]⟩ := by
  rw [DurableExecutor.executeClaim] at executed
  generalize answered : s.recordEvent claim.runId
    (.stepStarted claim.runId claim.step.id claim.task.id claim.attempt) pace.start = answer
    at executed
  obtain ⟨result, s₁⟩ := answer
  have first := reaches_proceed s executor metrics (.claimed claim) (.ok .null) pace.start
    (congrArg (Prod.map Response.recorded id) answered)
  cases result with
  | error error =>
      obtain ⟨rfl, rfl⟩ := Prod.mk.inj executed
      exact .inl ⟨_, rfl, first⟩
  | ok envelope =>
      simp only at executed
      cases registered : executor.registry claim.task.id with
      | none =>
          rw [registered] at executed
          obtain ⟨rfl, rfl⟩ := Prod.mk.inj executed
          simp only [received, WorkCall.receive, registered] at first
          exact .inl ⟨_, rfl, first⟩
      | some task =>
          rw [registered] at executed
          obtain ⟨rfl, rfl⟩ := Prod.mk.inj executed
          simp only [received, WorkCall.receive, registered] at first
          obtain ⟨beating, beats⟩ := reaches_beats s₁ executor metrics claim pace.beats
          exact .inr ⟨_, beating, rfl, first.trans beats⟩

/-- A call of `work_once` that is alone does what the executor's `work_once` does. -/
theorem reaches_workOnce (tick : DurableExecutor.Tick) :
    Reaches ⟨s, []⟩ ⟨(executor.workOnce s metrics tick).2, []⟩ := by
  have begun : Reaches ⟨s, []⟩ ⟨s, [⟨executor, metrics, .asking s.candidates⟩]⟩ :=
    .step (.poll executor metrics) (fun _ => nofun) rfl
  have search := begun.trans (reaches_asked s executor metrics tick.claim s.candidates)
  rw [DurableExecutor.workOnce, Repository.claimNextRunnableStep]
  generalize s.claimFrom executor.options.worker executor.options.leaseMs tick.claim s.candidates =
    answer at search
  obtain ⟨result, s₁⟩ := answer
  cases result with
  | error error => exact search
  | ok handed =>
      cases handed with
      | none =>
          simp only
          generalize answered : s₁.recoverExpired tick.recover = answer
          obtain ⟨result, s₂⟩ := answer
          have swept := search.trans (reaches_proceed s₁ executor metrics (.asking []) (.ok .null)
            tick.recover (congrArg (Prod.map Response.recovered id) answered))
          cases result with
          | error error => exact swept
          | ok steps => cases steps <;> exact swept
      | some claim =>
          simp only
          generalize executed : executor.executeClaim s₁ claim tick.pace = answer
          obtain ⟨outcome, s₂⟩ := answer
          obtain ⟨error, rfl, ended⟩ | ⟨result, beating, rfl, going⟩ :=
            reaches_executed s₁ executor metrics claim tick.pace executed
          · exact search.trans ended
          · simp only
            generalize answered : s₂.completeStep claim (claim.completion result) tick.complete =
              answer
            obtain ⟨committed, s₃⟩ := answer
            have completed := (search.trans going).trans (reaches_proceed s₂ executor metrics
              (.executing claim beating) result tick.complete
              (congrArg (Prod.map Response.completed id) answered))
            cases committed with
            | error error => exact completed
            | ok run =>
                simp only
                generalize answered : s₃.finishRun run.runId metrics tick.finish = answer
                obtain ⟨last, s₄⟩ := answer
                have finished := completed.trans (reaches_proceed s₃ executor metrics
                  (.finishing claim run.runId) (.ok .null) tick.finish
                  (congrArg (Prod.map Response.finished id) answered))
                cases last <;> exact finished

end Alone

end Fleet

end Orchestrator
