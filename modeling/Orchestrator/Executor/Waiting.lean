import Orchestrator.Executor.Failing
import Orchestrator.Repository.Progress
import Orchestrator.Repository.Settled

/-!
# What a drive waits for

A drive goes idle where its claim request found nothing and the run had not ended. Then some
step of the run was leased, or waited for a retry that was not due, or ran a task that the
worker does not support: were the run settled, it would still be when the drive asks to finish
it. With the attempt budget, which bounds the claims that are handed out at all, this is why a
drive comes to an end.
-/

namespace Orchestrator

open Json (Value)

/-- A reason for which a worker is handed no step of the run at the times it reads. -/
inductive RunRecord.Waits (run : RunRecord) (worker : WorkerProfile) (now : StepId → UInt64) :
    Prop where
  | leased {step : StepSpec} {record : StepRecord} {lease : StepLease}
      (listed : step ∈ run.workflow.steps) (found : run.steps[step.id]? = some record)
      (held : record.lease = some lease)
  | retrying {step : StepSpec} {record : StepRecord} {next : UInt64}
      (listed : step ∈ run.workflow.steps) (found : run.steps[step.id]? = some record)
      (status : record.status = .retrying) (scheduled : record.nextAttemptAtMs = some next)
      (early : now step.id < next)
  | unsupported (lacks : ¬ SupportsAll worker run)

section Run

variable {token : UInt64} {action : RunAction} {run run' : RunRecord}

/-- A settled run stays settled. -/
theorem RunStep.settled_kept (h : RunStep token action run run') (sound : run.Sound)
    (settled : run.settled = true) : run'.settled = true := by
  rw [RunRecord.settled, Bool.or_eq_true] at settled ⊢
  obtain failed | succeeded := settled
  · left
    obtain ⟨id, record, found, status⟩ := RunRecord.hasFailed_iff.mp failed
    exact RunRecord.hasFailed_iff.mpr
      ⟨id, record, h.final_kept sound found (by rw [status]; rfl), status⟩
  · right
    refine (RunRecord.allSucceeded_iff_done (sound.step h)).mpr fun step member => ?_
    obtain ⟨record, found, status⟩ := (RunRecord.allSucceeded_iff_done sound).mp succeeded step
      (h.sameRequest.workflow ▸ member)
    exact ⟨record, h.final_kept sound found (by rw [status]; rfl), status⟩

end Run

section History

variable {ops : List Op} {k : RunId} {run : RunRecord}

/-- A run that a finish request finds unfinished was active and not settled before. -/
theorem unfinished_before {before : List Op} (within : before <+: ops)
    (found : (repository.after before).runs[k]? = some run) {metrics : List Metric} {clock : Clock}
    {answered : RunRecord} (answer : repository.answer (repository.after ops)
      (.finishRun k metrics clock) = .finished (.ok answered))
    (active : answered.status = .running ∨ answered.status = .pending) :
    run.status = .running ∧ run.settled = false := by
  obtain ⟨later, rfl⟩ := within
  obtain ⟨last, foundLast, related⟩ := related_later
    (R := fun run run' => run'.status = .running →
      run.status = .running ∧ (run.settled = true → run'.settled = true))
    (A := fun _ _ => True) (fun run active => ⟨active, id⟩)
    (fun first second active => by
      obtain ⟨middle, settled'⟩ := second active
      obtain ⟨start, settled⟩ := first middle
      exact ⟨start, settled' ∘ settled⟩)
    (fun change sound _ active =>
      ⟨(RunRecord.Phased.active_before change active).1, change.settled_kept sound⟩)
    (fun _ _ => trivial) before later (guarded_true _) found
  obtain ⟨-, phased⟩ := Drive.finished_stored answer
  have running : answered.status = .running := by
    refine active.resolve_right fun pending => ?_
    obtain running | ended := phased.phase
    · rw [running] at pending
      cases pending
    · rw [pending] at ended
      cases ended
  have effect := Repository.effect_after (before ++ later) (.finishRun k metrics clock)
  rw [answer] at effect
  generalize repository.after (before ++ later ++ [.finishRun k metrics clock]) = s' at effect
  cases effect with
  | unchanged quiet => cases quiet
  | finish move =>
      obtain rfl := Option.some.inj (move.found.symm.trans foundLast)
      obtain ⟨start, settled⟩ := related (RunRecord.Phased.active_before move.step running).1
      refine ⟨start, Bool.eq_false_iff.mpr fun ended => ?_⟩
      have terminal : answered.status.isTerminal = true := by
        rw [move.step.finish_status (settled ended)]
        exact RunRecord.verdict_isTerminal _
      rw [running] at terminal
      cases terminal

/-- Where a worker is handed no step of an active run that is not settled, it waits. -/
theorem waits_of_refused (genuine : Genuine ops) (few : (issued ops).length < 2 ^ 64)
    (found : (repository.after ops).runs[k]? = some run) (active : run.status = .running)
    (unsettled : run.settled = false) {worker : WorkerProfile} {leaseMs : UInt64} {clock : Clock}
    (refused : ((repository.after ops).claimNextStep k worker leaseMs clock).1 = .ok none) :
    run.Waits worker (clock.step k) := by
  by_contra free
  have supports : SupportsAll worker run := by
    by_contra lacks
    exact free (.unsupported lacks)
  have sound := sound_after ops k run found
  simp only [RunRecord.settled, Bool.or_eq_false_iff] at unsettled
  obtain ⟨unfailed, unfinished⟩ := unsettled
  rw [Bool.eq_false_iff, Ne, RunRecord.allSucceeded_iff_done sound] at unfinished
  obtain ⟨step, listed, undone, ready⟩ := WorkflowSpec.exists_ready sound.accepted.valid run.Done
    (by simpa only [not_forall, exists_prop] using unfinished)
  obtain ⟨record, lease, foundStep, leased⟩ | ⟨record, next, foundStep, status, scheduled, early⟩ |
    ⟨candidate, chosen⟩ := ready_step sound (phased_after ops k run found) active unfailed supports
      listed (fun record foundStep retrying => granted_after genuine few found listed foundStep
        retrying) undone ready (clock.step k step.id)
  · exact free (.leased listed foundStep leased)
  · exact free (.retrying listed foundStep status scheduled early)
  · obtain ⟨claim, handed⟩ := claimed_of_candidate (Repository.keyed_after ops) found active listed
      leaseMs chosen
    rw [handed] at refused
    cases refused

end History

/-- The loop asks for its first claim, or has found none. -/
def DrivePhase.seeking : DrivePhase → Bool
  | .claiming [] _ => true
  | .finishing => true
  | .recovering => true
  | .idling => true
  | _ => false

namespace Drive

/-- The exchange is a claim request. -/
def asked : Option (Op × Response) → Bool
  | some (.claimNextStep .., _) => true
  | _ => false

/-- The last claim request of the drive found nothing, and was the call after these ones. -/
def Refused (drive : Drive) (ops : List Op) (log : List DriveTurn) (before : List Op)
    (clock : Clock) : Prop :=
  ∃ earlier turn between, log = earlier ++ turn :: between ∧
    turn.exchange = some (drive.asks clock, .claimed (.ok none)) ∧ turn.time = before.length ∧
    (∀ later ∈ between, asked later.exchange = false) ∧
    before ++ [drive.asks clock] <+: ops ∧
    ((repository.after before).claimNextStep drive.runId drive.executor.options.worker
      drive.executor.options.leaseMs clock).1 = .ok none

/-- When the last claim request of the drive found nothing, its run was active and waited. -/
def Waits (drive : Drive) (ops : List Op) (log : List DriveTurn) : Prop :=
  ∃ before clock run, drive.Refused ops log before clock ∧
    (repository.after before).runs[drive.runId]? = some run ∧ run.status = .running ∧
    run.Waits drive.executor.options.worker (clock.step drive.runId)

variable {drive : Drive} {ops ops' : List Op} {log : List DriveTurn}

theorem Refused.grow {before : List Op} {clock : Clock} (grown : ops <+: ops')
    (refused : drive.Refused ops log before clock) : drive.Refused ops' log before clock := by
  obtain ⟨earlier, first, between, extended, request, time, quiet, within, answer⟩ := refused
  exact ⟨earlier, first, between, extended, request, time, quiet, within.trans grown, answer⟩

theorem Refused.next {turn : DriveTurn} {before : List Op} {clock : Clock}
    (refused : drive.Refused ops log before clock) (grown : ops <+: ops')
    (other : asked turn.exchange = false) :
    drive.Refused ops' (log ++ [turn]) before clock := by
  obtain ⟨earlier, first, between, rfl, request, time, quiet, within, answer⟩ := refused
  refine ⟨earlier, first, between ++ [turn], by simp, request, time, ?_, within.trans grown,
    answer⟩
  intro later member
  obtain old | new := List.mem_append.mp member
  · exact quiet later old
  · rw [List.mem_singleton.mp new]
    exact other

/-- What is known of the claim requests of a drive. -/
structure Seeks (drive : Drive) (ops : List Op) (log : List DriveTurn) (stands : DriveCall) :
    Prop where
  room : ∀ left, stands.phase = .claiming [] left → 0 < left
  asked : stands.phase = .finishing → ∃ before clock run, drive.Refused ops log before clock ∧
    (repository.after before).runs[drive.runId]? = some run
  waits : stands.phase = .recovering ∨ stands.phase = .idling → drive.Waits ops log

theorem Seeks.of_claiming {t left : Nat} (room : 0 < left) :
    drive.Seeks ops log ⟨t, .claiming [] left⟩ := by
  refine ⟨fun other same => ?_, fun same => (by cases same), fun same => ?_⟩
  · obtain ⟨-, rfl⟩ := DrivePhase.claiming.inj same
    exact room
  · obtain recovering | idling := same
    · cases recovering
    · cases idling

theorem Seeks.of_busy {stands : DriveCall} (busy : stands.phase.seeking = false) :
    drive.Seeks ops log stands := by
  refine ⟨fun left same => ?_, fun same => ?_, fun same => ?_⟩
  · rw [same] at busy
    cases busy
  · rw [same] at busy
    cases busy
  · obtain same | same := same
    · rw [same] at busy
      cases busy
    · rw [same] at busy
      cases busy

theorem Waits.next {turn : DriveTurn} (waits : drive.Waits ops log) (grown : ops <+: ops')
    (other : asked turn.exchange = false) :
    drive.Waits ops' (log ++ [turn]) := by
  obtain ⟨before, clock, run, refused, found, active, waiting⟩ := waits
  exact ⟨before, clock, run, refused.next grown other, found, active, waiting⟩

theorem Seeks.grow {stands : DriveCall} (grown : ops <+: ops')
    (seeks : drive.Seeks ops log stands) : drive.Seeks ops' log stands := by
  refine ⟨seeks.room, fun same => ?_, fun same => ?_⟩
  · obtain ⟨before, clock, run, refused, found⟩ := seeks.asked same
    exact ⟨before, clock, run, refused.grow grown, found⟩
  · obtain ⟨before, clock, run, refused, waiting⟩ := seeks.waits same
    exact ⟨before, clock, run, refused.grow grown, waiting⟩

/-- A transition keeps what is known of the claim requests. -/
theorem Transition.seeks {move : DriveMove} {stands stands' : DriveCall}
    {exchange : Option (Op × Response)}
    (h : drive.Transition (repository.after ops) move stands exchange stands')
    (known : drive.Known ops log stands) (genuine : Genuine ops)
    (few : (issued ops).length < 2 ^ 64) (seeks : drive.Seeks ops log stands) :
    drive.Seeks (ops ++ (exchange.map Prod.fst).toList)
      (log ++ [⟨ops.length, move, exchange⟩]) stands' := by
  have grown : ops <+: ops ++ (exchange.map Prod.fst).toList := List.prefix_append _ _
  cases h with
  | loaded => exact .of_claiming drive.limits.parallel
  | @claimed t left claims claim clock answer =>
      refine .of_busy ?_
      cases claims <;> rfl
  | @unclaimed t left clock answer =>
      obtain ⟨run, found⟩ := (known.runs rfl).stored
      refine ⟨fun left same => (by cases same), fun _ => ⟨ops, clock, run, ?_, found⟩,
        fun same => ?_⟩
      · exact ⟨log, _, [], rfl, rfl, rfl, fun later member => absurd member List.not_mem_nil,
          List.prefix_rfl, Response.claimed.inj answer⟩
      · obtain same | same := same
        · cases same
        · cases same
  | empty => exact absurd (seeks.room 0 rfl) (Nat.lt_irrefl 0)
  | unfinished answer active =>
      obtain ⟨before, clock, run, refused, found⟩ := seeks.asked rfl
      obtain ⟨-, -, -, -, -, -, -, within, nothing⟩ := id refused
      have inside : before <+: ops := (List.prefix_append _ _).trans within
      obtain ⟨running, unsettled⟩ := unfinished_before inside found answer active
      have waiting := waits_of_refused (genuine.of_within inside)
        (Nat.lt_of_le_of_lt (issued_extends inside).length_le few) found running unsettled nothing
      refine ⟨fun left same => (by cases same), fun same => (by cases same), fun _ => ?_⟩
      exact ⟨before, clock, run, refused.next grown rfl, found, running, waiting⟩
  | recovered =>
      refine ⟨fun left same => (by cases same), fun same => (by cases same), fun _ => ?_⟩
      exact (seeks.waits (.inl rfl)).next grown rfl
  | again => exact .of_claiming drive.limits.parallel
  | done => exact .of_claiming drive.limits.parallel
  | still =>
      refine ⟨seeks.room, fun same => ?_, fun same => (seeks.waits same).next grown rfl⟩
      obtain ⟨before, clock, run, refused, found⟩ := seeks.asked same
      exact ⟨before, clock, run, refused.next grown rfl, found⟩
  | _ => exact .of_busy rfl

/-- Other callers complete claims that were handed out. -/
def OthersGenuine (drive : Drive) (events : List (Client.Event Op DriveMove)) : Prop :=
  ∀ pre claim completion clock, pre ++ [.other (.completeStep claim completion clock)] <+: events →
    claim ∈ issued (drive.client.served repository pre)

/-- A drive completes a claim that it holds. -/
theorem completes_held {stands : DriveCall} {move : DriveMove} {claim : StepClaim}
    {completion : StepCompletion} {clock : Clock}
    (call : drive.call stands move = some (.completeStep claim completion clock)) {limit : Nat}
    {held : List StepClaim} (holds : stands.phase.Holds limit held) : claim ∈ held := by
  obtain ⟨t, phase⟩ := stands
  cases move with
  | proceed now instant =>
      cases phase with
      | claiming claims left => cases left <;> cases call
      | committing batch =>
          cases batch with
          | nil => cases call
          | cons first batch =>
              obtain ⟨own, result⟩ := first
              cases result with
              | error error => cases call
              | ok built =>
                  obtain ⟨rfl, -⟩ := Op.completeStep.inj (Option.some.inj call)
                  rw [holds.1]
                  exact List.mem_cons_self
      | _ => cases call
  | work i task now =>
      obtain ⟨job, -, made⟩ := Option.bind_eq_some_iff.mp call
      unfold jobCall at made
      split at made <;> cases made
  | beat i now =>
      obtain ⟨job, -, made⟩ := Option.bind_eq_some_iff.mp call
      unfold beatCall at made
      split at made <;> cases made

theorem genuine_served {events : List (Client.Event Op DriveMove)}
    (others : drive.OthersGenuine events) : Genuine (drive.client.served repository events) := by
  induction events using Machine.history_induction with
  | nil => exact .of_plain fun op member => absurd member List.not_mem_nil
  | concat events event ih =>
      have genuine := ih fun pre claim completion clock within =>
        others pre claim completion clock (within.trans (List.prefix_append _ _))
      rw [Client.served_concat]
      cases event with
      | other i =>
          refine genuine.concat fun claim completion clock same => ?_
          subst same
          exact others events claim completion clock List.prefix_rfl
      | move a =>
          simp only [Client.step]
          split
          · rwa [Option.toList_none, List.append_nil]
          next op call =>
            refine genuine.concat fun claim completion clock same => ?_
            subst same
            obtain ⟨⟨held, holds, account⟩, issues⟩ := @accounted_after drive events
            refine issues.subset ?_
            rw [account]
            exact List.mem_append_right _ (completes_held call holds)

theorem seeks_after {events : List (Client.Event Op DriveMove)}
    (genuine : Genuine (drive.client.served repository events))
    (few : (issued (drive.client.served repository events)).length < 2 ^ 64) :
    drive.Seeks (drive.client.served repository events) (drive.client.log repository events)
      (drive.client.stands repository events) := by
  refine Client.rule_with (Q := fun is log stands => drive.Known is log stands)
    (P := fun is log stands => Genuine is → (issued is).length < 2 ^ 64 → drive.Seeks is log stands)
    known_after (fun _ _ => .of_busy rfl) ?_ events genuine few
  intro is log stands is' log' stands' steps known ih genuine few
  have before : Genuine is := genuine.of_within steps.served_extends
  have fewer : (issued is).length < 2 ^ 64 :=
    Nat.lt_of_le_of_lt (issued_extends steps.served_extends).length_le few
  have seeks := ih before fewer
  cases steps with
  | other i => exact seeks.grow (List.prefix_append is [i])
  | called call => exact (receive_transition _ _ call rfl).seeks known before fewer seeks
  | looked silent =>
      have moved := (look_transition _ _ silent).seeks known before fewer seeks
      rwa [Option.map_none, Option.toList_none, List.append_nil] at moved

end Drive

/-- With fewer than 2 ^ 64 claims the claims of a run are at most as many as the budgets of its
steps allow. -/
theorem issued_within_budget {ops : List Op} (genuine : Genuine ops)
    (few : (issued ops).length < 2 ^ 64) {k : RunId} {run : RunRecord}
    (found : (repository.after ops).runs[k]? = some run) :
    (issued ops).countP (fun claim => claim.runId == k) ≤
      (run.workflow.steps.map fun step => step.policy.retry.budget.toNat + 1).sum := by
  have budgeted := (tracked_after genuine).budgeted (Nat.le_of_lt_succ few) k run found
  have listed : ∀ claim ∈ issued ops, (claim.runId == k) = true →
      claim.step.id ∈ run.workflow.stepIds := by
    intro claim member own
    obtain ⟨other, foundOther, listed, -⟩ := carried_after ops claim member
    rw [beq_iff_eq.mp own, found] at foundOther
    obtain rfl := Option.some.inj foundOther
    exact List.mem_map_of_mem listed
  refine Nat.le_trans (countP_le_sum_keys (fun claim => claim.step.id) _ _ _ listed) ?_
  rw [WorkflowSpec.stepIds, List.map_map]
  refine List.sum_le_sum fun step member => ?_
  have tried := tried_after ops k step.id
  simp only [StepClaim.isFor] at tried
  rw [Function.comp_apply, tried, Repository.tries, found]
  show run.tries step.id ≤ _
  cases foundStep : run.steps[step.id]? with
  | none => simp [RunRecord.tries, foundStep]
  | some record =>
      rw [RunRecord.tries_of_found foundStep]
      obtain below | ⟨full, -⟩ := (budgeted.records step member record foundStep).within <;> omega

namespace Drive

variable {drive : Drive}

/-- A drive is handed claims of its own run. -/
theorem handed_own (events : List (Client.Event Op DriveMove)) :
    ∀ claim ∈ handed (drive.client.log repository events), claim.runId = drive.runId := by
  refine Client.rule (P := fun _ log _ => ∀ claim ∈ handed log, claim.runId = drive.runId)
    (fun claim member => absurd member List.not_mem_nil) ?_ events
  intro is log stands is' log' stands' steps own claim member
  obtain ⟨rfl, -⟩ | ⟨move, exchange, transition, rfl, -⟩ := steps_cases steps
  · exact own claim member
  · rw [handed_concat] at member
    obtain old | new := List.mem_append.mp member
    · exact own claim old
    · cases transition with
      | @claimed t left claims handed clock answer =>
          obtain rfl := Option.some.inj (Option.mem_toList.mp new)
          have effect := Repository.effect_after is (drive.asks clock)
          rw [answer] at effect
          generalize repository.after (is ++ [drive.asks clock]) = s' at effect
          cases effect with
          | unchanged quiet => cases quiet
          | claim move =>
              exact move.step.claim_fields.2.trans (move.own (Repository.keyed_after is))
      | _ => cases new

end Drive

/-- A drive does a bounded amount of work, and waits for cause only. Where other callers complete
claims that were handed out, and fewer than 2 ^ 64 claims are, the claims that it is handed are
at most as many as the attempt budgets of the steps of its run allow; and where it goes idle,
its run was active when its last claim request found nothing, and a step of the run was leased,
or waited for a retry that was not due, or the worker does not support all tasks. -/
theorem drive_waits_for_cause (drive : Drive) (events : List (Client.Event Op DriveMove))
    (others : drive.OthersGenuine events)
    (few : (issued (drive.client.served repository events)).length < 2 ^ 64) :
    (∀ run, (repository.after (drive.client.served repository events)).runs[drive.runId]? =
        some run → (Drive.handed (drive.client.log repository events)).length ≤
          (run.workflow.steps.map fun step => step.policy.retry.budget.toNat + 1).sum) ∧
      ((drive.client.stands repository events).phase = .idling →
        drive.Waits (drive.client.served repository events)
          (drive.client.log repository events)) := by
  have genuine := Drive.genuine_served others
  constructor
  · intro run found
    refine Nat.le_trans ?_ (issued_within_budget genuine few found)
    have own : (Drive.handed (drive.client.log repository events)).countP
        (fun claim => claim.runId == drive.runId) =
          (Drive.handed (drive.client.log repository events)).length := by
      rw [List.countP_eq_length]
      exact fun claim member => beq_iff_eq.mpr (Drive.handed_own events claim member)
    rw [← own]
    exact (Drive.handed_issued events).countP_le
  · exact fun idling => (Drive.seeks_after genuine few).waits (.inr idling)

/-- Another worker claims the only step, and a drive finds nothing to claim. -/
def Sample.takenElsewhere : List (Client.Event Op DriveMove) :=
  (launched ++ [ask 0]).map .other ++ [goOn 1, goOn 1, goOn 1, goOn 1]

def DrivePhase.isIdle : DrivePhase → Bool
  | .idling => true
  | _ => false

/-- The drive waits for the lease of the other worker. -/
theorem drive_waits_for_cause_takenElsewhere : Sample.drive.Waits
    (Sample.drive.client.served repository Sample.takenElsewhere)
    (Sample.drive.client.log repository Sample.takenElsewhere) := by
  have others : Sample.drive.OthersGenuine Sample.takenElsewhere := by
    intro pre claim completion clock within
    have member := within.subset (List.mem_append_right pre List.mem_cons_self)
    simp [Sample.takenElsewhere, Sample.launched, Sample.ask, Sample.goOn] at member
  have few :
      (issued (Sample.drive.client.served repository Sample.takenElsewhere)).length < 2 ^ 64 := by
    decide +kernel
  have idle :
      (Sample.drive.client.stands repository Sample.takenElsewhere).phase.isIdle = true := by
    decide +kernel
  refine (drive_waits_for_cause Sample.drive Sample.takenElsewhere others few).2 ?_
  generalize (Sample.drive.client.stands repository Sample.takenElsewhere).phase = phase at idle
  cases phase with
  | idling => rfl
  | _ => cases idle

end Orchestrator
