import Orchestrator.Foundation.Lists
import Orchestrator.Model.Drive
import Orchestrator.Executor.Agreement
import Orchestrator.Executor.Worker
import Orchestrator.Repository.Recorded

/-!
# What a drive commits

A drive holds the claims of one batch at a time. Each claim that it is handed stays with it
until the repository has accepted a completion for it; an error ends the drive with at most one
batch left. `Drive.Transition` says once what a move of the drive can do, and every invariant
is read off it.
-/

namespace Orchestrator

open Json (Value)

namespace Drive

variable (drive : Drive)

/-- The claim request of the drive. -/
def asks (clock : Clock) : Op :=
  .claimNextStep drive.runId drive.executor.options.worker drive.executor.options.leaseMs clock

/-- The start that is recorded for a claim. -/
def starts (claim : StepClaim) (clock : Clock) : Op :=
  .recordEvent claim.runId
    (.stepStarted claim.runId claim.step.id claim.task.id claim.attempt) clock

/-- The lease renewal of a heartbeat. -/
def renews (claim : StepClaim) (clock : Clock) : Op :=
  .renewStep claim (drive.executor.heartbeatInterval.saturatingMul 3) clock

/-- What a move may do in a state of the repository, with its call and the answer. -/
inductive Transition (s : Repository) (move : DriveMove) :
    DriveCall → Option (Op × Response) → DriveCall → Prop where
  | missing {t now : Nat} {clock : Clock} (reads : move = .proceed clock now)
      (absent : s.runs[drive.runId]? = none) :
      Transition s move ⟨t, .loading⟩ none
        ⟨t, .returned (.error (.repository (.runNotFound drive.runId)))⟩
  | loaded {t now : Nat} {clock : Clock} {run : RunRecord} (reads : move = .proceed clock now)
      (found : s.runs[drive.runId]? = some run) :
      Transition s move ⟨t, .loading⟩ none ⟨now, .claiming [] drive.limits.maxParallelSteps⟩
  | claimed {t left : Nat} {claims : List StepClaim} {claim : StepClaim} {clock : Clock}
      (answer : repository.answer s (drive.asks clock) = .claimed (.ok (some claim))) :
      Transition s move ⟨t, .claiming claims (left + 1)⟩
        (some (drive.asks clock, .claimed (.ok (some claim))))
        ⟨t, .claiming (claims ++ [claim]) left⟩
  | unclaimed {t left : Nat} {clock : Clock}
      (answer : repository.answer s (drive.asks clock) = .claimed (.ok none)) :
      Transition s move ⟨t, .claiming [] (left + 1)⟩ (some (drive.asks clock, .claimed (.ok none)))
        ⟨t, .finishing⟩
  | short {t now left : Nat} {claim : StepClaim} {claims : List StepClaim} {clock : Clock}
      (reads : move = .proceed clock now)
      (answer : repository.answer s (drive.asks clock) = .claimed (.ok none)) :
      Transition s move ⟨t, .claiming (claim :: claims) (left + 1)⟩
        (some (drive.asks clock, .claimed (.ok none)))
        ⟨now, .executing ((claim :: claims).map .begin)⟩
  | refused {t left : Nat} {claims : List StepClaim} {error : RepositoryError} {clock : Clock}
      (answer : repository.answer s (drive.asks clock) = .claimed (.error error)) :
      Transition s move ⟨t, .claiming claims (left + 1)⟩
        (some (drive.asks clock, .claimed (.error error)))
        ⟨t, .returned (.error (.repository error))⟩
  | empty {t : Nat} : Transition s move ⟨t, .claiming [] 0⟩ none ⟨t, .finishing⟩
  | full {t now : Nat} {claim : StepClaim} {claims : List StepClaim} {clock : Clock}
      (reads : move = .proceed clock now) :
      Transition s move ⟨t, .claiming (claim :: claims) 0⟩ none
        ⟨now, .executing ((claim :: claims).map .begin)⟩
  | finished {t : Nat} {run : RunRecord} {clock : Clock}
      (answer : repository.answer s (.finishRun drive.runId drive.metrics clock) =
        .finished (.ok run))
      (ended : ¬ (run.status = .running ∨ run.status = .pending)) :
      Transition s move ⟨t, .finishing⟩
        (some (.finishRun drive.runId drive.metrics clock, .finished (.ok run)))
        ⟨t, .returned (.ok run)⟩
  | unfinished {t : Nat} {run : RunRecord} {clock : Clock}
      (answer : repository.answer s (.finishRun drive.runId drive.metrics clock) =
        .finished (.ok run))
      (active : run.status = .running ∨ run.status = .pending) :
      Transition s move ⟨t, .finishing⟩
        (some (.finishRun drive.runId drive.metrics clock, .finished (.ok run)))
        ⟨t, .recovering⟩
  | unknown {t : Nat} {error : RepositoryError} {clock : Clock}
      (answer : repository.answer s (.finishRun drive.runId drive.metrics clock) =
        .finished (.error error)) :
      Transition s move ⟨t, .finishing⟩
        (some (.finishRun drive.runId drive.metrics clock, .finished (.error error)))
        ⟨t, .returned (.error (.repository error))⟩
  | recovered {t : Nat} {expired : List (RunId × StepId)} {clock : Clock}
      (answer : repository.answer s (.recoverExpired clock) = .recovered (.ok expired)) :
      Transition s move ⟨t, .recovering⟩ (some (.recoverExpired clock, .recovered (.ok expired)))
        ⟨t, .idling⟩
  | unrecovered {t : Nat} {error : RepositoryError} {clock : Clock}
      (answer : repository.answer s (.recoverExpired clock) = .recovered (.error error)) :
      Transition s move ⟨t, .recovering⟩ (some (.recoverExpired clock, .recovered (.error error)))
        ⟨t, .returned (.error (.repository error))⟩
  | idledOut {t now : Nat} {clock : Clock} (reads : move = .proceed clock now)
      (out : drive.idledOut t now = true) :
      Transition s move ⟨t, .idling⟩ none
        ⟨t, .returned (.error (.repository (.conflict drive.runId)))⟩
  | again {t now : Nat} (within : drive.idledOut t now = false) :
      Transition s move ⟨t, .idling⟩ none ⟨t, .claiming [] drive.limits.maxParallelSteps⟩
  | recorded {t i : Nat} {jobs : List Job} {claim : StepClaim} {clock : Clock}
      {result : Except RepositoryError EventEnvelope} (there : jobs[i]? = some ⟨claim, .starting⟩)
      (answer : repository.answer s (starts claim clock) = .recorded result) :
      Transition s move ⟨t, .executing jobs⟩ (some (starts claim clock, .recorded result))
        ⟨t, .executing (jobs.set i (drive.started ⟨claim, .starting⟩ (.recorded result)))⟩
  | beaten {t i : Nat} {jobs : List Job} {claim : StepClaim} {clock : Clock}
      {result : Except RepositoryError Unit} (there : jobs[i]? = some ⟨claim, .running true⟩)
      (answer : repository.answer s (drive.renews claim clock) = .renewed result) :
      Transition s move ⟨t, .executing jobs⟩ (some (drive.renews claim clock, .renewed result))
        ⟨t, .executing (jobs.set i ⟨claim, .running result.isOk⟩)⟩
  | answered {t i : Nat} {jobs : List Job} {claim : StepClaim} {beating : Bool}
      {answer : Except TaskError Value} (there : jobs[i]? = some ⟨claim, .running beating⟩) :
      Transition s move ⟨t, .executing jobs⟩ none
        ⟨t, .executing (jobs.set i ⟨claim, .ended (.ok (claim.completion answer))⟩)⟩
  | joined {t : Nat} {jobs : List Job}
      {batch : List (StepClaim × Except OrchestratorError StepCompletion)}
      (ended : jobs.mapM Job.result? = some batch) :
      Transition s move ⟨t, .executing jobs⟩ none ⟨t, .committing batch⟩
  | committed {t : Nat} {claim : StepClaim} {completion : StepCompletion} {clock : Clock}
      {batch : List (StepClaim × Except OrchestratorError StepCompletion)} {run : RunRecord}
      (answer : repository.answer s (.completeStep claim completion clock) =
        .completed (.ok run)) :
      Transition s move ⟨t, .committing ((claim, .ok completion) :: batch)⟩
        (some (.completeStep claim completion clock, .completed (.ok run)))
        ⟨t, .committing batch⟩
  | rejected {t : Nat} {claim : StepClaim} {completion : StepCompletion} {clock : Clock}
      {batch : List (StepClaim × Except OrchestratorError StepCompletion)}
      {error : RepositoryError}
      (answer : repository.answer s (.completeStep claim completion clock) =
        .completed (.error error)) :
      Transition s move ⟨t, .committing ((claim, .ok completion) :: batch)⟩
        (some (.completeStep claim completion clock, .completed (.error error)))
        ⟨t, .returned (.error (.repository error))⟩
  | failed {t : Nat} {claim : StepClaim} {error : OrchestratorError}
      {batch : List (StepClaim × Except OrchestratorError StepCompletion)} :
      Transition s move ⟨t, .committing ((claim, .error error) :: batch)⟩ none
        ⟨t, .returned (.error error)⟩
  | done {t : Nat} :
      Transition s move ⟨t, .committing []⟩ none ⟨t, .claiming [] drive.limits.maxParallelSteps⟩
  | still (stands : DriveCall)
      (elsewhere : stands.phase = .loading → ∀ clock now, move ≠ .proceed clock now) :
      Transition s move stands none stands

variable {drive} {s : Repository}

/-- A move without a call takes one of the transitions. -/
theorem look_transition (stands : DriveCall) (move : DriveMove)
    (silent : drive.call stands move = none) :
    drive.Transition s move stands none (drive.look stands move s) := by
  obtain ⟨t, phase⟩ := stands
  cases move with
  | proceed clock now =>
      show drive.Transition s _ _ none (drive.proceeds ⟨t, phase⟩ now s)
      cases phase with
      | loading =>
          simp only [proceeds, Repository.loadRun]
          cases found : s.runs[drive.runId]? with
          | none => exact .missing rfl found
          | some run => exact .loaded rfl found
      | claiming claims left =>
          cases left with
          | succ left => cases silent
          | zero => cases claims with
            | nil => exact .empty
            | cons claim claims => exact .full rfl
      | finishing => exact .still _ (fun same => by cases same)
      | recovering => exact .still _ (fun same => by cases same)
      | idling =>
          simp only [proceeds]
          cases out : drive.idledOut t now with
          | true => exact .idledOut rfl out
          | false => exact .again out
      | executing jobs =>
          simp only [proceeds]
          cases ended : jobs.mapM Job.result? with
          | none => exact .still _ (fun same => by cases same)
          | some batch => exact .joined ended
      | committing batch =>
          cases batch with
          | nil => exact .done
          | cons first batch =>
              obtain ⟨claim, result⟩ := first
              cases result with
              | error error => exact .failed
              | ok completion => cases silent
      | returned result => exact .still _ (fun same => by cases same)
  | work i answer clock =>
      simp only [look]
      cases there : (jobs phase)[i]? with
      | none => exact .still _ (fun _ _ _ same => by cases same)
      | some job =>
          cases phase with
          | executing listed =>
              obtain ⟨claim, phase⟩ := job
              cases phase with
              | starting => simp [call, there, jobCall] at silent
              | running beating => exact .answered there
              | ended result =>
                  have same : listed.set i ⟨claim, .ended result⟩ = listed := by
                    obtain ⟨within, found⟩ := List.getElem?_eq_some_iff.mp there
                    exact found ▸ List.set_getElem_self within
                  simp only [setJob, answered, jobs, same]
                  exact .still _ (fun _ _ _ same => by cases same)
          | _ => cases there
  | beat i clock => exact .still _ (fun _ _ _ same => by cases same)

/-- A move with a call takes one of the transitions with the answer. -/
theorem receive_transition (stands : DriveCall) (move : DriveMove) {op : Op}
    (made : drive.call stands move = some op) {response : Response}
    (answer : repository.answer s op = response) :
    drive.Transition s move stands (some (op, response)) (drive.receive stands move response) := by
  obtain ⟨t, phase⟩ := stands
  cases move with
  | proceed clock now =>
      cases phase with
      | claiming claims left =>
          cases left with
          | zero => cases made
          | succ left =>
              obtain rfl : drive.asks clock = op := Option.some.inj made
              obtain ⟨result, rfl⟩ : ∃ result, response = .claimed result := ⟨_, answer.symm⟩
              cases result with
              | error error => exact .refused answer
              | ok handed =>
                  cases handed with
                  | none => cases claims with
                    | nil => exact .unclaimed answer
                    | cons claim claims => exact .short rfl answer
                  | some claim => exact .claimed answer
      | finishing =>
          obtain rfl := Option.some.inj made
          obtain ⟨result, rfl⟩ : ∃ result, response = .finished result := ⟨_, answer.symm⟩
          cases result with
          | error error => exact .unknown answer
          | ok run =>
              simp only [receive, received]
              split
              next active => exact .unfinished answer active
              next ended => exact .finished answer ended
      | recovering =>
          obtain rfl := Option.some.inj made
          obtain ⟨result, rfl⟩ : ∃ result, response = .recovered result := ⟨_, answer.symm⟩
          cases result with
          | error error => exact .unrecovered answer
          | ok expired => exact .recovered answer
      | committing batch =>
          cases batch with
          | nil => cases made
          | cons first batch =>
              obtain ⟨claim, result⟩ := first
              cases result with
              | error error => cases made
              | ok completion =>
                  obtain rfl := Option.some.inj made
                  obtain ⟨result, rfl⟩ : ∃ result, response = .completed result :=
                    ⟨_, answer.symm⟩
                  cases result with
                  | error error => exact .rejected answer
                  | ok run => exact .committed answer
      | _ => cases made
  | work i task clock =>
      cases phase with
      | executing listed =>
          obtain ⟨⟨claim, phase⟩, there, made⟩ := Option.bind_eq_some_iff.mp made
          cases phase with
          | starting =>
              obtain rfl := Option.some.inj made
              obtain ⟨result, rfl⟩ : ∃ result, response = .recorded result := ⟨_, answer.symm⟩
              simp only [receive, there]
              exact .recorded there answer
          | _ => cases made
      | _ => cases made
  | beat i clock =>
      cases phase with
      | executing listed =>
          obtain ⟨⟨claim, phase⟩, there, made⟩ := Option.bind_eq_some_iff.mp made
          cases phase with
          | running beating =>
              cases beating with
              | false => cases made
              | true =>
                  obtain rfl := Option.some.inj made
                  obtain ⟨result, rfl⟩ : ∃ result, response = .renewed result := ⟨_, answer.symm⟩
                  have moved : drive.Transition s (.beat i clock) ⟨t, .executing listed⟩ _ _ :=
                    .beaten there answer
                  simp only [receive, there]
                  cases result <;> exact moved
          | _ => cases made
      | _ => cases made

end Drive

/-- One move of a drive in its log. -/
abbrev DriveTurn := Client.Turn Op Response DriveMove

/-- The claims that a drive holds in a phase. After an error they are those of its last batch
that it has not committed. -/
def DrivePhase.Holds (limit : Nat) : DrivePhase → List StepClaim → Prop
  | .claiming claims left, held => held = claims ∧ claims.length + left ≤ limit
  | .executing jobs, held => held = jobs.map Job.claim ∧ held.length ≤ limit
  | .committing batch, held => held = batch.map Prod.fst ∧ held.length ≤ limit
  | .returned (.error _), held => held.length ≤ limit
  | _, held => held = []

namespace Drive

variable {drive : Drive}

/-- An event is a call of somebody else, or a transition of the drive. -/
theorem steps_cases {is is' : List Op} {log log' : List DriveTurn} {stands stands' : DriveCall}
    (steps : drive.client.Steps repository is log stands is' log' stands') :
    (log' = log ∧ stands' = stands) ∨ ∃ move exchange,
      drive.Transition (repository.after is) move stands exchange stands' ∧
        log' = log ++ [⟨is.length, move, exchange⟩] ∧
          is' = is ++ (exchange.map Prod.fst).toList := by
  cases steps with
  | other => exact .inl ⟨rfl, rfl⟩
  | called call => exact .inr ⟨_, _, receive_transition _ _ call rfl, rfl, rfl⟩
  | looked silent => exact .inr ⟨_, _, look_transition _ _ silent, rfl, (List.append_nil is).symm⟩

/-- The claim that an exchange hands out. -/
def handed? (exchange : Option (Op × Response)) : Option StepClaim :=
  exchange >>= fun exchange => exchange.2.claim?

/-- The claim of which an exchange commits a completion. -/
def committed? : Option (Op × Response) → Option StepClaim
  | some (.completeStep claim _ _, .completed (.ok _)) => some claim
  | _ => none

/-- The claims that were handed to the drive, in order. -/
def handed (log : List DriveTurn) : List StepClaim :=
  log.filterMap fun turn => handed? turn.exchange

/-- The claims of which a completion by the drive was accepted, in order. -/
def committed (log : List DriveTurn) : List StepClaim :=
  log.filterMap fun turn => committed? turn.exchange

theorem handed_concat (log : List DriveTurn) (turn : DriveTurn) :
    handed (log ++ [turn]) = handed log ++ (handed? turn.exchange).toList := by
  rw [handed, List.filterMap_append]
  cases added : handed? turn.exchange <;> simp [handed, added]

theorem committed_concat (log : List DriveTurn) (turn : DriveTurn) :
    committed (log ++ [turn]) = committed log ++ (committed? turn.exchange).toList := by
  rw [committed, List.filterMap_append]
  cases added : committed? turn.exchange <;> simp [committed, added]

theorem map_claim_begin (claims : List StepClaim) : (claims.map .begin).map Job.claim = claims := by
  rw [List.map_map]
  exact List.map_id claims

/-- The executions of a batch keep their claims. -/
theorem map_claim_set {jobs : List Job} {i : Nat} {job job' : Job} (there : jobs[i]? = some job)
    (same : job'.claim = job.claim) : jobs.map Job.claim = (jobs.set i job').map Job.claim := by
  obtain ⟨within, found⟩ := List.getElem?_eq_some_iff.mp there
  have kept : (jobs.map Job.claim).set i job.claim = jobs.map Job.claim := by
    rw [← found, ← List.map_set, List.set_getElem_self]
  rw [List.map_set, same, kept]

/-- The results of a batch stand in the order of its claims. -/
theorem map_claim_joined {jobs : List Job}
    {batch : List (StepClaim × Except OrchestratorError StepCompletion)}
    (ended : jobs.mapM Job.result? = some batch) : jobs.map Job.claim = batch.map Prod.fst := by
  have each := List.mapM_eq_some_iff.mp ended
  clear ended
  induction each with
  | nil => rfl
  | @cons job result jobs batch first _ ih =>
      have own : job.claim = result.1 := by
        unfold Job.result? at first
        split at first
        · exact congrArg Prod.fst (Option.some.inj first)
        · cases first
      rw [List.map_cons, List.map_cons, own, ih]

theorem started_claim (drive : Drive) (job : Job) (response : Response) :
    (drive.started job response).claim = job.claim := by
  unfold started
  split
  · split <;> rfl
  · rfl
  · rfl

/-- What a transition takes from the claims that are held is what it commits, and what it
adds to them is what it is handed. -/
theorem Transition.holds {s : Repository} {move : DriveMove} {stands stands' : DriveCall}
    {exchange : Option (Op × Response)} (h : drive.Transition s move stands exchange stands')
    {held : List StepClaim} (holds : stands.phase.Holds drive.limits.maxParallelSteps held) :
    ∃ held', stands'.phase.Holds drive.limits.maxParallelSteps held' ∧
      held ++ (handed? exchange).toList = (committed? exchange).toList ++ held' := by
  have kept : handed? exchange = none → committed? exchange = none →
      stands'.phase.Holds drive.limits.maxParallelSteps held →
      ∃ held', stands'.phase.Holds drive.limits.maxParallelSteps held' ∧
        held ++ (handed? exchange).toList = (committed? exchange).toList ++ held' := by
    intro unhanded uncommitted holds
    exact ⟨held, holds, by rw [unhanded, uncommitted, Option.toList_none, List.append_nil]; rfl⟩
  cases h with
  | missing => exact kept rfl rfl (by rw [holds]; exact Nat.zero_le _)
  | loaded => exact kept rfl rfl ⟨holds, by rw [List.length_nil]; omega⟩
  | claimed =>
      obtain ⟨rfl, room⟩ := holds
      refine ⟨_, ⟨rfl, ?_⟩, rfl⟩
      rw [List.length_append, List.length_singleton]
      omega
  | unclaimed => exact kept rfl rfl holds.1
  | short =>
      obtain ⟨rfl, room⟩ := holds
      exact kept rfl rfl ⟨(map_claim_begin _).symm, by omega⟩
  | refused =>
      obtain ⟨rfl, room⟩ := holds
      exact kept rfl rfl (show _ ≤ _ by omega)
  | empty => exact kept rfl rfl holds.1
  | full =>
      obtain ⟨rfl, room⟩ := holds
      exact kept rfl rfl ⟨(map_claim_begin _).symm, by omega⟩
  | finished => exact kept rfl rfl holds
  | unfinished => exact kept rfl rfl holds
  | unknown => exact kept rfl rfl (by rw [holds]; exact Nat.zero_le _)
  | recovered => exact kept rfl rfl holds
  | unrecovered => exact kept rfl rfl (by rw [holds]; exact Nat.zero_le _)
  | idledOut => exact kept rfl rfl (by rw [holds]; exact Nat.zero_le _)
  | again => exact kept rfl rfl ⟨holds, by rw [List.length_nil]; omega⟩
  | recorded there =>
      obtain ⟨rfl, room⟩ := holds
      exact kept rfl rfl ⟨map_claim_set there (started_claim _ _ _), room⟩
  | beaten there =>
      obtain ⟨rfl, room⟩ := holds
      exact kept rfl rfl ⟨map_claim_set there rfl, room⟩
  | answered there =>
      obtain ⟨rfl, room⟩ := holds
      exact kept rfl rfl ⟨map_claim_set there rfl, room⟩
  | joined ended =>
      obtain ⟨rfl, room⟩ := holds
      exact kept rfl rfl ⟨map_claim_joined ended, room⟩
  | committed =>
      obtain ⟨rfl, room⟩ := holds
      refine ⟨_, ⟨rfl, ?_⟩, by rw [List.map_cons]; exact List.append_nil _⟩
      exact Nat.le_of_succ_le room
  | rejected =>
      obtain ⟨-, room⟩ := holds
      exact kept rfl rfl room
  | failed =>
      obtain ⟨-, room⟩ := holds
      exact kept rfl rfl room
  | done =>
      obtain ⟨rfl, room⟩ := holds
      exact kept rfl rfl ⟨rfl, by rw [List.length_nil]; omega⟩
  | still => exact kept rfl rfl holds

theorem length_le_of_holds {phase : DrivePhase} {limit : Nat} {held : List StepClaim}
    (holds : phase.Holds limit held) : held.length ≤ limit := by
  unfold DrivePhase.Holds at holds
  split at holds
  · obtain ⟨rfl, room⟩ := holds
    omega
  · exact holds.2
  · exact holds.2
  · exact holds
  · rw [holds]
    exact Nat.zero_le _

/-- What a drive was handed is what it has committed and what it holds. -/
theorem holds_after (events : List (Client.Event Op DriveMove)) :
    ∃ held, (drive.client.stands repository events).phase.Holds drive.limits.maxParallelSteps
        held ∧
      handed (drive.client.log repository events) =
        committed (drive.client.log repository events) ++ held := by
  refine drive.client.rule (P := fun _ log stands => ∃ held,
    stands.phase.Holds drive.limits.maxParallelSteps held ∧ handed log = committed log ++ held)
      ⟨[], rfl, rfl⟩ ?_ events
  rintro is log stands is' log' stands' steps ⟨held, holds, account⟩
  obtain ⟨rfl, rfl⟩ | ⟨move, exchange, transition, rfl, -⟩ := steps_cases steps
  · exact ⟨held, holds, account⟩
  · obtain ⟨held', holds', balance⟩ := transition.holds holds
    refine ⟨held', holds', ?_⟩
    rw [handed_concat, committed_concat, account, List.append_assoc, List.append_assoc]
    exact congrArg _ balance

/-- A drive is handed claims that the repository has issued. -/
theorem handed_issued (events : List (Client.Event Op DriveMove)) :
    (handed (drive.client.log repository events)).Sublist
      (issued (drive.client.served repository events)) := by
  refine Client.rule (P := fun is log _ => (handed log).Sublist (issued is)) .slnil ?_ events
  intro is log stands is' log' stands' steps within
  cases steps with
  | other i => exact within.trans (issued_extends (List.prefix_append is [i])).sublist
  | called =>
      rw [handed_concat, issued_concat]
      exact within.append (.refl _)
  | looked =>
      rw [handed_concat]
      exact (List.append_nil (handed log)).symm ▸ within

/-- The answer to a finish request is the record that it leaves stored, in a phase. -/
theorem finished_stored {ops : List Op} {k : RunId} {metrics : List Metric} {clock : Clock}
    {run : RunRecord} (answer : repository.answer (repository.after ops)
      (.finishRun k metrics clock) = .finished (.ok run)) :
    (repository.after (ops ++ [.finishRun k metrics clock])).runs[k]? = some run ∧
      run.Phased := by
  have effect := Repository.effect_after ops (.finishRun k metrics clock)
  have phased := phased_after (ops ++ [.finishRun k metrics clock])
  rw [answer] at effect
  generalize repository.after (ops ++ [.finishRun k metrics clock]) = s' at effect phased ⊢
  cases effect with
  | unchanged quiet => cases quiet
  | finish move =>
      have stored : s'.runs[k]? = some run := by rw [move.runs, if_pos rfl]
      exact ⟨stored, phased k run stored⟩

/-- The record has ended, and a finish request of the drive left it stored. -/
structure Delivers (drive : Drive) (ops : List Op) (run : RunRecord) : Prop where
  ended : run.status.isTerminal = true
  stored : ∃ before clock, before ++ [.finishRun drive.runId drive.metrics clock] <+: ops ∧
    (repository.after (before ++ [.finishRun drive.runId drive.metrics clock])).runs[drive.runId]?
      = some run

/-- What a drive returns is delivered. -/
theorem returned_delivered (events : List (Client.Event Op DriveMove)) {run : RunRecord}
    (returned : (drive.client.stands repository events).phase = .returned (.ok run)) :
    drive.Delivers (drive.client.served repository events) run := by
  refine Client.rule (P := fun is _ (stands : DriveCall) => stands.phase = .returned (.ok run) →
    drive.Delivers is run) (fun starts => by cases starts) ?_ events returned
  intro is log stands is' log' stands' steps ih ended
  have earlier : stands.phase = .returned (.ok run) → drive.Delivers is' run := by
    intro before
    obtain ⟨terminal, pre, clock, within, stored⟩ := ih before
    exact ⟨terminal, pre, clock, within.trans steps.served_extends, stored⟩
  obtain ⟨-, rfl⟩ | ⟨move, exchange, transition, -, grown⟩ := steps_cases steps
  · exact earlier ended
  · cases transition with
    | finished answer inactive =>
        obtain rfl := Except.ok.inj (DrivePhase.returned.inj ended)
        obtain ⟨stored, phased⟩ := finished_stored answer
        refine ⟨phased.phase.resolve_left fun running => inactive (.inl running), is, _, ?_, stored⟩
        exact grown ▸ List.prefix_rfl
    | still => exact earlier ended
    | _ => cases ended

/-- What a drive has committed is completed for good. -/
theorem committed_dead (events : List (Client.Event Op DriveMove))
    (few : (issued (drive.client.served repository events)).length ≤ UInt64.maxNat) :
    ∀ claim ∈ committed (drive.client.log repository events),
      Dead claim (repository.after (drive.client.served repository events)) := by
  refine Client.rule (P := fun is log _ => (issued is).length ≤ UInt64.maxNat →
    ∀ claim ∈ committed log, Dead claim (repository.after is))
      (fun _ claim member => absurd member List.not_mem_nil) ?_ events few
  intro is log stands is' log' stands' steps ih few claim member
  have later : claim ∈ committed log → Dead claim (repository.after is') := by
    intro old
    obtain ⟨more, rfl⟩ := steps.served_extends
    exact (ih (Nat.le_trans (issued_extends (List.prefix_append is more)).length_le few) claim
      old).later few
  obtain ⟨rfl, -⟩ | ⟨move, exchange, transition, rfl, rfl⟩ := steps_cases steps
  · exact later member
  · rw [committed_concat] at member
    obtain old | new := List.mem_append.mp member
    · exact later old
    · cases transition with
      | committed answer =>
          obtain rfl := Option.some.inj (Option.mem_toList.mp new)
          exact dead_of_completed answer
      | _ => cases new

end Drive

/-- A drive commits each claim that it is handed once, before it returns a run. Whatever calls
others make in between, the claims that it was handed are those that it committed, in order,
and then those that it holds: at most a batch, and none where it has returned a run. What it
committed can neither be completed nor renewed again. -/
theorem drive_commits_its_claims (drive : Drive) (events : List (Client.Event Op DriveMove))
    (few : (issued (drive.client.served repository events)).length ≤ UInt64.maxNat) :
    ∃ held, Drive.handed (drive.client.log repository events) =
        Drive.committed (drive.client.log repository events) ++ held ∧
      held.length ≤ drive.limits.maxParallelSteps ∧
      ((Drive.handed (drive.client.log repository events)).map StepClaim.leaseToken).Nodup ∧
      (∀ claim ∈ Drive.committed (drive.client.log repository events),
        Fenced claim (repository.after (drive.client.served repository events))) ∧
      ∀ run, (drive.client.stands repository events).phase = .returned (.ok run) →
        held = [] ∧ drive.Delivers (drive.client.served repository events) run := by
  obtain ⟨held, holds, account⟩ := @Drive.holds_after drive events
  refine ⟨held, account, Drive.length_le_of_holds holds, ?_, ?_, ?_⟩
  · exact ((counted_after _).nodup few).sublist ((Drive.handed_issued events).map _)
  · exact fun claim member => (Drive.committed_dead events few claim member).fenced
  · intro run returned
    rw [returned] at holds
    exact ⟨holds, Drive.returned_delivered events returned⟩

namespace Sample

/-- A drive of the small run. -/
def drive : Drive :=
  { executor := durable fun _ _ => .ok .null, limits := ⟨8, some 5, by decide⟩, runId
    metrics := [] }

/-- The loop makes its next move at the given time. -/
def goOn (now : UInt64) : Client.Event Op DriveMove :=
  .move (.proceed (.at now) (now.toNat * 1000000))

/-- The run is created, and a drive executes its step and finishes it. -/
def driven : List (Client.Event Op DriveMove) :=
  launched.map .other ++ [goOn 0, goOn 0, goOn 0, .move (.work 0 (.ok .null) (.at 0)),
    .move (.beat 0 (.at 3)), .move (.work 0 (.ok .null) (.at 5)), goOn 5, goOn 5, goOn 5, goOn 5,
    goOn 5]

end Sample

/-- The run that a call of `resume` has returned. -/
def DrivePhase.run? : DrivePhase → Option RunRecord
  | .returned result => result.toOption
  | _ => none

theorem DrivePhase.returned_of_run? {phase : DrivePhase} {run : RunRecord}
    (returned : phase.run? = some run) : phase = .returned (.ok run) := by
  cases phase with
  | returned result =>
      cases result with
      | error error => cases returned
      | ok other => exact congrArg (DrivePhase.returned ∘ .ok) (Option.some.inj returned)
  | _ => cases returned

/-- The drive commits its only claim and returns the run. -/
theorem drive_commits_its_claims_driven :
    (Drive.handed (Sample.drive.client.log repository Sample.driven)).length = 1 ∧
      Drive.handed (Sample.drive.client.log repository Sample.driven) =
        Drive.committed (Sample.drive.client.log repository Sample.driven) ∧
      ∃ run, Sample.drive.Delivers (Sample.drive.client.served repository Sample.driven) run := by
  have few : (issued (Sample.drive.client.served repository Sample.driven)).length = 1 := by
    decide +kernel
  have returned : (Sample.drive.client.stands repository Sample.driven).phase.run?.isSome =
      true := by
    decide +kernel
  obtain ⟨run, found⟩ := Option.isSome_iff_exists.mp returned
  obtain ⟨held, account, -, -, -, delivered⟩ :=
    drive_commits_its_claims Sample.drive Sample.driven (by rw [few]; decide)
  obtain ⟨rfl, delivers⟩ := delivered run (DrivePhase.returned_of_run? found)
  exact ⟨by decide +kernel, account.trans (List.append_nil _), run, delivers⟩

end Orchestrator
