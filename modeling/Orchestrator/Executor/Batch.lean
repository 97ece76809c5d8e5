import Orchestrator.Executor.Agreement
import Orchestrator.Executor.Worker
import Orchestrator.Model.Drive
import Orchestrator.Repository.Recorded

/-!
# Committing a batch

In each round `drive` claims a batch of steps, executes them together and commits what
their executions ended with, one claim after the other. `commitLoop` is this last loop
with the calls that other workers make between its own, as a machine that takes the claims in
turn: `commitLoop_drives`. The first error ends it, and what stands behind is left
uncommitted, however long its lease still runs.
-/

namespace Orchestrator

open Json (Value)

/-- The turn of a claim in the loop: what `execute_claim` returned for it, the calls that
others make before it is committed, and the clock of the commit. -/
structure BatchTurn where
  claim : StepClaim
  result : Except OrchestratorError StepCompletion
  others : List Op
  clock : Clock

/-- The loop over a batch; `ended` is the error that `drive` has returned. -/
structure CommitLoop where
  ended : Option OrchestratorError
  state : Repository

namespace CommitLoop

/-- The state in which a turn of the loop comes. -/
def before (loop : CommitLoop) (turn : BatchTurn) : Repository :=
  repository.run loop.state turn.others

/-- One turn, with the answer of the call that it makes. -/
def turn (loop : CommitLoop) (turn : BatchTurn) :
    Option (Except RepositoryError RunRecord) × CommitLoop :=
  match loop.ended with
  | some error => (none, ⟨some error, loop.before turn⟩)
  | none =>
    match turn.result with
    | .error error => (none, ⟨some error, loop.before turn⟩)
    | .ok completion =>
      match (loop.before turn).completeStep turn.claim completion turn.clock with
      | (.error error, s) => (some (.error error), ⟨some (.repository error), s⟩)
      | (.ok run, s) => (some (.ok run), ⟨none, s⟩)

end CommitLoop

/-- The loop over a batch that starts in the given state. -/
def commitLoop (s : Repository) :
    Machine CommitLoop BatchTurn (Option (Except RepositoryError RunRecord)) :=
  ⟨⟨none, s⟩, CommitLoop.turn⟩

/-! The loop is what a drive does in its committing phase. -/

/-- What a drive sees of a turn: the calls of others, and the move that commits. -/
def BatchTurn.events (turn : BatchTurn) : List (Client.Event Op DriveMove) :=
  turn.others.map .other ++ [.move (.proceed turn.clock 0)]

/-- Where the drive stands in the loop, with what is left of its batch. -/
def CommitLoop.phase (loop : CommitLoop)
    (rest : List (StepClaim × Except OrchestratorError StepCompletion)) : DrivePhase :=
  match loop.ended with
  | none => .committing rest
  | some error => .returned (.error error)

section Drives

variable (drive : Drive) {t : Nat}
  {rest : List (StepClaim × Except OrchestratorError StepCompletion)}

/-- A drive takes one turn as the loop does. -/
theorem CommitLoop.turn_drives (loop : CommitLoop) (turn : BatchTurn)
    {w : Client.World Repository DriveCall} (shared : w.shared = loop.state)
    (stands : w.client = ⟨t, loop.phase ((turn.claim, turn.result) :: rest)⟩) :
    ((drive.client.world repository).run w turn.events).shared = (loop.turn turn).2.state ∧
      ((drive.client.world repository).run w turn.events).client =
        ⟨t, (loop.turn turn).2.phase rest⟩ := by
  rw [BatchTurn.events, Machine.run_append, Client.run_others, shared, stands]
  obtain ⟨ended, state⟩ := loop
  cases ended with
  | some error => exact ⟨rfl, rfl⟩
  | none =>
      obtain ⟨claim, result, others, clock⟩ := turn
      cases result with
      | error error => exact ⟨rfl, rfl⟩
      | ok completion =>
          show repository.next (repository.run state others)
              (.completeStep claim completion clock) = _ ∧
            drive.receive ⟨t, .committing ((claim, .ok completion) :: rest)⟩ (.proceed clock 0)
              (.completed ((repository.run state others).completeStep claim completion clock).1) = _
          rw [next_completeStep]
          simp only [CommitLoop.turn, CommitLoop.before]
          cases (repository.run state others).completeStep claim completion clock with
          | mk answer s => cases answer <;> exact ⟨rfl, rfl⟩

/-- A drive in its committing phase leaves the state that the loop leaves, and stands where the
loop does. -/
theorem commitLoop_drives (w : Client.World Repository DriveCall) (batch : List BatchTurn)
    (stands : w.client =
      ⟨t, .committing ((batch.map fun turn => (turn.claim, turn.result)) ++ rest)⟩) :
    ((drive.client.world repository).run w (batch.flatMap BatchTurn.events)).shared =
        ((commitLoop w.shared).after batch).state ∧
      ((drive.client.world repository).run w (batch.flatMap BatchTurn.events)).client =
        ⟨t, ((commitLoop w.shared).after batch).phase rest⟩ := by
  induction batch using Machine.history_induction generalizing rest with
  | nil => exact ⟨rfl, stands⟩
  | concat batch turn ih =>
      rw [List.map_append, List.append_assoc] at stands
      obtain ⟨shared, standing⟩ := ih stands
      rw [List.flatMap_append, List.flatMap_singleton, Machine.run_append, Machine.after_concat]
      exact CommitLoop.turn_drives drive _ turn shared standing

end Drives

namespace BatchTurn

/-- The execution ended with a completion, and the claim still holds the lease when its turn
comes. -/
def Finished (loop : CommitLoop) (turn : BatchTurn) : Prop :=
  (∃ completion, turn.result = .ok completion) ∧ ∃ run record lease,
    (loop.before turn).runs[turn.claim.runId]? = some run ∧
      run.steps[turn.claim.step.id]? = some record ∧ record.lease = some lease ∧
      lease.validFor turn.claim (turn.clock.call 0) = true

/-- The turn commits its completion. -/
def Committed (loop : CommitLoop) (turn : BatchTurn) : Prop :=
  ∃ run, (loop.turn turn).1 = some (.ok run)

/-- The claim was handed out, and a completion for it was built from the answer of its task. -/
structure Taken (ops : List Op) (turn : BatchTurn) : Prop where
  handed : turn.claim ∈ issued ops
  built : ∀ completion, turn.result = .ok completion →
    ∃ answer, completion = turn.claim.completion answer

/-- What `execute_claim` returns for a claim that was handed out makes a turn of the batch. -/
theorem taken_of_executeClaim {ops : List Op} {claim : StepClaim} (handed : claim ∈ issued ops)
    (executor : DurableExecutor) (s : Repository) (pace : Pace) (others : List Op)
    (clock : Clock) :
    BatchTurn.Taken ops ⟨claim, (executor.executeClaim s claim pace).1, others, clock⟩ := by
  refine ⟨handed, fun completion result => ?_⟩
  have executed : executor.executeClaim s claim pace =
      (.ok completion, (executor.executeClaim s claim pace).2) := Prod.ext result rfl
  exact DurableExecutor.executeClaim_completion executed

end BatchTurn

namespace CommitLoop

variable {loop : CommitLoop} {turn : BatchTurn}

/-- A turn commits just if the loop has not ended and its call succeeds. -/
theorem committed_iff : turn.Committed loop ↔ loop.ended = none ∧ ∃ completion run,
    turn.result = .ok completion ∧
      ((loop.before turn).completeStep turn.claim completion turn.clock).1 = .ok run := by
  unfold BatchTurn.Committed CommitLoop.turn
  split
  next error returned => simp [returned]
  next goes =>
    split
    next error failed => simp [failed]
    next completion result =>
      split
      next error s refused => simp [result, refused]
      next run s completed => simp [goes, result, completed]

/-- The loop goes on just from the turns that commit. -/
theorem goes_on_iff : (loop.turn turn).2.ended = none ↔ turn.Committed loop := by
  unfold BatchTurn.Committed CommitLoop.turn
  split
  · simp
  · split
    · simp
    · split
      · simp
      · simp

/-- A turn leaves a state that calls of the repository lead to. -/
theorem state_turn (loop : CommitLoop) (turn : BatchTurn) :
    ∃ more, (loop.turn turn).2.state = repository.run loop.state more := by
  unfold CommitLoop.turn
  split
  · exact ⟨turn.others, rfl⟩
  · split
    · exact ⟨turn.others, rfl⟩
    next completion result =>
      have called : repository.run loop.state
          (turn.others ++ [.completeStep turn.claim completion turn.clock]) =
          ((loop.before turn).completeStep turn.claim completion turn.clock).2 := by
        rw [Machine.run_append]
        rfl
      split
      next error s refused => exact ⟨_, by rw [called, refused]⟩
      next run s completed => exact ⟨_, by rw [called, completed]⟩

/-- The loop stays within the histories of the repository. -/
theorem state_after (ops : List Op) (batch : List BatchTurn) : ∃ more,
    ((commitLoop (repository.after ops)).after batch).state = repository.after (ops ++ more) := by
  induction batch using Machine.history_induction with
  | nil => exact ⟨[], by rw [List.append_nil]; rfl⟩
  | concat batch turn ih =>
      obtain ⟨more, reached⟩ := ih
      obtain ⟨later, left⟩ := state_turn ((commitLoop (repository.after ops)).after batch) turn
      refine ⟨more ++ later, ?_⟩
      rw [Machine.after_concat, ← List.append_assoc, Machine.after_append, ← reached]
      exact left

/-- A loop that goes on has committed all its turns. -/
theorem along_committed {s : Repository} {batch : List BatchTurn}
    (goes : ((commitLoop s).after batch).ended = none) :
    (commitLoop s).Along (fun loop turn => turn.Committed loop) batch := by
  induction batch using Machine.history_induction with
  | nil => exact Machine.along_nil
  | concat batch turn ih =>
      rw [Machine.after_concat] at goes
      have committed := goes_on_iff.mp goes
      exact (ih (committed_iff.mp committed).1).concat committed

end CommitLoop

namespace BatchTurn

variable {ops more : List Op} {loop : CommitLoop} {turn : BatchTurn}

/-- What a turn commits is finished. -/
theorem Committed.finished (committed : turn.Committed loop) : turn.Finished loop := by
  obtain ⟨-, completion, run', result, completed⟩ := CommitLoop.committed_iff.mp committed
  obtain ⟨run, record, lease, found, foundStep, leased, valid, -⟩ :=
    Repository.completeStep_ok completed
  exact ⟨⟨completion, result⟩, run, record, lease, found, foundStep, leased, valid⟩

/-- A loop that goes on commits a finished claim of its batch. -/
theorem Finished.committed (finished : turn.Finished loop) (taken : turn.Taken ops)
    (reached : loop.state = repository.after (ops ++ more)) (goes : loop.ended = none) :
    turn.Committed loop := by
  obtain ⟨⟨completion, result⟩, run, record, lease, found, foundStep, leased, valid⟩ := finished
  obtain ⟨answer, rfl⟩ := taken.built completion result
  have history : loop.before turn = repository.after (ops ++ more ++ turn.others) := by
    rw [CommitLoop.before, reached, ← Machine.after_append]
  have handed : turn.claim ∈ issued (ops ++ more ++ turn.others) :=
    (issued_extends (by rw [List.append_assoc]; exact List.prefix_append _ _)).subset taken.handed
  rw [history] at found
  obtain ⟨other, found', listed⟩ := listed_after _ turn.claim handed
  obtain rfl := Option.some.inj (found.symm.trans found')
  have sound := sound_after _ turn.claim.runId run found
  have accepted := completionMatchesClaim_iff.mpr
    (turn.claim.completion_commits (sound.fallback_known listed) answer)
  obtain ⟨_, run', s', -, completed, -⟩ := Repository.completeStep_of_lease _
    (Repository.keyed_after _) turn.claim _ turn.clock found foundStep leased valid accepted
  rw [← history] at completed
  exact CommitLoop.committed_iff.mpr ⟨goes, _, run', result, congrArg Prod.fst completed⟩

end BatchTurn

/-- The loop goes on through finished claims. -/
theorem CommitLoop.goes_of_finished {ops : List Op} {batch : List BatchTurn}
    (taken : ∀ turn ∈ batch, turn.Taken ops)
    (finished : (commitLoop (repository.after ops)).Along
      (fun loop turn => turn.Finished loop) batch) :
    ((commitLoop (repository.after ops)).after batch).ended = none := by
  induction batch using Machine.history_induction with
  | nil => rfl
  | concat batch turn ih =>
      obtain ⟨more, reached⟩ := state_after ops batch
      have goes := ih (fun other member => taken other (List.mem_append_left _ member))
        finished.init
      rw [Machine.after_concat]
      exact goes_on_iff.mpr (finished.last.committed
        (taken turn (List.mem_append_right _ List.mem_cons_self)) reached goes)

/-- Each finished claim of a batch is committed in its round just if no other stands before
it that is not finished when its turn comes. -/
theorem finished_work_kept_iff (ops : List Op) (batch : List BatchTurn)
    (taken : ∀ turn ∈ batch, turn.Taken ops) :
    (commitLoop (repository.after ops)).Along
        (fun loop turn => turn.Finished loop → turn.Committed loop) batch ↔
      ∀ before turn, before ++ [turn] <+: batch →
        turn.Finished ((commitLoop (repository.after ops)).after before) →
          (commitLoop (repository.after ops)).Along (fun loop other => other.Finished loop)
            before := by
  constructor
  · intro kept before turn within finished
    have committed := kept before turn within finished
    have earlier := CommitLoop.along_committed (CommitLoop.committed_iff.mp committed).1
    exact fun first other inside => (earlier first other inside).finished
  · intro alone before turn within finished
    have takes : ∀ other ∈ before ++ [turn], other.Taken ops :=
      fun other member => taken other (within.subset member)
    obtain ⟨more, reached⟩ := CommitLoop.state_after ops before
    have goes := CommitLoop.goes_of_finished
      (fun other member => takes other (List.mem_append_left _ member))
      (alone before turn within finished)
    exact finished.committed (takes turn (List.mem_append_right _ List.mem_cons_self)) reached goes

namespace BatchTurn

/-- The check that a turn is finished, on its parts. -/
theorem finished_iff {loop : CommitLoop} {turn : BatchTurn} : turn.Finished loop ↔
    turn.result.isOk = true ∧ ((loop.before turn).runs[turn.claim.runId]?.bind fun run =>
      run.steps[turn.claim.step.id]?.bind StepRecord.lease).any
        (fun lease => lease.validFor turn.claim (turn.clock.call 0)) = true := by
  simp only [Finished, Option.any_eq_true, Option.bind_eq_some_iff]
  constructor
  · rintro ⟨⟨completion, result⟩, run, record, lease, found, foundStep, leased, valid⟩
    exact ⟨by rw [result]; rfl, lease, ⟨run, found, record, foundStep, leased⟩, valid⟩
  · rintro ⟨built, lease, ⟨run, found, record, foundStep, leased⟩, valid⟩
    refine ⟨?_, run, record, lease, found, foundStep, leased, valid⟩
    cases result : turn.result with
    | error error => rw [result] at built; cases built
    | ok completion => exact ⟨completion, rfl⟩

instance (loop : CommitLoop) (turn : BatchTurn) : Decidable (turn.Finished loop) :=
  decidable_of_iff _ finished_iff.symm

/-- The loop has not ended after a turn just if the turn commits. -/
instance (loop : CommitLoop) (turn : BatchTurn) : Decidable (turn.Committed loop) :=
  decidable_of_iff ((loop.turn turn).2.ended.isNone = true)
    (Option.isNone_iff_eq_none.trans CommitLoop.goes_on_iff)

end BatchTurn

/-! Two independent steps of one run, claimed in one round. -/

namespace Sample

/-- The first step runs the task `backup`, the second one the task `work`. -/
def pairClaimed : List Op :=
  [.createRun (request [{ step "first" 1 false with task := ⟨"backup"⟩ }, step "second" 1 false] [])
    (.at 0), ask 0, ask 0]

/-- The turn of a claim that is executed at once and committed a millisecond later. -/
def turnOf (executor : DurableExecutor) (claim : StepClaim) : BatchTurn :=
  { claim, result := (executor.executeClaim (repository.after pairClaimed) claim ⟨.at 0, []⟩).1
    others := [], clock := .at 1 }

/-- The turns of both claims. -/
def pairBatch (executor : DurableExecutor) : List BatchTurn :=
  (issued pairClaimed).map (turnOf executor)

/-- An executor that resumes the run without the task of its first step. -/
def halfRegistered : DurableExecutor :=
  { durable fun _ _ => .ok .null with
    registry := fun id => if id = ⟨"work"⟩ then registry (fun _ _ => .ok .null) id else none }

theorem pairBatch_taken (executor : DurableExecutor) :
    ∀ turn ∈ pairBatch executor, turn.Taken pairClaimed := by
  intro turn member
  obtain ⟨claim, handed, rfl⟩ := List.mem_map.mp member
  exact BatchTurn.taken_of_executeClaim handed _ _ _ _ _

end Sample

/-- Where both tasks are registered, both completions are committed. -/
theorem finished_work_kept_iff_registered :
    (commitLoop (repository.after Sample.pairClaimed)).Along
      (fun loop turn => turn.Finished loop → turn.Committed loop)
      (Sample.pairBatch (Sample.durable fun _ _ => .ok .null)) := by
  have goes : ((commitLoop (repository.after Sample.pairClaimed)).after
      (Sample.pairBatch (Sample.durable fun _ _ => .ok .null))).ended.isNone = true := by
    decide +kernel
  have committed := CommitLoop.along_committed (Option.isNone_iff_eq_none.mp goes)
  refine (finished_work_kept_iff _ _ (Sample.pairBatch_taken _)).mpr ?_
  intro before turn within _ first other inside
  exact (committed first other
    ((inside.trans (List.prefix_append before [turn])).trans within)).finished

/-- Where the task of the first step is not registered, the error for it drops the completion
of the second, whose lease is live. -/
theorem finished_sibling_dropped :
    (∀ turn ∈ Sample.pairBatch Sample.halfRegistered, turn.Taken Sample.pairClaimed) ∧
      ¬ (commitLoop (repository.after Sample.pairClaimed)).Along
        (fun loop turn => turn.Finished loop → turn.Committed loop)
        (Sample.pairBatch Sample.halfRegistered) := by
  refine ⟨Sample.pairBatch_taken _, fun kept => ?_⟩
  have length : (Sample.pairBatch Sample.halfRegistered).length = 2 := by decide +kernel
  have dropped : ∀ turn ∈ (Sample.pairBatch Sample.halfRegistered).drop 1,
      turn.Finished ((commitLoop (repository.after Sample.pairClaimed)).after
          ((Sample.pairBatch Sample.halfRegistered).take 1)) ∧
        ¬ turn.Committed ((commitLoop (repository.after Sample.pairClaimed)).after
          ((Sample.pairBatch Sample.halfRegistered).take 1)) := by
    decide +kernel
  obtain ⟨first, second, batch⟩ := List.length_eq_two.mp length
  rw [batch] at kept dropped
  obtain ⟨finished, uncommitted⟩ := dropped second List.mem_cons_self
  exact uncommitted (kept [first] second List.prefix_rfl finished)

end Orchestrator
