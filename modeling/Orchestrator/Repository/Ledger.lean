import Orchestrator.Repository.Saturation

/-!
# Attempt histories

A claim appends an attempt to the history of its step; completions, recoveries and
cancellations close the last attempt without a look at its token. `Booked` is the link
between lease and history that makes them close the right one, `Spent` the order of the
tokens in a history.
-/

namespace Orchestrator

/-- The attempt is over. -/
structure StepAttempt.Over (attempt : StepAttempt) : Prop where
  finished : attempt.finishedAtMs.isSome = true
  stopped : attempt.status ≠ .running

/-- The attempt is in progress under the lease. -/
structure StepAttempt.Under (attempt : StepAttempt) (lease : StepLease) : Prop where
  unfinished : attempt.finishedAtMs = none
  running : attempt.status = .running
  token : attempt.leaseToken = lease.token
  worker : attempt.worker = lease.worker

/-- An update that ends an attempt in progress, and leaves it over if it was. -/
structure Closes (close : StepAttempt → StepAttempt) : Prop where
  number : ∀ attempt, (close attempt).number = attempt.number
  token : ∀ attempt, (close attempt).leaseToken = attempt.leaseToken
  ends : ∀ attempt, attempt.Over ∨ attempt.status = .running → (close attempt).Over

/-- Closing with the outcome of a record that does not run. -/
theorem closes_close (now : UInt64) {status : StepStatus} (stopped : status ≠ .running)
    (error : Option String) : Closes fun attempt => attempt.close now status error :=
  ⟨fun _ => rfl, fun _ => rfl, fun _ _ => ⟨rfl, stopped⟩⟩

/-- Closing at a cancellation. -/
theorem closes_cancel (now : UInt64) : Closes fun attempt =>
    if attempt.status == .running then
      { attempt with finishedAtMs := some now, status := .cancelled }
    else attempt := by
  refine ⟨fun attempt => ?_, fun attempt => ?_, fun attempt before => ?_⟩
  · split <;> rfl
  · split <;> rfl
  · split
    · exact ⟨rfl, by simp⟩
    next other =>
      obtain past | running := before
      · exact past
      · exact absurd (beq_iff_eq.mpr running) other

/-- Closing the last attempt of a history keeps its tokens. -/
theorem Closes.tokens {close : StepAttempt → StepAttempt} (closes : Closes close)
    (history : List StepAttempt) :
    (history.modifyLast close).map StepAttempt.leaseToken =
      history.map StepAttempt.leaseToken := by
  cases history using List.reverseRecOn with
  | nil => rfl
  | append_singleton earlier attempt _ =>
      rw [List.modifyLast_concat, List.map_append, List.map_append, List.map_singleton,
        List.map_singleton, closes.token]

/-- A worker's completion does not leave its step running. -/
theorem Commits.stopped {claim : StepClaim} {manifest : RunManifest}
    {completion : StepCompletion} (h : Commits claim manifest completion) :
    completion.status ≠ .running := by
  cases h with
  | retrying => simp [StepCompletion.retrying]
  | fallback => simp [StepCompletion.fallback]
  | succeeded => simp [StepCompletion.succeeded]
  | failed => simp [StepCompletion.failed]

/-- A recovery gives up the lease and closes the attempt with the record's outcome. -/
theorem Recovers.closed {runId : RunId} {step : StepSpec} {record recovered : StepRecord}
    {now : UInt64} {event : ExecutionEvent}
    (h : Recovers runId step record now recovered event) :
    recovered.lease = none ∧ recovered.status ≠ .running ∧
      recovered.history = record.history.modifyLast fun attempt =>
        attempt.close now recovered.status recovered.error := by
  cases h with
  | retrying => exact ⟨rfl, by simp [StepRecord.released], rfl⟩
  | fallback => exact ⟨rfl, by simp [StepRecord.released], rfl⟩
  | failed => exact ⟨rfl, by simp [StepRecord.released], rfl⟩

/-- The attempts are numbered, as far as a word can, and all are over but the last one of
a leased record, which is the lease's. -/
structure StepRecord.Booked (record : StepRecord) : Prop where
  numbered : ∀ (i : Nat) (attempt : StepAttempt), record.history[i]? = some attempt →
    attempt.number.toNat = min (i + 1) UInt32.maxNat
  released : record.lease = none → ∀ attempt ∈ record.history, attempt.Over
  leased : ∀ lease, record.lease = some lease → ∃ earlier attempt,
    record.history = earlier ++ [attempt] ∧ (∀ other ∈ earlier, other.Over) ∧
      attempt.Under lease

namespace StepRecord.Booked

variable {record record' : StepRecord}

/-- The record after its last attempt was closed and its lease given up. -/
theorem ended (h : record.Booked) {close : StepAttempt → StepAttempt} (closes : Closes close)
    (history : record'.history = record.history.modifyLast close)
    (unleased : record'.lease = none) : record'.Booked := by
  have settled : ∀ earlier attempt, record.history = earlier ++ [attempt] →
      (∀ other ∈ earlier, other.Over) ∧ (attempt.Over ∨ attempt.status = .running) := by
    intro earlier attempt split
    cases leased : record.lease with
    | none =>
        have all := h.released leased
        rw [split] at all
        exact ⟨fun other member => all other (List.mem_append_left _ member),
          .inl (all attempt (List.mem_append_right _ List.mem_cons_self))⟩
    | some lease =>
        obtain ⟨_, _, same, before, under⟩ := h.leased lease leased
        obtain ⟨rfl, last⟩ := List.append_inj' (split.symm.trans same) rfl
        obtain rfl := List.singleton_inj.mp last
        exact ⟨before, .inr under.running⟩
  cases past : record.history using List.reverseRecOn with
  | nil =>
      have none : record'.history = [] := by rw [history, past]; rfl
      refine ⟨?_, ?_, fun lease leased => ?_⟩
      · simp [none]
      · simp [none]
      · rw [unleased] at leased
        cases leased
  | append_singleton earlier attempt _ =>
      rw [past, List.modifyLast_concat] at history
      obtain ⟨before, last⟩ := settled earlier attempt past
      refine ⟨fun i other found => ?_, fun _ other member => ?_, fun lease leased => ?_⟩
      · rw [history, List.getElem?_append] at found
        split at found
        next below =>
          apply h.numbered i other
          rw [past, List.getElem?_append_left below]
          exact found
        next beyond =>
          rw [List.getElem?_singleton, Option.ite_none_right_eq_some] at found
          obtain ⟨zero, same⟩ := found
          obtain rfl := Option.some.inj same
          rw [closes.number]
          apply h.numbered i attempt
          rw [past, List.getElem?_append_right (Nat.not_lt.mp beyond), zero]
          rfl
      · rw [history] at member
        obtain member | member := List.mem_append.mp member
        · exact before other member
        · obtain rfl := List.mem_singleton.mp member
          exact closes.ends attempt last
      · rw [unleased] at leased
        cases leased

/-- The record with an attempt appended by a claim. -/
theorem claimed (h : record.Booked) (free : record.lease = none)
    (counted : record.attempts.toNat = min record.history.length UInt32.maxNat) (runId : RunId)
    (taskId : TaskId) (worker : WorkerId) (token now leaseMs : UInt64) :
    (record.claim runId taskId worker token now leaseMs).Booked := by
  refine ⟨fun i attempt found => ?_, fun unleased => ?_, fun lease leased => ?_⟩
  · rw [StepRecord.claim, List.getElem?_append] at found
    split at found
    · exact h.numbered i attempt found
    next beyond =>
      rw [List.getElem?_singleton, Option.ite_none_right_eq_some] at found
      obtain ⟨zero, same⟩ := found
      obtain rfl := Option.some.inj same
      rw [UInt32.toNat_saturatingAdd, counted, UInt32.toNat_one]
      omega
  · cases unleased
  · obtain rfl := Option.some.inj leased
    exact ⟨record.history, _, rfl, h.released free, rfl, rfl, rfl, rfl⟩

end StepRecord.Booked

/-- All records of the run are booked. -/
def RunRecord.Booked (run : RunRecord) : Prop :=
  ∀ (id : StepId) (record : StepRecord), run.steps[id]? = some record → record.Booked

section Steps

variable {token : UInt64} {action : RunAction} {run run' : RunRecord} {id : StepId}

theorem RecordStep.booked {record' : StepRecord} (h : RecordStep token run action id record')
    (sound : run.Sound) (booked : run.Booked) : record'.Booked := by
  cases h with
  | @claim step taskId task dependencies worker seen now leaseMs running listed candidate known =>
      rw [RunRecord.claimed, RunRecord.entry]
      cases found : run.steps[step.id]? with
      | none =>
          refine .claimed ⟨?_, ?_, ?_⟩ rfl rfl _ _ _ _ _ _
          · simp [StepRecord.new]
          · simp [StepRecord.new]
          · simp [StepRecord.new]
      | some record =>
          exact (booked _ record found).claimed (Repository.waits_of_candidate candidate found).1
            (sound.records _ _ found).counted _ _ _ _ _ _
  | renew claim now again leaseMs found leased valid =>
      have old := booked _ _ found
      obtain ⟨earlier, attempt, history, before, under⟩ := old.leased _ leased
      refine ⟨old.numbered, fun unleased => (by cases unleased), fun lease renewed => ?_⟩
      obtain rfl := Option.some.inj renewed
      exact ⟨earlier, attempt, history, before, under.unfinished, under.running, under.token,
        under.worker⟩
  | complete claim completion now retryNow finishNow found leased valid accepted =>
      have stopped := (completionMatchesClaim_iff.mp accepted).stopped
      exact (booked _ _ found).ended (closes_close finishNow stopped completion.error) rfl rfl
  | cancel _ now found active =>
      unfold StepRecord.cancel
      split
      · exact booked _ _ found
      · exact (booked _ _ found).ended (closes_cancel now) rfl rfl
  | recover now listed found expired =>
      obtain ⟨unleased, stopped, history⟩ := (recoverExpiredStep_eq_some expired).2.closed
      exact (booked _ _ found).ended (closes_close now stopped _) history unleased

theorem RunStep.booked (h : RunStep token action run run') (sound : run.Sound)
    (booked : run.Booked) : run'.Booked := by
  intro id record found
  obtain old | changed := h.record_cases found
  · exact booked id record old
  · exact changed.booked sound booked

end Steps

/-- Every record is booked, after every history of calls. -/
theorem booked_after (ops : List Op) : (repository.after ops).Every RunRecord.Booked := by
  have both : (repository.after ops).Every fun run => run.Sound ∧ run.Booked := by
    refine Repository.runs_invariant (fun request now sequence eventNow accepted => ?_) ?_ ops
    · refine ⟨.created now sequence eventNow accepted, fun id record found => ?_⟩
      simp [RunRecord.created, RunRecord.new] at found
    · rintro token action run run' step ⟨sound, booked⟩
      exact ⟨sound.step step, step.booked sound booked⟩
  exact fun k run found => (both k run found).2

/-- The lease tokens of the attempts of a record. -/
def StepRecord.tokens (record : StepRecord) : List UInt64 :=
  record.history.map StepAttempt.leaseToken

/-- The lease tokens of the attempts that the run has of a step. -/
def RunRecord.tokens (run : RunRecord) (id : StepId) : List UInt64 :=
  (run.steps[id]?).elim [] StepRecord.tokens

theorem RunRecord.tokens_of_found {run : RunRecord} {id : StepId} {record : StepRecord}
    (found : run.steps[id]? = some record) : run.tokens id = record.tokens := by
  rw [RunRecord.tokens, found]
  rfl

/-- A claim adds its token to those of its step, and nothing else changes them. -/
theorem RecordStep.tokens {token : UInt64} {action : RunAction} {run : RunRecord} {id : StepId}
    {record' : StepRecord} (h : RecordStep token run action id record') :
    record'.tokens = run.tokens id ++ if action.isClaim then [token] else [] := by
  have kept : ∀ {record : StepRecord} {close : StepAttempt → StepAttempt},
      run.steps[id]? = some record → Closes close →
      record'.history = record.history.modifyLast close → record'.tokens = run.tokens id := by
    intro record close found closes history
    rw [RunRecord.tokens_of_found found, StepRecord.tokens, history, closes.tokens]
    rfl
  cases h with
  | @claim step taskId task dependencies worker seen now leaseMs running listed candidate known =>
      rw [RunRecord.claimed, RunRecord.entry, StepRecord.claim, StepRecord.tokens,
        List.map_append, RunRecord.tokens]
      cases run.steps[step.id]? with
      | none => rfl
      | some record => rfl
  | renew claim now again leaseMs found leased valid =>
      rw [RunRecord.tokens_of_found found]
      exact (List.append_nil _).symm
  | complete claim completion now retryNow finishNow found leased valid accepted =>
      have stopped := (completionMatchesClaim_iff.mp accepted).stopped
      exact (kept found (closes_close finishNow stopped completion.error) rfl).trans
        (List.append_nil _).symm
  | @cancel record _ now found active =>
      refine Eq.trans ?_ (List.append_nil _).symm
      by_cases settled : (record.status == .succeeded || record.status == .failed) = true
      · rw [RunRecord.tokens_of_found found, StepRecord.cancel, if_pos settled]
      · exact kept found (closes_cancel now) (by rw [StepRecord.cancel, if_neg settled])
  | recover now listed found expired =>
      obtain ⟨-, stopped, history⟩ := (recoverExpiredStep_eq_some expired).2.closed
      exact (kept found (closes_close now stopped _) history).trans (List.append_nil _).symm

theorem RunAction.issued_length {action : RunAction} (claimed : action.isClaim = true) :
    action.issued.length = 1 := by
  cases action with
  | claim handed => rfl
  | _ => cases claimed

/-- The tokens of a history have been handed out, in their order. -/
structure Spent (claims : List StepClaim) (s : Repository) : Prop where
  counted : Counted claims s
  handed : ∀ (k : RunId) (run : RunRecord) (id : StepId), s.runs[k]? = some run →
    ∀ token ∈ run.tokens id, token.toNat ≤ s.nextLeaseToken.toNat
  increasing : claims.length ≤ UInt64.maxNat → ∀ (k : RunId) (run : RunRecord) (id : StepId),
    s.runs[k]? = some run → (run.tokens id).Pairwise (· < ·)

/-- One step of a run appends at most the next token to those of a step. -/
theorem RunStep.tokens {token : UInt64} {action : RunAction} {run run' : RunRecord}
    (h : RunStep token action run run') (id : StepId) :
    run'.tokens id = run.tokens id ∨ run'.tokens id = [] ∨
      action.isClaim = true ∧ run'.tokens id = run.tokens id ++ [token] := by
  cases found : run'.steps[id]? with
  | none => exact .inr (.inl (by rw [RunRecord.tokens, found]; rfl))
  | some record =>
      rw [RunRecord.tokens_of_found found]
      obtain old | changed := h.record_cases found
      · exact .inl (RunRecord.tokens_of_found old).symm
      · have tokens := changed.tokens
        cases claimed : action.isClaim with
        | true => exact .inr (.inr ⟨rfl, by rw [tokens, claimed]; rfl⟩)
        | false => exact .inl (by rw [tokens, claimed]; exact List.append_nil _)

theorem spent_kept : Kept (fun _ _ _ => True) Spent where
  free _ _ _ := trivial
  create request now sequence eventNow accepted creation spent := by
    have fresh : ∀ id, (RunRecord.created request now sequence eventNow).tokens id = [] :=
      fun id => by simp [RunRecord.tokens, RunRecord.created, RunRecord.new]
    refine ⟨counted_kept.create _ _ _ _ accepted creation spent.counted,
      fun k run id found => ?_, fun few k run id found => ?_⟩
    · rw [creation.runs] at found
      split at found
      · obtain rfl := Option.some.inj found
        simp [fresh]
      · rw [creation.token]
        exact spent.handed k run id found
    · rw [creation.runs] at found
      split at found
      · obtain rfl := Option.some.inj found
        simp [fresh]
      · exact spent.increasing few k run id found
  move {C s k action run run' s'} keyed sound move _ spent := by
    have counted := counted_kept.move keyed sound move trivial spent.counted
    have grows := move.token_le
    refine ⟨counted, fun other found id stored token member => ?_,
      fun few other found id stored => ?_⟩
    · rw [move.runs] at stored
      split at stored
      · obtain rfl := Option.some.inj stored
        obtain same | none | ⟨claimed, tokens⟩ := move.step.tokens id
        · rw [same] at member
          exact Nat.le_trans (spent.handed k run id move.found token member) grows
        · simp [none] at member
        · rw [tokens] at member
          obtain member | member := List.mem_append.mp member
          · exact Nat.le_trans (spent.handed k run id move.found token member) grows
          · rw [List.mem_singleton.mp member, move.token_of_claim claimed]
      · exact Nat.le_trans (spent.handed other found id stored token member) grows
    · rw [List.length_append] at few
      have increasing := spent.increasing (Nat.le_of_add_right_le few)
      rw [move.runs] at stored
      split at stored
      · obtain rfl := Option.some.inj stored
        obtain same | none | ⟨claimed, tokens⟩ := move.step.tokens id
        · rw [same]
          exact increasing k run id move.found
        · simp [none]
        · rw [tokens, List.pairwise_append]
          refine ⟨increasing k run id move.found, List.pairwise_singleton _ _, ?_⟩
          intro earlier member later last
          -- the counter has not stopped, so the next token is above all tokens handed out
          have below := spent.handed k run id move.found earlier member
          have counter := spent.counted.counter
          have one : action.issued.length = 1 := RunAction.issued_length claimed
          rw [List.mem_singleton.mp last, UInt64.lt_iff_toNat_lt,
            UInt64.toNat_saturatingAdd_one (by omega)]
          omega
      · exact increasing other found id stored

/-- Whatever ends the attempt in progress closes the last attempt of the history. -/
structure StepRecord.Ends (record : StepRecord) (attempt : StepAttempt) : Prop where
  completed : ∀ completion retryNow finishNow,
    (record.complete completion retryNow finishNow).history =
      record.history.dropLast ++ [attempt.close finishNow completion.status completion.error]
  recovered : ∀ runId step now recovered event,
    recoverExpiredStep runId step record now = some (recovered, event) →
      recovered.history =
        record.history.dropLast ++ [attempt.close now recovered.status recovered.error]
  cancelled : ∀ now, (record.cancel now).history =
    record.history.dropLast ++ [{ attempt with finishedAtMs := some now, status := .cancelled }]

/-- The history of the record is a ledger of its attempts. -/
structure StepRecord.Ledger (record : StepRecord) : Prop where
  numbered : (record.history.map fun attempt => attempt.number.toNat) =
    List.range' 1 record.attempts.toNat
  increasing : record.tokens.Pairwise (· < ·)
  finished : ∀ attempt ∈ record.history.dropLast, attempt.finishedAtMs.isSome = true
  running_iff : record.status = .running ↔ record.lease.isSome = true
  leased_iff : record.lease.isSome = true ↔
    ∃ attempt ∈ record.history.getLast?, attempt.finishedAtMs = none ∧ attempt.status = .running
  leased : ∀ lease, record.lease = some lease → ∃ attempt ∈ record.history.getLast?,
    attempt.Under lease ∧ record.Ends attempt
  released : record.lease = none → ∀ now, (record.cancel now).history = record.history

namespace StepRecord.Booked

variable {record : StepRecord}

theorem numbers (h : record.Booked) (few : record.history.length ≤ UInt32.maxNat) :
    (record.history.map fun attempt => attempt.number.toNat) =
      List.range' 1 record.history.length := by
  refine List.ext_getElem? fun i => ?_
  rw [List.getElem?_map]
  cases found : record.history[i]? with
  | none =>
      rw [List.getElem?_eq_none_iff] at found
      exact (List.getElem?_eq_none (by rwa [List.length_range'])).symm
  | some attempt =>
      obtain ⟨below, -⟩ := List.getElem?_eq_some_iff.mp found
      have number := h.numbered i attempt found
      rw [List.getElem?_range' below, Option.map_some, number]
      exact congrArg some (by omega)

/-- The attempt in progress is the last one, and is the one that is ended. -/
theorem holder (h : record.Booked) {lease : StepLease} (running : record.status = .running)
    (leased : record.lease = some lease) :
    ∃ attempt ∈ record.history.getLast?, attempt.Under lease ∧ record.Ends attempt := by
  obtain ⟨earlier, attempt, history, -, under⟩ := h.leased lease leased
  have closed : ∀ close : StepAttempt → StepAttempt,
      record.history.modifyLast close = record.history.dropLast ++ [close attempt] := by
    intro close
    rw [history, List.modifyLast_concat, List.dropLast_concat]
  refine ⟨attempt, by rw [history]; exact List.getLast?_concat, under, ?_, ?_, ?_⟩
  · intro completion retryNow finishNow
    exact closed _
  · intro runId step now recovered event expired
    obtain ⟨-, -, closing⟩ := (recoverExpiredStep_eq_some expired).2.closed
    exact closing.trans (closed _)
  · intro now
    have unsettled : ¬ (record.status == .succeeded || record.status == .failed) = true := by
      simp [running]
    have progress : (attempt.status == .running) = true := beq_iff_eq.mpr under.running
    rw [StepRecord.cancel, if_neg unsettled]
    refine (closed _).trans ?_
    rw [if_pos progress]

/-- A cancellation leaves a history alone that has no attempt in progress. -/
theorem cancel_history (h : record.Booked) (released : record.lease = none) (now : UInt64) :
    (record.cancel now).history = record.history := by
  have all := h.released released
  unfold StepRecord.cancel
  split
  · rfl
  · cases past : record.history using List.reverseRecOn with
    | nil => rfl
    | append_singleton earlier attempt _ =>
        have last := all attempt (past ▸ List.mem_append_right _ List.mem_cons_self)
        have stopped : ¬ (attempt.status == .running) = true :=
          fun running => last.stopped (beq_iff_eq.mp running)
        change List.modifyLast _ (earlier ++ [attempt]) = _
        rw [List.modifyLast_concat, if_neg stopped]

/-- All attempts but the last one are finished. -/
theorem finished (h : record.Booked) {attempt : StepAttempt}
    (member : attempt ∈ record.history.dropLast) : attempt.finishedAtMs.isSome = true := by
  cases leased : record.lease with
  | none => exact (h.released leased attempt ((List.dropLast_sublist _).subset member)).finished
  | some lease =>
      obtain ⟨earlier, last, history, before, -⟩ := h.leased lease leased
      rw [history, List.dropLast_concat] at member
      exact (before attempt member).finished

/-- The record has a lease just while its last attempt is in progress. -/
theorem leased_iff (h : record.Booked) : record.lease.isSome = true ↔
    ∃ attempt ∈ record.history.getLast?, attempt.finishedAtMs = none ∧
      attempt.status = .running := by
  constructor
  · intro held
    obtain ⟨lease, leased⟩ := Option.isSome_iff_exists.mp held
    obtain ⟨earlier, attempt, history, -, under⟩ := h.leased lease leased
    exact ⟨attempt, by rw [history]; exact List.getLast?_concat, under.unfinished, under.running⟩
  · rintro ⟨attempt, last, unfinished, -⟩
    cases leased : record.lease with
    | some lease => rfl
    | none =>
        have finished := (h.released leased attempt (List.mem_of_getLast? last)).finished
        rw [unfinished] at finished
        cases finished

end StepRecord.Booked

/-- The histories of all records whose workflows ask for fewer than 2 ^ 32 - 1 attempts are
ledgers. -/
def Ledgers (ops : List Op) : Prop :=
  ∀ (k : RunId) (run : RunRecord), (repository.after ops).runs[k]? = some run →
    (∀ step ∈ run.workflow.steps, step.policy.retry.maxAttempts < 0xFFFFFFFF) →
    ∀ (id : StepId) (record : StepRecord), run.steps[id]? = some record → record.Ledger

/-- Histories are ledgers while fewer than 2 ^ 64 claims are handed out and completed as
issued. -/
theorem histories_are_ledgers (ops : List Op) (genuine : Genuine ops)
    (few : (issued ops).length < 2 ^ 64) : Ledgers ops := by
  intro k run found bounded id record foundStep
  have few : (issued ops).length ≤ UInt64.maxNat := Nat.le_of_lt_succ few
  have booked := booked_after ops k run found id record foundStep
  have safe := (sound_after ops k run found).records id record foundStep
  have spent := spent_kept.after ⟨⟨rfl, by simp⟩, by simp [Repository.empty],
    by simp [Repository.empty]⟩ ops (guarded_true ops)
  obtain ⟨step, listed, rfl⟩ := safe.listed
  have budgeted := ((tracked_after genuine).budgeted few k run found).records step listed record
    foundStep
  have short : record.history.length ≤ UInt32.maxNat := by
    have bound := UInt32.lt_iff_toNat_lt.mp (bounded step listed)
    have budget : step.policy.retry.budget.toNat = max step.policy.retry.maxAttempts.toNat 1 := by
      rw [RetryPolicy.budget, UInt32.toNat_max, UInt32.toNat_one]
    have top : (0xFFFFFFFF : UInt32).toNat = UInt32.maxNat := by decide
    have large : 1 < UInt32.maxNat := by decide
    obtain below | ⟨exceeds, -⟩ := budgeted.within
    · omega
    · omega
  have counts : record.attempts.toNat = record.history.length := by
    rw [safe.counted]
    exact Nat.min_eq_left short
  refine ⟨?_, ?_, fun attempt => booked.finished, safe.leased.symm, booked.leased_iff, ?_,
    booked.cancel_history⟩
  · rw [counts]
    exact booked.numbers short
  · rw [← RunRecord.tokens_of_found foundStep]
    exact spent.increasing few k run step.id found
  · intro lease leased
    exact booked.holder (safe.leased.mp (by rw [leased]; rfl)) leased

/-- The step whose fallback is claimed after its lease was lost has a ledger of two attempts. -/
theorem histories_are_ledgers_fallenBack : ∃ record,
    (repository.after fallenBack).record Sample.runId ⟨"only"⟩ = some record ∧
      record.attempts = 2 ∧ record.Ledger := by
  have stored : (((repository.after fallenBack).runs[Sample.runId]?).bind fun run =>
      (run.steps[(⟨"only"⟩ : StepId)]?).map fun record => (run.workflow.steps, record.attempts)) =
      some ([Sample.step "only" 1 true], 2) := by
    decide +kernel
  obtain ⟨run, found, fields⟩ := Option.bind_eq_some_iff.mp stored
  obtain ⟨record, foundStep, fields⟩ := Option.map_eq_some_iff.mp fields
  obtain ⟨steps, attempts⟩ := Prod.mk.inj fields
  refine ⟨record, Repository.record_eq_some.mpr ⟨run, found, foundStep⟩, attempts, ?_⟩
  refine histories_are_ledgers fallenBack (.of_plain (by simp [fallenBack, Sample.ask]))
    (by decide +kernel) Sample.runId run found (fun step listed => ?_) ⟨"only"⟩ record foundStep
  rw [steps] at listed
  obtain rfl := List.mem_singleton.mp listed
  decide

/-- A history of 2 ^ 64 claims has two attempts of a step under one token. -/
theorem token_repeated :
    Genuine (Sample.overrun (2 ^ 64 - 2)) ∧ ¬ Ledgers (Sample.overrun (2 ^ 64 - 2)) := by
  obtain ⟨genuine, run, record, found, -, steps, foundStep, -, -, -, -, -, tokens, -⟩ :=
    overrun_after (Nat.le_refl (2 ^ 64 - 2))
  refine ⟨genuine, fun ledgers => ?_⟩
  have ledger := ledgers _ run found (fun step listed => ?_) _ record foundStep
  · have increasing := ledger.increasing
    rw [StepRecord.tokens, tokens] at increasing
    exact absurd increasing (by decide)
  · rw [steps] at listed
    obtain rfl := List.mem_singleton.mp listed
    decide

end Orchestrator
