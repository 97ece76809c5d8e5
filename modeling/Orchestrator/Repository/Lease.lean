import Orchestrator.Foundation.Fallible
import Orchestrator.Repository.Terminal

/-!
# Lease tokens and fencing

Tokens come from one counter of the repository. `Counted` ties the counter to
the claims handed out, `Held` every live lease to the claim it was handed out
with. A claim is `Dead` once its token is spent and no lease of its step carries
it; a dead claim stays dead and can neither renew nor complete.
-/

namespace Orchestrator

/-- The token counter is the number of claims, as far as it can count. -/
structure Counted (claims : List StepClaim) (s : Repository) : Prop where
  counter : s.nextLeaseToken.toNat = min claims.length UInt64.maxNat
  tokens : ∀ (i : Nat) (claim : StepClaim), claims[i]? = some claim →
    claim.leaseToken.toNat = min (i + 1) UInt64.maxNat

/-- What a claim carries of its run and of the counter. -/
theorem RunStep.claim_fields {token : UInt64} {claim : StepClaim} {run run' : RunRecord}
    (h : RunStep token (.claim claim) run run') :
    claim.leaseToken = token ∧ claim.runId = run.runId := by
  cases h
  exact ⟨rfl, rfl⟩

theorem counted_kept : Kept (fun _ _ _ => True) Counted where
  free _ _ _ := trivial
  create _ _ _ _ _ creation counted := ⟨by rw [creation.token, counted.counter], counted.tokens⟩
  move {C s k action run run' s'} keyed sound move _ counted := by
    cases action with
    | claim claim =>
        obtain ⟨token, -⟩ := move.step.claim_fields
        have counter : s'.nextLeaseToken.toNat = min (C.length + 1) UInt64.maxNat := by
          rw [move.token, RunAction.isClaim, if_pos rfl, UInt64.toNat_saturatingAdd,
            counted.counter, UInt64.toNat_one]
          omega
        refine ⟨by simpa [RunAction.issued] using counter, ?_⟩
        intro i other found
        rw [RunAction.issued, List.getElem?_append] at found
        split at found
        · exact counted.tokens i other found
        next beyond =>
          rw [List.getElem?_singleton, Option.ite_none_right_eq_some] at found
          obtain ⟨last, same⟩ := found
          obtain rfl := Option.some.inj same
          rw [token, ← move.token_of_claim rfl, counter]
          omega
    | _ =>
        refine ⟨?_, by simpa [RunAction.issued] using counted.tokens⟩
        rw [move.token]
        simpa [RunAction.issued, RunAction.isClaim] using counted.counter

theorem counted_after (ops : List Op) : Counted (issued ops) (repository.after ops) :=
  counted_kept.after ⟨rfl, by simp⟩ ops (guarded_true ops)

namespace Counted

variable {claims : List StepClaim} {s : Repository}

theorem token_le (h : Counted claims s) {claim : StepClaim} (member : claim ∈ claims) :
    claim.leaseToken.toNat ≤ s.nextLeaseToken.toNat := by
  obtain ⟨i, bound, found⟩ := List.getElem_of_mem member
  have token := h.tokens i claim (by rw [List.getElem?_eq_getElem bound, found])
  rw [token, h.counter]
  omega

/-- As long as the counter has not stopped, no two claims share a token. -/
theorem nodup (h : Counted claims s) (few : claims.length ≤ UInt64.maxNat) :
    (claims.map StepClaim.leaseToken).Nodup := by
  rw [List.nodup_iff_getElem?_ne_getElem?]
  intro i j less bound
  rw [List.length_map] at bound
  rw [List.getElem?_map, List.getElem?_map, List.getElem?_eq_getElem bound,
    List.getElem?_eq_getElem (Nat.lt_trans less bound)]
  intro same
  have left := h.tokens i _ (List.getElem?_eq_getElem (Nat.lt_trans less bound))
  have right := h.tokens j _ (List.getElem?_eq_getElem bound)
  have equal : (claims[i]).leaseToken.toNat = (claims[j]).leaseToken.toNat :=
    congrArg UInt64.toNat (Option.some.inj same)
  omega

end Counted

/-- The record of a step that holds a lease after a change held it before, except
for the claim that handed it out. -/
theorem RecordStep.lease_cases {token : UInt64} {action : RunAction} {run : RunRecord}
    {id : StepId} {record' : StepRecord} {lease' : StepLease}
    (h : RecordStep token run action id record') (leased : record'.lease = some lease') :
    (∃ claim, action = .claim claim ∧ claim.runId = run.runId ∧ claim.step.id = id ∧
      claim.leaseToken = lease'.token ∧ claim.worker = lease'.worker) ∨
    ∃ record lease, run.steps[id]? = some record ∧ record.lease = some lease ∧
      lease.token = lease'.token ∧ lease.worker = lease'.worker := by
  cases h with
  | claim =>
      obtain rfl := Option.some.inj leased
      exact .inl ⟨_, rfl, rfl, rfl, rfl, rfl⟩
  | renew claim now again leaseMs found before =>
      obtain rfl := Option.some.inj leased
      exact .inr ⟨_, _, found, before, rfl, rfl⟩
  | complete => cases leased
  | cancel id now found active =>
      unfold StepRecord.cancel at leased
      split at leased
      · exact .inr ⟨_, _, found, leased, rfl, rfl⟩
      · cases leased
  | recover now listed found expired =>
      cases (recoverExpiredStep_eq_some expired).2 <;> cases leased

/-- Every live lease belongs to a claim that was handed out. -/
def Held (claims : List StepClaim) (s : Repository) : Prop :=
  ∀ (k : RunId) (run : RunRecord) (id : StepId) (record : StepRecord) (lease : StepLease),
    s.runs[k]? = some run → run.steps[id]? = some record → record.lease = some lease →
      ∃ claim ∈ claims, claim.runId = k ∧ claim.step.id = id ∧
        claim.leaseToken = lease.token ∧ claim.worker = lease.worker

theorem held_kept : Kept (fun _ _ _ => True) Held where
  free _ _ _ := trivial
  create request now sequence eventNow accepted creation held := by
    intro k run id record lease found foundStep leased
    rw [creation.runs] at found
    split at found
    · obtain rfl := Option.some.inj found
      simp [RunRecord.created, RunRecord.new] at foundStep
    · exact held k run id record lease found foundStep leased
  move {C s k action run run' s'} keyed sound move _ held := by
    intro k' other id record lease found foundStep leased
    have before : ∀ {run : RunRecord} {record : StepRecord} {lease' : StepLease},
        s.runs[k']? = some run → run.steps[id]? = some record → record.lease = some lease' →
        lease'.token = lease.token → lease'.worker = lease.worker →
        ∃ claim ∈ C ++ action.issued, claim.runId = k' ∧ claim.step.id = id ∧
          claim.leaseToken = lease.token ∧ claim.worker = lease.worker := by
      intro run record lease' found foundStep leased token worker
      obtain ⟨claim, member, runId, stepId, sameToken, sameWorker⟩ :=
        held k' run id record lease' found foundStep leased
      exact ⟨claim, List.mem_append_left _ member, runId, stepId, sameToken.trans token,
        sameWorker.trans worker⟩
    rw [move.runs] at found
    split at found
    next same =>
      subst same
      obtain rfl := Option.some.inj found
      obtain old | changed := move.step.record_cases foundStep
      · exact before move.found old leased rfl rfl
      · obtain ⟨claim, rfl, runId, stepId, token, worker⟩ | ⟨_, _, old, held, token, worker⟩ :=
          changed.lease_cases leased
        · exact ⟨claim, List.mem_append_right _ List.mem_cons_self,
            runId.trans (move.own keyed), stepId, token, worker⟩
        · exact before move.found old held token worker
    · exact before found foundStep leased rfl rfl

theorem held_after (ops : List Op) : Held (issued ops) (repository.after ops) :=
  held_kept.after (by intro k run id record lease found; simp [Repository.empty] at found) ops
    (guarded_true ops)

/-- The claim's token is spent and no lease of its step carries it. -/
structure Dead (claim : StepClaim) (s : Repository) : Prop where
  spent : claim.leaseToken.toNat ≤ s.nextLeaseToken.toNat
  stored : ∃ run, s.runs[claim.runId]? = some run
  unleased : ∀ (run : RunRecord) (record : StepRecord) (lease : StepLease),
    s.runs[claim.runId]? = some run → run.steps[claim.step.id]? = some record →
      record.lease = some lease → lease.token ≠ claim.leaseToken

namespace Dead

variable {claim : StepClaim} {s : Repository}

/-- A dead claim has lost its lease for every renewal. -/
theorem renewStep (h : Dead claim s) (leaseMs : UInt64) (clock : Clock) :
    s.renewStep claim leaseMs clock = (.error (.leaseLost claim.runId claim.step.id), s) := by
  obtain ⟨run, found⟩ := h.stored
  simp only [Repository.renewStep, found]
  split
  · rfl
  next record foundStep =>
    split
    · rfl
    next lease leased =>
      have other := h.unleased run record lease found foundStep leased
      simp [StepLease.validFor, other]

/-- A dead claim has lost its lease for every completion. -/
theorem completeStep (h : Dead claim s) (completion : StepCompletion) (clock : Clock) :
    s.completeStep claim completion clock =
      (.error (.leaseLost claim.runId claim.step.id), s) := by
  obtain ⟨run, found⟩ := h.stored
  simp only [Repository.completeStep, found]
  split
  · rfl
  next record foundStep =>
    cases leased : record.lease with
    | none => simp
    | some lease =>
        have other := h.unleased run record lease found foundStep leased
        simp [StepLease.validFor, other]

/-- A dead claim stays dead while the counter has not stopped. -/
theorem kept (claim : StepClaim) :
    Kept (fun _ _ _ => True) (fun claims s =>
      Counted claims s ∧ (claims.length ≤ UInt64.maxNat → Dead claim s)) where
  free _ _ _ := trivial
  create request now sequence eventNow accepted creation := by
    rintro ⟨counted, dead⟩
    refine ⟨counted_kept.create _ _ _ _ accepted creation counted, fun few => ?_⟩
    obtain ⟨spent, ⟨run, found⟩, unleased⟩ := dead few
    have same := creation.kept found
    exact ⟨by rwa [creation.token], ⟨run, same.trans found⟩,
      fun run record lease found => unleased run record lease (same ▸ found)⟩
  move {C s k action run run' s'} keyed sound move _ := by
    rintro ⟨counted, dead⟩
    refine ⟨counted_kept.move keyed sound move trivial counted, fun few => ?_⟩
    rw [List.length_append] at few
    obtain ⟨spent, ⟨_, stored⟩, unleased⟩ := dead (Nat.le_of_add_right_le few)
    obtain ⟨_, stored', -⟩ := move.stored stored
    refine ⟨Nat.le_trans spent move.token_le, ⟨_, stored'⟩, ?_⟩
    intro other record lease found foundStep leased
    rw [move.runs] at found
    split at found
    next same =>
      subst same
      obtain rfl := Option.some.inj found
      obtain old | changed := move.step.record_cases foundStep
      · exact unleased run record lease move.found old leased
      · obtain ⟨handed, rfl, -, -, token, -⟩ | ⟨_, _, old, held, token, -⟩ :=
          changed.lease_cases leased
        · -- the lease of a new claim carries a token above every spent one
          have below : s.nextLeaseToken.toNat < UInt64.maxNat := by
            rw [counted.counter]
            simp only [RunAction.issued, List.length_singleton] at few
            omega
          intro equal
          have fresh := UInt64.toNat_saturatingAdd_one below
          rw [← move.step.claim_fields.1, token, equal] at fresh
          omega
        · rw [← token]
          exact unleased run _ _ move.found old held
    · exact unleased other record lease found foundStep leased

/-- Death is final, as long as the counter does not stop. -/
theorem later {ops later : List Op} (few : (issued (ops ++ later)).length ≤ UInt64.maxNat)
    (dead : Dead claim (repository.after ops)) : Dead claim (repository.after (ops ++ later)) :=
  ((kept claim).later ops later (guarded_true _) ⟨counted_after ops, fun _ => dead⟩).2 few

end Dead

/-- The step holds no lease in the run. -/
def RunRecord.StepUnleased (run : RunRecord) (id : StepId) : Prop :=
  ∀ (record : StepRecord), run.steps[id]? = some record → record.lease = none

theorem Dead.of_stepUnleased {claim : StepClaim} {s : Repository} {run : RunRecord}
    (spent : claim.leaseToken.toNat ≤ s.nextLeaseToken.toNat)
    (found : s.runs[claim.runId]? = some run) (unleased : run.StepUnleased claim.step.id) :
    Dead claim s := by
  refine ⟨spent, ⟨run, found⟩, ?_⟩
  intro other record lease foundOther foundStep leased
  obtain rfl := Option.some.inj (found.symm.trans foundOther)
  rw [unleased record foundStep] at leased
  cases leased

/-- A completion spends the lease it was valid for. -/
theorem RunStep.complete_leases {token : UInt64} {claim : StepClaim} {completion : StepCompletion}
    {run run' : RunRecord} (h : RunStep token (.complete claim completion) run run') :
    (∃ record lease, run.steps[claim.step.id]? = some record ∧ record.lease = some lease ∧
      lease.token = claim.leaseToken) ∧ run'.StepUnleased claim.step.id := by
  cases h with
  | complete _ _ now retryNow finishNow sequence eventNow found leased valid accepted =>
      simp only [StepLease.validFor, Bool.and_eq_true, beq_iff_eq] at valid
      refine ⟨⟨_, _, found, leased, valid.1.2⟩, ?_⟩
      intro record' found'
      simp only [RunRecord.logged_steps, RunRecord.commit_steps, BTreeMap.getElem?_insert,
        if_true] at found'
      obtain rfl := Option.some.inj found'
      rfl

/-- Recovery hands out no lease, and takes away that of a step it lists. -/
theorem RunStep.recover_unleased {token : UInt64} {id other : StepId} {run run' : RunRecord}
    (h : RunStep token (.recover id) run run') (unleased : run.StepUnleased other) :
    run'.StepUnleased other := by
  intro record' found
  obtain old | changed := h.record_cases found
  · exact unleased record' old
  · cases leased : record'.lease with
    | none => rfl
    | some lease =>
        obtain ⟨_, equal, -⟩ | ⟨_, _, old, held, -⟩ := changed.lease_cases leased
        · cases equal
        · rw [unleased _ old] at held
          cases held

theorem RunStep.recovered_unleased {token : UInt64} {id : StepId} {run run' : RunRecord}
    (h : RunStep token (.recover id) run run') : run'.StepUnleased id := by
  cases h with
  | recover now sequence eventNow listed found expired =>
      intro record' found'
      simp only [RunRecord.logged_steps, RunRecord.noteRecovery_steps, RunRecord.setStep_steps,
        BTreeMap.getElem?_insert, if_true] at found'
      obtain rfl := Option.some.inj found'
      cases (recoverExpiredStep_eq_some expired).2 <;> rfl

/-- After a recovery no step that it lists holds a lease. -/
theorem Repository.Recovery.unleased {s s' : Repository} {expired : List (RunId × StepId)}
    (h : s.Recovery expired s') (sound : s.Every RunRecord.Sound) {k : RunId} {id : StepId}
    (listed : (k, id) ∈ expired) : ∃ run, s'.runs[k]? = some run ∧ run.StepUnleased id := by
  induction h with
  | done => cases listed
  | next move rest ih =>
      have later := move.lift (.step move.step) sound
      obtain head | tail := List.mem_cons.mp listed
      · obtain ⟨rfl, rfl⟩ := Prod.mk.inj head
        obtain ⟨run', found, unleased⟩ := rest.related
          (R := fun run run' => run.StepUnleased id → run'.StepUnleased id) later
          (fun _ unleased => unleased) (fun first second unleased => second (first unleased))
          (fun step _ => step.recover_unleased) (by rw [move.runs, if_pos rfl])
        exact ⟨run', found, unleased move.step.recovered_unleased⟩
      · exact ih later tail

/-- The run of every claim handed out is stored and has the claimed step. -/
def Listed (claims : List StepClaim) (s : Repository) : Prop :=
  ∀ claim ∈ claims, ∃ run, s.runs[claim.runId]? = some run ∧ claim.step ∈ run.workflow.steps

theorem RunStep.claim_listed {token : UInt64} {claim : StepClaim} {run run' : RunRecord}
    (h : RunStep token (.claim claim) run run') : claim.step ∈ run.workflow.steps := by
  cases h
  assumption

theorem listed_kept : Kept (fun _ _ _ => True) Listed where
  free _ _ _ := trivial
  create request now sequence eventNow accepted creation listed := by
    intro claim member
    obtain ⟨run, found, step⟩ := listed claim member
    exact ⟨run, (creation.kept found).trans found, step⟩
  move {C s k action run run' s'} keyed sound move _ listed := by
    intro claim member
    obtain old | new := List.mem_append.mp member
    · obtain ⟨run, found, step⟩ := listed claim old
      obtain ⟨run', found', same⟩ := move.stored found
      exact ⟨run', found', same.workflow ▸ step⟩
    · cases action with
      | claim handed =>
          obtain rfl := List.mem_singleton.mp new
          have runId := move.step.claim_fields.2.trans (move.own keyed)
          refine ⟨run', by rw [move.runs, if_pos runId.symm], ?_⟩
          rw [move.step.sameRequest.workflow]
          exact move.step.claim_listed
      | _ => cases new

theorem listed_after (ops : List Op) : Listed (issued ops) (repository.after ops) :=
  listed_kept.after (by intro claim member; cases member) ops (guarded_true ops)

/-- A call that ends a claim: it committed the claim's completion, recovered the
claimed step, cancelled the run, or handed out a later claim of the step. -/
inductive Retires (claim : StepClaim) : Op → Response → Prop where
  | completed (completion : StepCompletion) (clock : Clock) (run : RunRecord) :
      Retires claim (.completeStep claim completion clock) (.completed (.ok run))
  | recovered (clock : Clock) (expired : List (RunId × StepId))
      (listed : (claim.runId, claim.step.id) ∈ expired) :
      Retires claim (.recoverExpired clock) (.recovered (.ok expired))
  | cancelled (clock : Clock) (run : RunRecord) (status : run.status = .cancelled) :
      Retires claim (.cancelRun claim.runId clock) (.cancelled (.ok run))
  | superseded (runId : RunId) (worker : WorkerProfile) (leaseMs : UInt64) (clock : Clock)
      (later : StepClaim) (sameRun : later.runId = claim.runId)
      (sameStep : later.step.id = claim.step.id) :
      Retires claim (.claimNextStep runId worker leaseMs clock) (.claimed (.ok (some later)))

/-- Completing or renewing with the claim answers `LeaseLost` and changes nothing. -/
def Fenced (claim : StepClaim) (s : Repository) : Prop :=
  ∀ (completion : StepCompletion) (leaseMs : UInt64) (clock : Clock),
    s.completeStep claim completion clock =
        (.error (.leaseLost claim.runId claim.step.id), s) ∧
      s.renewStep claim leaseMs clock = (.error (.leaseLost claim.runId claim.step.id), s)

theorem Dead.fenced {claim : StepClaim} {s : Repository} (h : Dead claim s) : Fenced claim s :=
  fun completion leaseMs clock => ⟨h.completeStep completion clock, h.renewStep leaseMs clock⟩

/-- A completion leaves its claim dead, whoever made the claim up. -/
theorem dead_of_completed {ops : List Op} {claim : StepClaim} {completion : StepCompletion}
    {clock : Clock} {run : RunRecord}
    (completed : repository.answer (repository.after ops)
      (.completeStep claim completion clock) = .completed (.ok run)) :
    Dead claim (repository.after (ops ++ [.completeStep claim completion clock])) := by
  have effect := Repository.effect_after ops (.completeStep claim completion clock)
  rw [completed] at effect
  generalize repository.after (ops ++ [.completeStep claim completion clock]) = s' at effect ⊢
  cases effect with
  | unchanged quiet => cases quiet
  | complete move =>
      obtain ⟨⟨record, lease, foundStep, leased, token⟩, unleased⟩ := move.step.complete_leases
      obtain ⟨held, member, -, -, sameToken, -⟩ :=
        held_after ops _ _ _ record lease move.found foundStep leased
      refine .of_stepUnleased ?_ (by rw [move.runs, if_pos rfl]) unleased
      rw [← token, ← sameToken]
      exact Nat.le_trans ((counted_after ops).token_le member) move.token_le

/-- A claimed step holds the lease that was just handed out. -/
theorem RunStep.claim_leases {token : UInt64} {claim : StepClaim} {run run' : RunRecord}
    (h : RunStep token (.claim claim) run run') :
    ∃ record lease, run'.steps[claim.step.id]? = some record ∧ record.lease = some lease ∧
      lease.token = token := by
  cases h with
  | @claim _ step taskId task dependencies worker seen now leaseMs =>
      refine ⟨run.claimed step.id taskId worker.id token now leaseMs, _, ?_, rfl, rfl⟩
      simp [RunRecord.claimOf]

/-- A claim that a call ended is dead after the call. -/
theorem dead_of_retires {ops : List Op} {op : Op} {claim : StepClaim}
    (few : (issued (ops ++ [op])).length ≤ UInt64.maxNat) (member : claim ∈ issued ops)
    (retires : Retires claim op (repository.answer (repository.after ops) op)) :
    Dead claim (repository.after (ops ++ [op])) := by
  have before := (counted_after ops).token_le member
  have still : claim ∈ issued (ops ++ [op]) := by
    rw [issued_concat]
    exact List.mem_append_left _ member
  have counted := counted_after (ops ++ [op])
  have spent := counted.token_le still
  have effect := Repository.effect_after ops op
  have length := issued_concat ops op
  generalize answered : repository.answer (repository.after ops) op = response at *
  cases retires with
  | completed completion clock run => exact dead_of_completed answered
  | recovered clock expired listed =>
      generalize repository.after (ops ++ [.recoverExpired clock]) = s' at effect spent ⊢
      cases effect with
      | unchanged quiet => cases quiet
      | recover recovery =>
          obtain ⟨run, found, unleased⟩ := recovery.unleased (sound_after ops) listed
          exact .of_stepUnleased spent found unleased
  | cancelled clock run status =>
      obtain ⟨stored, found, -⟩ := listed_after ops claim member
      have phased := phased_after (ops ++ [.cancelRun claim.runId clock])
      have answer : ((repository.after ops).cancelRun claim.runId clock).1 = .ok run :=
        Response.cancelled.inj answered
      have state : repository.after (ops ++ [.cancelRun claim.runId clock]) =
          ((repository.after ops).cancelRun claim.runId clock).2 := by
        rw [Machine.after_concat]
        rfl
      have foundAfter : (repository.after (ops ++ [.cancelRun claim.runId clock])).runs[claim.runId]?
          = some run := by
        obtain ⟨-, kept⟩ | ⟨run', s', cancelled, move⟩ := Repository.cancelRun_of_some _
          (Repository.keyed_after ops) clock found
        · rw [kept] at answer state
          rw [state, found, Except.ok.inj answer]
        · rw [cancelled] at answer state
          rw [state, move.runs, if_pos rfl, Except.ok.inj answer]
      exact .of_stepUnleased spent foundAfter
        (fun record => (phased _ _ foundAfter).cancelled status _ record)
  | superseded runId worker leaseMs clock later sameRun sameStep =>
      generalize repository.after (ops ++ [.claimNextStep runId worker leaseMs clock]) = s'
        at effect spent counted ⊢
      cases effect with
      | unchanged quiet => cases quiet
      | claim move =>
          have runId := move.step.claim_fields.2.trans (move.own (Repository.keyed_after ops))
          obtain ⟨record, lease, foundStep, leased, token⟩ := move.step.claim_leases
          refine ⟨spent, ⟨_, by rw [move.runs, if_pos (runId.symm.trans sameRun)]⟩, ?_⟩
          intro other record' lease' found' foundStep' leased'
          rw [move.runs, if_pos (runId.symm.trans sameRun)] at found'
          obtain rfl := Option.some.inj found'
          rw [← sameStep, foundStep] at foundStep'
          obtain rfl := Option.some.inj foundStep'
          obtain rfl := Option.some.inj (leased.symm.trans leased')
          intro equal
          have fresh : s'.nextLeaseToken.toNat = (repository.after ops).nextLeaseToken.toNat + 1 := by
            rw [counted.counter, (counted_after ops).counter]
            rw [length] at few ⊢
            simp only [Response.claim?, Option.toList_some, List.length_append,
              List.length_singleton] at few ⊢
            omega
          rw [move.token_of_claim rfl, ← token, equal] at fresh
          omega

/-- The call committed a completion with the claim. -/
def Completed (claim : StepClaim) (op : Op) (response : Response) : Prop :=
  ∃ completion clock run, op = .completeStep claim completion clock ∧
    response = .completed (.ok run)

/-- While fewer than 2 ^ 64 - 1 claims are handed out, their tokens are distinct,
each is completed at most once, and an ended claim is fenced off for good. -/
theorem stale_claims_fenced (ops : List Op) (few : (issued ops).length < 2 ^ 64 - 1) :
    ((issued ops).map StepClaim.leaseToken).Nodup ∧
    (∀ (claim : StepClaim) (pre between : List Op) (op again : Op),
      pre ++ [op] ++ between ++ [again] <+: ops →
      Completed claim op (repository.answer (repository.after pre) op) →
      ¬ Completed claim again
        (repository.answer (repository.after (pre ++ [op] ++ between)) again)) ∧
    (∀ (claim : StepClaim) (pre later : List Op) (op : Op), pre ++ [op] ++ later <+: ops →
      claim ∈ issued pre → Retires claim op (repository.answer (repository.after pre) op) →
      Fenced claim (repository.after (pre ++ [op] ++ later))) := by
  have bound : (issued ops).length ≤ UInt64.maxNat := Nat.le_of_lt few
  have within : ∀ {pre : List Op}, pre <+: ops → (issued pre).length ≤ UInt64.maxNat :=
    fun h => Nat.le_trans (issued_extends h).length_le bound
  refine ⟨(counted_after ops).nodup bound, ?_, ?_⟩
  · rintro claim pre between _ again inside ⟨completion, clock, run, rfl, completed⟩
      ⟨completion', clock', run', rfl, completed'⟩
    have dead := (dead_of_completed completed).later
      (within ((List.prefix_append _ _).trans inside))
    have done : ((repository.after _).completeStep claim completion' clock').1 = .ok run' :=
      Response.completed.inj completed'
    rw [dead.completeStep completion' clock'] at done
    cases done
  · intro claim pre later op inside member retires
    have dead := dead_of_retires (within ((List.prefix_append _ later).trans inside)) member retires
    exact (dead.later (within inside)).fenced

/-- A step that runs out of its lease is recovered and handed out again. -/
def handedOutTwice : List Op :=
  [.createRun (Sample.request [Sample.step "only" 2 false] []) (.at 0), Sample.ask 0,
    .recoverExpired (.at 20), Sample.ask 20, .recoverExpired (.at 40)]

/-- What the second worker reports. -/
def secondReport : Op := Sample.succeed (Sample.step "only" 2 false) 2 21 .null

/-- The second worker reports in time, and again. -/
def reportedTwice : List Op := handedOutTwice.take 4 ++ [secondReport, secondReport]

/-- The tokens are distinct, only the first one of the two reports is accepted, and the first
claim is fenced off. -/
theorem stale_claims_fenced_handedOutTwice :
    (issued reportedTwice).length < 2 ^ 64 - 1 ∧
    ((issued reportedTwice).map StepClaim.leaseToken).Nodup ∧
    Completed (Sample.claim (Sample.step "only" 2 false) 2) secondReport
      (repository.answer (repository.after (handedOutTwice.take 4)) secondReport) ∧
    ¬ Completed (Sample.claim (Sample.step "only" 2 false) 2) secondReport
      (repository.answer (repository.after (handedOutTwice.take 4 ++ [secondReport]))
        secondReport) ∧
    ∃ claim ∈ issued reportedTwice, claim.leaseToken = 1 ∧
      Fenced claim (repository.after reportedTwice) := by
  have few : (issued reportedTwice).length < 2 ^ 64 - 1 := by decide +kernel
  obtain ⟨distinct, once, fenced⟩ := stale_claims_fenced reportedTwice few
  have accepted : ((repository.after (handedOutTwice.take 4)).completeStep
      (Sample.claim (Sample.step "only" 2 false) 2)
      (.succeeded Sample.runId ⟨"only"⟩ .null 1) (.at 21)).1.any (fun _ => true) = true := by
    decide +kernel
  have recovers : ((repository.after (handedOutTwice.take 2)).recoverExpired (.at 20)).1.any
      (fun expired => expired.contains (Sample.runId, ⟨"only"⟩)) = true := by
    decide +kernel
  have handed : (issued (handedOutTwice.take 2)).any (fun claim => claim.leaseToken == 1 &&
      claim.runId == Sample.runId && claim.step.id == ⟨"only"⟩) = true := by
    decide +kernel
  obtain ⟨run, accepted, -⟩ := Except.any_eq_true.mp accepted
  obtain ⟨expired, recovered, listed⟩ := Except.any_eq_true.mp recovers
  obtain ⟨claim, member, same⟩ := List.any_eq_true.mp handed
  simp only [Bool.and_eq_true, beq_iff_eq] at same
  have first : Completed (Sample.claim (Sample.step "only" 2 false) 2) secondReport
      (repository.answer (repository.after (handedOutTwice.take 4)) secondReport) :=
    ⟨_, _, run, rfl, congrArg Response.completed accepted⟩
  refine ⟨few, distinct, first, ?_, claim, ?_, same.1.1, ?_⟩
  · exact once _ (handedOutTwice.take 4) [] secondReport secondReport List.prefix_rfl first
  · exact (issued_extends (List.prefix_append (handedOutTwice.take 2) _)).subset member
  · have retires : Retires claim (.recoverExpired (.at 20)) (repository.answer
        (repository.after (handedOutTwice.take 2)) (.recoverExpired (.at 20))) := by
      have answer : repository.answer (repository.after (handedOutTwice.take 2))
          (.recoverExpired (.at 20)) = .recovered (.ok expired) :=
        congrArg Response.recovered recovered
      rw [answer]
      refine .recovered _ _ ?_
      rw [same.1.2, same.2]
      exact List.contains_iff_mem.mp listed
    exact fenced claim (handedOutTwice.take 2) [Sample.ask 20, secondReport, secondReport]
      (.recoverExpired (.at 20)) List.prefix_rfl member retires

end Orchestrator
