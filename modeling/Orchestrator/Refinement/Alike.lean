import Orchestrator.Postgres.Guard
import Orchestrator.Postgres.Stream
import Orchestrator.Refinement.Matching

/-!
# Runs that are alike
-/

namespace Orchestrator

theorem Metric.Finite.beq_self {metric : Metric} (finite : metric.Finite) :
    (metric == metric) = true := by
  change (metric.name == metric.name && metric.value == metric.value) = true
  simp [Binary64.beq_self finite]

theorem GateDecision.Finite.beq_self {decision : GateDecision} (finite : decision.Finite) :
    (decision == decision) = true := by
  have observed : (decision.observed == decision.observed) = true := by
    cases seen : decision.observed with
    | none => rfl
    | some value => exact Binary64.beq_self (finite.1 value seen)
  change (decision.passed == decision.passed && (decision.metric == decision.metric &&
    (decision.observed == decision.observed && (decision.threshold == decision.threshold &&
      decision.direction == decision.direction)))) = true
  simp [observed, Binary64.beq_self finite.2]

theorem Metric.right_beq_self {metric metric' : Metric} (equal : (metric == metric') = true) :
    (metric' == metric') = true := by
  change (metric.name == metric'.name && metric.value == metric'.value) = true at equal
  change (metric'.name == metric'.name && metric'.value == metric'.value) = true
  rw [Bool.and_eq_true] at equal ⊢
  exact ⟨beq_self_eq_true _, Binary64.right_beq_self equal.2⟩

theorem GateDecision.right_beq_self {decision decision' : GateDecision}
    (equal : (decision == decision') = true) : (decision' == decision') = true := by
  change (decision.passed == decision'.passed && (decision.metric == decision'.metric &&
    (decision.observed == decision'.observed && (decision.threshold == decision'.threshold &&
      decision.direction == decision'.direction)))) = true at equal
  change (decision'.passed == decision'.passed && (decision'.metric == decision'.metric &&
    (decision'.observed == decision'.observed && (decision'.threshold == decision'.threshold &&
      decision'.direction == decision'.direction)))) = true
  simp only [Bool.and_eq_true] at equal ⊢
  obtain ⟨-, -, observed, threshold, -⟩ := equal
  refine ⟨beq_self_eq_true _, beq_self_eq_true _, ?_, Binary64.right_beq_self threshold,
    beq_self_eq_true _⟩
  cases seen : decision'.observed with
  | none => rfl
  | some value =>
      rw [seen] at observed
      cases seen' : decision.observed with
      | none =>
          rw [seen'] at observed
          cases observed
      | some value' =>
          rw [seen'] at observed
          exact Binary64.right_beq_self observed

theorem GateDecision.right_beq_self_entry {entry entry' : String × GateDecision}
    (equal : (entry == entry') = true) : (entry' == entry') = true := by
  change (entry.1 == entry'.1 && entry.2 == entry'.2) = true at equal
  change (entry'.1 == entry'.1 && entry'.2 == entry'.2) = true
  rw [Bool.and_eq_true] at equal ⊢
  exact ⟨beq_self_eq_true _, GateDecision.right_beq_self equal.2⟩

namespace RunRecord

/-- Some attempt of the run has the token. -/
def Issued (run : RunRecord) (token : UInt64) : Prop := ∃ id, token ∈ run.tokens id

theorem issued_of_found {run : RunRecord} {id : StepId} {record : StepRecord} {token : UInt64}
    (found : run.steps[id]? = some record) (member : token ∈ record.tokens) : run.Issued token :=
  ⟨id, by rwa [tokens_of_found found]⟩

/-- A claim issues its token. -/
theorem issued_claimed (run : RunRecord) (id : StepId) (taskId : TaskId) (worker : WorkerId)
    (token now leaseMs : UInt64) :
    (run.setStep id (run.claimed id taskId worker token now leaseMs)).bump.Issued token := by
  have found : (run.setStep id (run.claimed id taskId worker token now leaseMs)).bump.steps[id]? =
      some (run.claimed id taskId worker token now leaseMs) := by
    rw [bump_steps, setStep_steps, Std.ExtTreeMap.getElem?_insert_self]
  refine issued_of_found found ?_
  simp [StepRecord.tokens, claimed, StepRecord.claim]

theorem mem_allTokens {run : RunRecord} {token : UInt64} :
    token ∈ (run.steps.toList.flatMap fun entry : StepId × StepRecord =>
      entry.2.history.map StepAttempt.leaseToken) ↔ run.Issued token := by
  rw [List.mem_flatMap]
  constructor
  · rintro ⟨⟨id, record⟩, member, listed⟩
    exact issued_of_found (Std.ExtTreeMap.mem_toList_iff_getElem?_eq_some.mp member) listed
  · rintro ⟨id, listed⟩
    cases found : run.steps[id]? with
    | none =>
        rw [RunRecord.tokens, found] at listed
        cases listed
    | some record =>
        rw [tokens_of_found found] at listed
        exact ⟨(id, record), Std.ExtTreeMap.mem_toList_iff_getElem?_eq_some.mpr found, listed⟩

/-- The next token of a run is above its tokens, as far as a word can count. -/
theorem lt_nextLeaseToken {run : RunRecord} {token : UInt64} (issued : run.Issued token)
    (below : token.toNat < UInt64.maxNat) : token < run.nextLeaseToken := by
  rw [UInt64.lt_iff_toNat_lt]
  exact UInt64.lt_saturatingAdd_one (UInt64.le_max?_getD (mem_allTokens.mpr issued) 0) below

theorem nextLeaseToken_le {run : RunRecord} {top : UInt64}
    (handed : ∀ token, run.Issued token → token ≤ top) :
    run.nextLeaseToken ≤ top.saturatingAdd 1 := by
  unfold nextLeaseToken
  rw [UInt64.le_iff_toNat_le, UInt64.toNat_saturatingAdd, UInt64.toNat_saturatingAdd]
  have largest : ((run.steps.toList.flatMap fun entry : StepId × StepRecord =>
      entry.2.history.map StepAttempt.leaseToken).max?.getD 0).toNat ≤ top.toNat := by
    cases found : (run.steps.toList.flatMap fun entry : StepId × StepRecord =>
        entry.2.history.map StepAttempt.leaseToken).max? with
    | none => exact Nat.zero_le _
    | some largest =>
        have member := (List.max?_eq_some_iff.mp found).1
        exact UInt64.le_iff_toNat_le.mp (handed largest (mem_allTokens.mp member))
  omega

end RunRecord

/-- A step that has a record keeps one. -/
theorem RunStep.record_stays {token : UInt64} {action : RunAction} {run run' : RunRecord}
    (h : RunStep token action run run') {id : StepId} {record : StepRecord}
    (found : run.steps[id]? = some record) : ∃ record', run'.steps[id]? = some record' := by
  have inserted : ∀ (k : StepId) (other : StepRecord), ∃ record',
      (run.steps.insert k other)[id]? = some record' := by
    intro k other
    rw [BTreeMap.getElem?_insert]
    split
    · exact ⟨other, rfl⟩
    · exact ⟨record, found⟩
  cases h with
  | record => exact ⟨record, found⟩
  | measure => exact ⟨record, found⟩
  | settle => exact ⟨record, by simpa using found⟩
  | finish => exact ⟨record, by simpa using found⟩
  | cancel =>
      simp only [RunRecord.logged_steps, RunRecord.cancelSteps_steps,
        Std.ExtTreeMap.getElem?_map, found, Option.map_some]
      exact ⟨_, rfl⟩
  | claim => exact inserted _ _
  | renew => exact inserted _ _
  | complete =>
      simp only [RunRecord.logged_steps, RunRecord.commit_steps]
      exact inserted _ _
  | recover =>
      simp only [RunRecord.logged_steps, RunRecord.noteRecovery_steps, RunRecord.setStep_steps]
      exact inserted _ _

/-- A token once issued stays. -/
theorem RunStep.issued_stays {token : UInt64} {action : RunAction} {run run' : RunRecord}
    (h : RunStep token action run run') (other : UInt64) (issued : run.Issued other) :
    run'.Issued other := by
  obtain ⟨id, member⟩ := issued
  cases found : run.steps[id]? with
  | none =>
      rw [RunRecord.tokens, found] at member
      cases member
  | some record =>
      obtain ⟨record', found'⟩ := h.record_stays found
      rw [RunRecord.tokens_of_found found] at member
      refine RunRecord.issued_of_found found' ?_
      obtain old | changed := h.record_cases found'
      · obtain rfl := Option.some.inj (found.symm.trans old)
        exact member
      · rw [changed.tokens, RunRecord.tokens_of_found found]
        exact List.mem_append_left _ member

/-- Only a claim issues a token. -/
theorem RunStep.issued {token : UInt64} {action : RunAction} {run run' : RunRecord}
    (h : RunStep token action run run') (plain : action.isClaim = false) (other : UInt64)
    (issued : run'.Issued other) : run.Issued other := by
  obtain ⟨id, member⟩ := issued
  obtain kept | gone | ⟨claimed, -⟩ := h.tokens id
  · exact ⟨id, kept ▸ member⟩
  · rw [gone] at member
    cases member
  · rw [plain] at claimed
    cases claimed

namespace RunRecord

/-- The metrics and the decisions on them are equal, as the program compares them. -/
structure SameMetrics (run run' : RunRecord) : Prop where
  metrics : (run'.metrics == run.metrics) = true
  decisions : (run'.gateDecisions.toList == run.gateDecisions.toList) = true

namespace SameMetrics

variable {run run' : RunRecord}

/-- Finite metrics are equal to themselves. -/
theorem of_finite (finite : run'.Finite) (metrics : run.metrics = run'.metrics)
    (decisions : run.gateDecisions = run'.gateDecisions) : run.SameMetrics run' := by
  refine ⟨?_, ?_⟩
  · rw [metrics]
    exact List.beq_self fun metric member => (finite.metrics metric member).beq_self
  · rw [decisions]
    refine List.beq_self fun entry member => ?_
    obtain ⟨name, decision⟩ := entry
    have stored := Std.ExtTreeMap.mem_toList_iff_getElem?_eq_some.mp member
    change (name == name && decision == decision) = true
    rw [beq_self_eq_true, (finite.gateDecisions name decision stored).beq_self]
    rfl

theorem commit (h : run.SameMetrics run') (id : StepId) (record record' : StepRecord) :
    (run.commit id record).SameMetrics (run'.commit id record') := by
  rw [RunRecord.commit, RunRecord.commit, noteFailure_eq, noteFailure_eq]
  exact ⟨h.metrics, h.decisions⟩

theorem noteRecovery (h : run.SameMetrics run') (record record' : StepRecord) :
    (run.noteRecovery record).SameMetrics (run'.noteRecovery record') := by
  rw [noteRecovery_eq, noteRecovery_eq]
  exact ⟨h.metrics, h.decisions⟩

theorem settle (h : run.SameMetrics run') : run.settle.SameMetrics run'.settle := by
  rw [settle_eq, settle_eq]
  exact ⟨h.metrics, h.decisions⟩

end SameMetrics

/-- The runs match under a renaming that keeps the order of the tokens, which are at most
`top` in both. -/
structure Alike (ρ : UInt64 → UInt64) (top : UInt64) (run run' : RunRecord) : Prop where
  same : run.Matches ρ run'
  metrics : run.SameMetrics run'
  increasing : ∀ a b, run.Issued a → run.Issued b → a < b → ρ a < ρ b
  handed : ∀ token, run.Issued token → token ≤ top ∧ ρ token ≤ top

/-- Claims that differ in their tokens only, which stand for the same attempt of the runs
if they stand for one. -/
structure SameClaim (run run' : RunRecord) (claim claim' : StepClaim) : Prop where
  rest : claim' = { claim with leaseToken := claim'.leaseToken }
  token : ∀ (id : StepId), ∀ pair ∈ (run.tokens id).zip (run'.tokens id),
    claim.leaseToken = pair.1 ↔ claim'.leaseToken = pair.2

section Matching

variable {ρ ρ' : UInt64 → UInt64} {top : UInt64} {run run' : RunRecord}

theorem Matches.issued (same : run.Matches ρ run') {token : UInt64} :
    run'.Issued token ↔ ∃ before, run.Issued before ∧ ρ before = token := by
  simp only [Issued, same.tokens, List.mem_map]
  constructor
  · rintro ⟨id, before, member, rfl⟩
    exact ⟨before, ⟨id, member⟩, rfl⟩
  · rintro ⟨before, ⟨id, member⟩, rfl⟩
    exact ⟨id, before, member, rfl⟩

theorem SameClaim.iff_of_issued {claim claim' : StepClaim} (given : run.SameClaim run' claim claim')
    (same : run.Matches ρ run') {token : UInt64} (issued : run.Issued token) :
    claim.leaseToken = token ↔ claim'.leaseToken = ρ token := by
  obtain ⟨id, member⟩ := issued
  refine given.token id (token, ρ token) ?_
  rw [same.tokens, ← List.map_prod_left_eq_zip]
  exact List.mem_map_of_mem member

/-- The token of a lease is that of an attempt. -/
theorem Booked.issued (booked : run.Booked) {id : StepId} {record : StepRecord}
    {lease : StepLease} (found : run.steps[id]? = some record)
    (leased : record.lease = some lease) : run.Issued lease.token := by
  obtain ⟨earlier, attempt, history, -, under⟩ := (booked id record found).leased lease leased
  refine issued_of_found found ?_
  rw [StepRecord.tokens, history, List.map_append, ← under.token]
  exact List.mem_append_right _ (List.mem_singleton_self _)

/-- Matching leases are valid for the same claims. -/
theorem SameClaim.validFor {claim claim' : StepClaim} (given : run.SameClaim run' claim claim')
    (same : run.Matches ρ run') {lease : StepLease} (issued : run.Issued lease.token)
    (now : UInt64) : (lease.renamed ρ).validFor claim' now = lease.validFor claim now := by
  have token : (lease.token == claim.leaseToken) = (ρ lease.token == claim'.leaseToken) := by
    rw [Bool.eq_iff_iff, beq_iff_eq, beq_iff_eq, eq_comm, given.iff_of_issued same issued, eq_comm]
  have worker : claim'.worker = claim.worker := by rw [given.rest]
  rw [StepLease.validFor, StepLease.validFor, token, worker]
  rfl

/-- Renamings that agree on the tokens of a run agree on the run. -/
theorem Matches.congr (same : run.Matches ρ run') (booked : run.Booked)
    (agree : ∀ token, run.Issued token → ρ' token = ρ token) : run.Matches ρ' run' := by
  have steps : (run.steps.map fun _ record => record.renamed ρ') =
      run.steps.map fun _ record => record.renamed ρ := by
    apply Std.ExtTreeMap.ext_getElem?
    intro id
    rw [Std.ExtTreeMap.getElem?_map, Std.ExtTreeMap.getElem?_map]
    cases found : run.steps[id]? with
    | none => rfl
    | some record =>
        have history : record.history.map (StepAttempt.renamed ρ') =
            record.history.map (StepAttempt.renamed ρ) := by
          refine List.map_congr_left fun attempt member => ?_
          have issued := issued_of_found found
            (List.mem_map_of_mem (f := StepAttempt.leaseToken) member)
          rw [StepAttempt.renamed, StepAttempt.renamed, agree _ issued]
        have lease : record.lease.map (StepLease.renamed ρ') =
            record.lease.map (StepLease.renamed ρ) := by
          refine Option.map_congr fun lease leased => ?_
          rw [StepLease.renamed, StepLease.renamed, agree _ (booked.issued found leased)]
        rw [Option.map_some, Option.map_some, StepRecord.renamed, StepRecord.renamed, history,
          lease]
  have unchanged : run.renamed ρ' (fun _ => 0) = run.renamed ρ fun _ => 0 := by
    simp only [renamed, steps]
  exact unchanged.trans same

theorem Alike.injective (alike : run.Alike ρ top run') {a b : UInt64} (issued : run.Issued a)
    (issued' : run.Issued b) (same : ρ a = ρ b) : a = b := by
  by_contra apart
  obtain less | less := UInt64.lt_or_lt_of_ne apart
  · have order := alike.increasing a b issued issued' less
    rw [same] at order
    exact UInt64.lt_irrefl _ order
  · have order := alike.increasing b a issued' issued less
    rw [same] at order
    exact UInt64.lt_irrefl _ order

/-- A change that issues no token leaves alike runs alike. -/
theorem Alike.plain (alike : run.Alike ρ top run') {later later' : RunRecord}
    (before : ∀ token, later.Issued token → run.Issued token) (same : later.Matches ρ later')
    (metrics : later.SameMetrics later') : later.Alike ρ top later' :=
  ⟨same, metrics, fun a b issued issued' => alike.increasing a b (before a issued)
    (before b issued'), fun token issued => alike.handed token (before token issued)⟩

theorem Alike.bump_right (alike : run.Alike ρ top run') : run.Alike ρ top run'.bump :=
  ⟨alike.same.bump_right, ⟨alike.metrics.metrics, alike.metrics.decisions⟩, alike.increasing,
    alike.handed⟩

/-- The token that is taken next is none of the run's. -/
theorem Alike.lt_next (alike : run.Alike ρ top run') (below : top.toNat < UInt64.maxNat)
    {token : UInt64} (issued : run.Issued token) : token < top.saturatingAdd 1 := by
  have handed := UInt64.le_iff_toNat_le.mp (alike.handed token issued).1
  rw [UInt64.lt_iff_toNat_lt, UInt64.toNat_saturatingAdd_one below]
  omega

theorem Alike.update_eq (alike : run.Alike ρ top run') (below : top.toNat < UInt64.maxNat)
    (token' : UInt64) {token : UInt64} (issued : run.Issued token) :
    Function.update ρ (top.saturatingAdd 1) token' token = ρ token := by
  refine Function.update_of_ne (fun same => ?_) token' ρ
  have less := alike.lt_next below issued
  rw [same] at less
  exact UInt64.lt_irrefl _ less

/-- The claimed records match under the renaming extended by their tokens. -/
theorem Alike.matches_claim (alike : run.Alike ρ top run') (booked : run.Booked)
    (below : top.toNat < UInt64.maxNat) (id : StepId) (taskId : TaskId) (worker : WorkerId)
    (token' now leaseMs : UInt64) :
    (run.setStep id (run.claimed id taskId worker (top.saturatingAdd 1) now leaseMs)).bump.Matches
      (Function.update ρ (top.saturatingAdd 1) token')
      (run'.setStep id { run'.claimed id taskId worker token' now leaseMs with
        nextAttemptAtMs := none }).bump := by
  have extended : run.Matches (Function.update ρ (top.saturatingAdd 1) token') run' :=
    alike.same.congr booked fun token issued => alike.update_eq below token' issued
  have record := (extended.entry id taskId).claim run.runId taskId worker (top.saturatingAdd 1) now
    leaseMs
  rw [Function.update_self] at record
  rw [RunRecord.claimed, RunRecord.claimed, extended.runId]
  exact extended.setStep id record

/-- A claim that takes the next token of both runs keeps them alike. -/
theorem Alike.claim (alike : run.Alike ρ top run') (below : top.toNat < UInt64.maxNat)
    {action : RunAction} {later later' : RunRecord}
    (step : RunStep (top.saturatingAdd 1) action run later)
    (same : later.Matches (Function.update ρ (top.saturatingAdd 1) run'.nextLeaseToken) later')
    (metrics : later.SameMetrics later') :
    later.Alike (Function.update ρ (top.saturatingAdd 1) run'.nextLeaseToken) (top.saturatingAdd 1)
      later' := by
  have before : ∀ token, later.Issued token →
      run.Issued token ∨ token = top.saturatingAdd 1 := by
    rintro token ⟨id, member⟩
    obtain kept | gone | ⟨-, grown⟩ := step.tokens id
    · exact .inl ⟨id, kept ▸ member⟩
    · rw [gone] at member
      cases member
    · rw [grown] at member
      obtain old | new := List.mem_append.mp member
      · exact .inl ⟨id, old⟩
      · exact .inr (List.mem_singleton.mp new)
  have kept : ∀ token, run.Issued token →
      Function.update ρ (top.saturatingAdd 1) run'.nextLeaseToken token = ρ token :=
    fun token issued => alike.update_eq below run'.nextLeaseToken issued
  -- The tokens of the second run are at most `top` as well, so that its next one is new.
  have fresh : ∀ token, run.Issued token → ρ token < run'.nextLeaseToken := by
    intro token issued
    have handed := UInt64.le_iff_toNat_le.mp (alike.handed token issued).2
    exact lt_nextLeaseToken (alike.same.issued.mpr ⟨token, issued, rfl⟩) (by omega)
  have next : run'.nextLeaseToken ≤ top.saturatingAdd 1 := by
    refine nextLeaseToken_le fun token issued => ?_
    obtain ⟨old, stands, rfl⟩ := alike.same.issued.mp issued
    exact (alike.handed old stands).2
  refine ⟨same, metrics, fun a b issued issued' less => ?_, fun token issued => ?_⟩
  · obtain old | rfl := before a issued
    · obtain old' | rfl := before b issued'
      · rw [kept a old, kept b old']
        exact alike.increasing a b old old' less
      · rw [kept a old, Function.update_self]
        exact fresh a old
    · obtain old' | rfl := before b issued'
      · exact absurd less (UInt64.not_lt.mpr (UInt64.le_of_lt (alike.lt_next below old')))
      · exact absurd less (UInt64.lt_irrefl _)
  · obtain old | rfl := before token issued
    · rw [kept token old]
      have grows := UInt64.le_iff_toNat_le.mpr (UInt64.le_saturatingAdd top 1)
      obtain ⟨handed, handed'⟩ := alike.handed token old
      exact ⟨UInt64.le_trans handed grows, UInt64.le_trans handed' grows⟩
    · rw [Function.update_self]
      exact ⟨UInt64.le_refl _, next⟩

/-- The bound of the tokens may grow. -/
theorem Alike.mono (alike : run.Alike ρ top run') {top' : UInt64} (grows : top ≤ top') :
    run.Alike ρ top' run' :=
  ⟨alike.same, alike.metrics, alike.increasing, fun token issued =>
    ⟨UInt64.le_trans (alike.handed token issued).1 grows,
      UInt64.le_trans (alike.handed token issued).2 grows⟩⟩

/-- Claims handed out together are the same claim in all runs that follow. -/
theorem Alike.sameClaim (alike : run.Alike ρ top run') {claim claim' : StepClaim}
    (rest : claim' = { claim with leaseToken := ρ claim.leaseToken })
    (issued : run.Issued claim.leaseToken) : run.SameClaim run' claim claim' := by
  refine ⟨by rw [rest], fun id pair member => ?_⟩
  rw [alike.same.tokens, ← List.map_prod_left_eq_zip, List.mem_map] at member
  obtain ⟨token, member, rfl⟩ := member
  rw [rest]
  constructor
  · rintro rfl
    rfl
  · exact fun same => alike.injective issued ⟨id, member⟩ same

end Matching

end RunRecord

end Orchestrator
