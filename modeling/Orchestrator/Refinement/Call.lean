import Orchestrator.Refinement.Alike

/-!
# One call on alike runs

A call is given to the run that the in-memory repository stores and to the alike run that
a row is read as. Both refuse it with the same error, or both carry it out and leave runs
that are alike.
-/

namespace Orchestrator

open Json (Value)

/-- The run `m` that the repository stores under `k` and the run `p` that its row is read
as. -/
structure Facing (s : Repository) (k : RunId) (ρ : UInt64 → UInt64) (m p : RunRecord) : Prop where
  keyed : s.Keyed
  found : s.runs[k]? = some m
  alike : m.Alike ρ s.nextLeaseToken p
  booked : m.Booked
  steady : p.Steady

/-- What the call on `m` leaves and answers, next to what the call on `p` does: if what is
written has finite doubles, the runs left are alike, and the answers are related to them. -/
inductive Together {α β : Type} (R : (UInt64 → UInt64) → RunRecord → RunRecord → α → β → Prop)
    (s : Repository) (k : RunId) (ρ : UInt64 → UInt64) (m p : RunRecord) :
    Except RepositoryError α × Repository →
      Except RepositoryError (β × Option RunRecord) → Prop where
  | refused (error : RepositoryError) : Together R s k ρ m p (.error error, s) (.error error)
  | done {a : α} {b : β} {m' : RunRecord} {s' : Repository} {written : Option RunRecord}
      (runs : ∀ id, s'.runs[id]? = if k = id then some m' else s.runs[id]?)
      (tokens : s.nextLeaseToken ≤ s'.nextLeaseToken)
      (alike : (∀ p' ∈ written, p'.Finite) → ∃ ρ', (∀ token, m.Issued token → ρ' token = ρ token) ∧
        m'.Alike ρ' s'.nextLeaseToken (written.getD p) ∧ R ρ' m' (written.getD p) a b) :
      Together R s k ρ m p (.ok a, s') (.ok (b, written))

/-- Claims that are the same but for their token, which the first run has issued. -/
def SameIssue (ρ : UInt64 → UInt64) (m _ : RunRecord) :
    Option StepClaim → Option StepClaim → Prop :=
  Option.Rel fun claim claim' => claim.runId = m.runId ∧ m.Issued claim.leaseToken ∧
    claim' = { claim with leaseToken := ρ claim.leaseToken }

/-- Answered runs: the one that is left stored, and one that is the same up to tokens and
sequences and has the log of the run that the row is read as. -/
structure SameRun (ρ : UInt64 → UInt64) (m q a b : RunRecord) : Prop where
  stored : a = m
  log : b.eventLog = q.eventLog
  same : a.Matches ρ b
  metrics : a.SameMetrics b

theorem SameRun.of_left {ρ : UInt64 → UInt64} {m q : RunRecord} (same : m.Matches ρ q)
    (metrics : m.SameMetrics q) : SameRun ρ m q m q := ⟨rfl, rfl, same, metrics⟩

/-- Envelopes of one event that was logged at one time, under sequences of their own. -/
def EventEnvelope.SameEvent (envelope envelope' : EventEnvelope) : Prop :=
  envelope.renamed (fun _ => 0) = envelope'.renamed fun _ => 0

/-- No lease of the claimed step is valid for the claim. -/
def RunRecord.Unheld (run : RunRecord) (claim : StepClaim) (now : UInt64) : Prop :=
  ∀ record ∈ run.steps[claim.step.id]?, ∀ lease ∈ record.lease, lease.validFor claim now = false

theorem RunRecord.Unheld.any_eq_false {run : RunRecord} {claim : StepClaim} {now : UInt64}
    {record : StepRecord} (unheld : run.Unheld claim now)
    (found : run.steps[claim.step.id]? = some record) :
    (record.lease.any fun lease => lease.validFor claim now) = false := by
  rw [← Bool.not_eq_true, Option.any_eq_true]
  rintro ⟨lease, leased, valid⟩
  rw [unheld record found lease leased] at valid
  cases valid

namespace Repository

variable {s : Repository} {claim : StepClaim} {run : RunRecord} {now : UInt64}

theorem renewStep_of_unheld (found : s.runs[claim.runId]? = some run) (leaseMs : UInt64)
    (unheld : run.Unheld claim now) :
    s.renewStep claim leaseMs (.at now) = (.error (.leaseLost claim.runId claim.step.id), s) := by
  simp only [renewStep, found, Clock.at]
  cases stored : run.steps[claim.step.id]? with
  | none => rfl
  | some record =>
      cases leased : record.lease with
      | none => simp only [leased]
      | some lease =>
          have lost := unheld record stored lease leased
          simp only [leased, lost, Bool.not_false, if_true]

/-- A finish request that leaves the status as it was logs nothing. -/
theorem finishRun_of_same {k : RunId} (metrics : List Metric) (clock : Clock)
    (found : s.runs[k]? = some run) (same : (Locked.measured run metrics).status = run.status) :
    s.finishRun k metrics clock = (.ok (Locked.measured run metrics),
        s.setRun k (Locked.measured run metrics)) ∧
      s.Moves k (.finish metrics) run (Locked.measured run metrics)
        (s.setRun k (Locked.measured run metrics)) := by
  unfold Locked.measured at same ⊢
  cases settled : run.settled with
  | false =>
      refine ⟨?_, replaces_setRun.moves found (.measure metrics settled) rfl⟩
      have unsettled : (!run.hasFailed && !run.allSucceeded) = true := by
        simpa [RunRecord.settled] using settled
      simp only [finishRun, found, RunRecord.setMetrics_hasFailed,
        RunRecord.setMetrics_allSucceeded, unsettled, if_true, Bool.false_eq_true, if_false]
  | true =>
      rw [if_pos settled] at same
      refine ⟨?_, replaces_setRun.moves found (.settle metrics settled same) rfl⟩
      have ended : ¬ (!run.hasFailed && !run.allSucceeded) = true := by
        simpa [RunRecord.settled, Decidable.or_iff_not_imp_left] using settled
      simp only [finishRun, found, RunRecord.setMetrics_hasFailed,
        RunRecord.setMetrics_allSucceeded, ended, Bool.false_eq_true, if_false,
        RunRecord.setMetrics_status, same, ne_eq, not_true, getRun, getElem?_setRun_self, if_true]

/-- A finish request that changes the status logs the end of the run. -/
theorem finishRun_of_changed (keyed : s.Keyed) {k : RunId} (metrics : List Metric) (clock : Clock)
    (found : s.runs[k]? = some run) (changed : (Locked.measured run metrics).status ≠ run.status) :
    ∃ sequence run' s', run' = (Locked.measured run metrics).logged
        (.runFinished k (Locked.measured run metrics).status) sequence (clock.call 0) ∧
      s.finishRun k metrics clock = (.ok run', s') ∧ s.Moves k (.finish metrics) run run' s' := by
  obtain rfl := keyed k run found
  unfold Locked.measured at changed ⊢
  cases settled : run.settled with
  | false => simp [settled] at changed
  | true =>
      rw [if_pos settled] at changed
      have ended : ¬ (!run.hasFailed && !run.allSucceeded) = true := by
        simpa [RunRecord.settled, Decidable.or_iff_not_imp_left] using settled
      obtain ⟨s', appended, replaces⟩ := appendAndReturn_of_some
        (.runFinished run.runId (run.setMetrics metrics).settle.status) (clock.call 0)
        (.runNotFound run.runId)
        (getElem?_setRun_self s run.runId (run.setMetrics metrics).settle)
        RunRecord.SameRequest.settle.runId
      refine ⟨_, _, s', rfl, ?_,
        replaces.of_setRun.moves found (.finish metrics _ _ settled changed) rfl⟩
      simp only [finishRun, found, RunRecord.setMetrics_hasFailed,
        RunRecord.setMetrics_allSucceeded, ended, Bool.false_eq_true, if_false,
        RunRecord.setMetrics_status, Ne.symm changed, ne_eq, not_false_iff, if_true, appended]

/-- A run that has not ended is cancelled. -/
theorem cancelRun_of_active (keyed : s.Keyed) {k : RunId} (clock : Clock)
    (found : s.runs[k]? = some run) (active : run.status.isTerminal = false) :
    ∃ sequence run' s', run' = (run.cancelSteps (clock.step k)).logged (.runFinished k .cancelled)
        sequence (clock.call 0) ∧
      s.cancelRun k clock = (.ok run', s') ∧ s.Moves k .cancel run run' s' := by
  obtain rfl := keyed k run found
  obtain ⟨s', appended, replaces⟩ := appendAndReturn_of_some
    (.runFinished run.runId .cancelled) (clock.call 0) (.runNotFound run.runId)
    (getElem?_setRun_self s run.runId (run.cancelSteps (clock.step run.runId))) rfl
  refine ⟨_, _, s', rfl, ?_, replaces.of_setRun.moves found (.cancel _ _ _ active) rfl⟩
  simp only [cancelRun, found, active, Bool.false_eq_true, if_false, appended]

theorem completeStep_of_unheld (found : s.runs[claim.runId]? = some run)
    (completion : StepCompletion) (unheld : run.Unheld claim now) :
    s.completeStep claim completion (.at now) =
      (.error (.leaseLost claim.runId claim.step.id), s) := by
  simp only [completeStep, found, Clock.at]
  cases stored : run.steps[claim.step.id]? with
  | none => rfl
  | some record =>
      simp only [unheld.any_eq_false stored, Bool.not_false, if_true]

end Repository

namespace Locked

variable {p : RunRecord} {db : PgClock} {now : UInt64}

theorem renewStep_of_unheld {claim : StepClaim} (leaseMs : UInt64)
    (reading : toU64 db.now = .ok now) (unheld : p.Unheld claim now) :
    renewStep p claim leaseMs db = .error (.leaseLost claim.runId claim.step.id) := by
  simp only [renewStep, reading, bind, Except.bind]
  cases stored : p.steps[claim.step.id]? with
  | none => rfl
  | some record =>
      cases leased : record.lease with
      | none => simp only [leased]
      | some lease =>
          have lost := unheld record stored lease leased
          simp only [leased, lost, Bool.not_false, if_true]

theorem completeStep_of_unheld {claim : StepClaim} (completion : StepCompletion) (clock : Clock)
    (reading : toU64 db.now = .ok now) (unheld : p.Unheld claim now) :
    completeStep p claim completion clock db = .error (.leaseLost claim.runId claim.step.id) := by
  simp only [completeStep, reading, bind, Except.bind]
  cases stored : p.steps[claim.step.id]? with
  | none => rfl
  | some record =>
      simp only [unheld.any_eq_false stored, Bool.not_false, if_true]

end Locked

namespace Locked

variable {p : RunRecord} {db : PgClock} {now : UInt64}

theorem measured_runId (run : RunRecord) (metrics : List Metric) :
    (measured run metrics).runId = run.runId := by
  unfold measured
  split
  · exact RunRecord.SameRequest.settle.runId
  · rfl

/-- A step that may be claimed is claimed. -/
theorem claimNextStep_of_candidate (db : PgClock) {step : StepSpec} {worker : WorkerProfile}
    {taskId : TaskId} {task : TaskSpec} {dependencies : BTreeMap String Value} (leaseMs : UInt64)
    (reading : toU64 db.now = .ok now) (running : p.status = .running)
    (chosen : p.workflow.steps.findSome? (claimCandidate p worker now) =
      some (step, taskId, dependencies)) (known : p.manifest.tasks[taskId]? = some task) :
    ∃ record, record = p.claimed step.id taskId worker.id p.nextLeaseToken now leaseMs ∧
      claimNextStep p p.runId worker leaseMs db =
        .ok (some (p.claimOf step task dependencies worker.id p.nextLeaseToken record),
          some (p.setStep step.id { record with nextAttemptAtMs := none }).bump) := by
  refine ⟨_, rfl, ?_⟩
  simp only [claimNextStep, running, reading, bind, Except.bind, chosen, known]
  rfl

/-- The holder of a live lease renews it. -/
theorem renewStep_of_lease {claim : StepClaim} {record : StepRecord} {lease : StepLease}
    (leaseMs : UInt64) (reading : toU64 db.now = .ok now)
    (found : p.steps[claim.step.id]? = some record) (leased : record.lease = some lease)
    (valid : lease.validFor claim now = true) :
    renewStep p claim leaseMs db = .ok ((), some (p.setStep claim.step.id { record with
      lease := some { lease with expiresAtMs := now.saturatingAdd (max leaseMs 1) } }).bump) := by
  simp only [renewStep, reading, bind, Except.bind, found, leased, valid, Bool.not_true,
    Bool.false_eq_true, if_false]

/-- A matching completion of a live lease is committed. -/
theorem completeStep_of_lease {claim : StepClaim} {completion : StepCompletion}
    {record : StepRecord} {lease : StepLease} (clock : Clock) (reading : toU64 db.now = .ok now)
    (found : p.steps[claim.step.id]? = some record) (leased : record.lease = some lease)
    (valid : lease.validFor claim now = true) (own : p.runId = claim.runId)
    (accepted : completionMatchesClaim completion claim p.manifest = true) :
    ∃ p', p' = (p.commit claim.step.id (record.complete completion now now)).logged
        completion.event p.nextSequence (clock.call 0) ∧
      completeStep p claim completion clock db = .ok (p', some p') := by
  have event : completion.event.runId = p.runId := by
    rw [own]
    cases completionMatchesClaim_iff.mp accepted <;> rfl
  refine ⟨_, rfl, ?_⟩
  simp only [completeStep, reading, bind, Except.bind, found, leased, Option.any_some, valid,
    accepted, Bool.not_true, Bool.false_eq_true, if_false]
  refine Except.map_eq_ok.mpr ⟨_, RunRecord.appendRunEvent_eq_ok.mpr ⟨?_, rfl, rfl⟩, ?_⟩
  · rw [RunRecord.noteFailure_eq]
    exact event
  · simp [RunRecord.commit, RunRecord.nextSequence, RunRecord.noteFailure_eq, RunRecord.bump]

end Locked

namespace Facing

variable {s : Repository} {k : RunId} {m p : RunRecord} {ρ : UInt64 → UInt64} {now : UInt64}
  {db : PgClock}

theorem own (facing : Facing s k ρ m p) : m.runId = k := facing.keyed k m facing.found

theorem own' (facing : Facing s k ρ m p) : p.runId = k :=
  facing.alike.same.runId.trans facing.own

/-- Nothing is changed. -/
theorem kept {α β : Type} {R : (UInt64 → UInt64) → RunRecord → RunRecord → α → β → Prop} {a : α}
    {b : β} (facing : Facing s k ρ m p) (related : R ρ m p a b) :
    Together R s k ρ m p (.ok a, s) (.ok (b, none)) := by
  have runs : ∀ id, s.runs[id]? = if k = id then some m else s.runs[id]? := by
    intro id
    split
    next same => rw [← same, facing.found]
    · rfl
  exact .done runs (UInt64.le_refl _) fun _ => ⟨ρ, fun _ _ => rfl, facing.alike, related⟩

/-- A change of the stored run that takes no token, next to one of the run of the row. -/
theorem moved {α β : Type} {R : (UInt64 → UInt64) → RunRecord → RunRecord → α → β → Prop}
    {a : α} {b : β} {s' : Repository} {m' : RunRecord} {written : Option RunRecord}
    {action : RunAction} (facing : Facing s k ρ m p) (move : s.Moves k action m m' s')
    (plain : action.isClaim = false) (same : m'.Matches ρ (written.getD p))
    (metrics : (∀ p' ∈ written, p'.Finite) → m'.SameMetrics (written.getD p))
    (related : (∀ p' ∈ written, p'.Finite) → R ρ m' (written.getD p) a b) :
    Together R s k ρ m p (.ok a, s') (.ok (b, written)) := by
  have token := move.token_of_plain plain
  refine .done move.runs (by rw [token]; exact UInt64.le_refl _) fun finite =>
    ⟨ρ, fun _ _ => rfl, ?_, related finite⟩
  rw [token]
  exact facing.alike.plain (move.step.issued plain) same (metrics finite)

/-- Such a change that both answer with the run they leave. -/
theorem answered {s' : Repository} {m' p' : RunRecord} {action : RunAction}
    (facing : Facing s k ρ m p) (move : s.Moves k action m m' s') (plain : action.isClaim = false)
    (same : m'.Matches ρ p') (metrics : p'.Finite → m'.SameMetrics p') :
    Together SameRun s k ρ m p (.ok m', s') (.ok (p', some p')) :=
  facing.moved move plain same (fun finite => metrics (finite p' rfl)) fun finite =>
    .of_left same (metrics (finite p' rfl))

/-- A claim, while tokens are left if it hands one out. -/
theorem claim (facing : Facing s k ρ m p) (worker : WorkerProfile) (leaseMs : UInt64)
    (reading : toU64 db.now = .ok now)
    (room : ∀ claim, (s.claimNextStep k worker leaseMs (.at now)).1 = .ok (some claim) →
      s.nextLeaseToken.toNat < UInt64.maxNat) :
    Together SameIssue s k ρ m p (s.claimNextStep k worker leaseMs (.at now))
      (Locked.claimNextStep p k worker leaseMs db) := by
  have same := facing.alike.same
  by_cases running : m.status = .running
  · have running' : p.status = .running := same.status.trans running
    cases chosen : m.workflow.steps.findSome? (claimCandidate m worker now) with
    | none =>
        have chosen' : p.workflow.steps.findSome? (claimCandidate p worker now) = none := by
          rw [same.workflow, same.claimCandidate, chosen]
        have left : s.claimNextStep k worker leaseMs (.at now) = (.ok none, s) := by
          simp only [Repository.claimNextStep, facing.found, running, Clock.at, chosen]
          rfl
        have right : Locked.claimNextStep p k worker leaseMs db = .ok (none, none) := by
          simp only [Locked.claimNextStep, running', reading, bind, Except.bind, chosen']
          rfl
        rw [left, right]
        exact facing.kept .none
    | some candidate =>
        obtain ⟨step, taskId, dependencies⟩ := candidate
        have chosen' : p.workflow.steps.findSome? (claimCandidate p worker now) =
            some (step, taskId, dependencies) := by
          rw [same.workflow, same.claimCandidate, chosen]
        cases known : m.manifest.tasks[taskId]? with
        | none =>
            have left : s.claimNextStep k worker leaseMs (.at now) = (.error (.conflict k), s) := by
              simp only [Repository.claimNextStep, facing.found, running, Clock.at, chosen, known]
              rfl
            have right : Locked.claimNextStep p k worker leaseMs db = .error (.conflict k) := by
              simp only [Locked.claimNextStep, running', reading, bind, Except.bind, chosen',
                same.manifest, known]
              rfl
            rw [left, right]
            exact .refused _
        | some task =>
            obtain ⟨record, claim, s', rfl, rfl, claimed, move⟩ :=
              Repository.claimNextStep_of_candidate s facing.keyed leaseMs (.at now) facing.found
                running chosen known
            obtain ⟨_, rfl, claimed'⟩ :=
              Locked.claimNextStep_of_candidate db leaseMs reading running' chosen'
                (by rw [same.manifest, known])
            rw [facing.own'] at claimed'
            have below := room _ (congrArg Prod.fst claimed)
            rw [claimed, claimed']
            have entry := same.entry step.id taskId
            have token := move.token_of_claim rfl
            refine .done move.runs ?_ fun _ =>
              ⟨Function.update ρ (s.nextLeaseToken.saturatingAdd 1) p.nextLeaseToken, ?_, ?_,
                .some ?_⟩
            · rw [token]
              exact UInt64.le_iff_toNat_le.mpr (UInt64.le_saturatingAdd _ _)
            · exact fun _ issued => facing.alike.update_eq below _ issued
            · rw [token]
              exact facing.alike.claim below move.step
                (facing.alike.matches_claim facing.booked below _ _ _ _ _ _)
                ⟨facing.alike.metrics.metrics, facing.alike.metrics.decisions⟩
            · refine ⟨rfl, ?_, ?_⟩
              · exact m.issued_claimed _ _ _ _ _ _
              · simp only [RunRecord.claimOf, RunRecord.claimed, StepRecord.claim,
                  Function.update_self, same.runId, same.workflow, same.input, entry.attempts,
                  entry.fallbackUsed]
  · have idle' : p.status ≠ .running := by rwa [same.status]
    have left : s.claimNextStep k worker leaseMs (.at now) = (.ok none, s) := by
      simp only [Repository.claimNextStep, facing.found]
      rw [if_pos running]
    have right : Locked.claimNextStep p k worker leaseMs db = .ok (none, none) := by
      rw [Locked.claimNextStep, if_pos idle']
    rw [left, right]
    exact facing.kept .none

/-- No lease is valid for the claims, or matching ones are. -/
theorem lease_cases (facing : Facing s k ρ m p) {claim claim' : StepClaim}
    (given : m.SameClaim p claim claim') (now : UInt64) :
    m.Unheld claim now ∧ p.Unheld claim' now ∨
      ∃ record record' lease, m.steps[claim.step.id]? = some record ∧ record.lease = some lease ∧
        lease.validFor claim now = true ∧ p.steps[claim'.step.id]? = some record' ∧
        record'.lease = some (lease.renamed ρ) ∧ (lease.renamed ρ).validFor claim' now = true ∧
        record.Matches ρ record' := by
  have same := facing.alike.same
  have step : claim'.step = claim.step := by rw [given.rest]
  unfold RunRecord.Unheld
  rw [step]
  obtain ⟨none, none'⟩ | ⟨record, record', found, found', matching⟩ :=
    same.record_cases claim.step.id
  · exact .inl ⟨by simp [none], by simp [none']⟩
  · cases leased : record.lease with
    | none =>
        have leased' : record'.lease = none := by rw [matching.lease, leased]; rfl
        exact .inl ⟨by simp [found, leased], by simp [found', leased']⟩
    | some lease =>
        have leased' : record'.lease = some (lease.renamed ρ) := by rw [matching.lease, leased]; rfl
        have valid := given.validFor same (facing.booked.issued found leased) now
        cases holds : lease.validFor claim now with
        | false =>
            rw [holds] at valid
            exact .inl ⟨by simp [found, leased, holds], by simp [found', leased', valid]⟩
        | true =>
            rw [holds] at valid
            exact .inr ⟨record, record', lease, found, leased, holds, found', leased', valid,
              matching⟩

theorem renew (facing : Facing s k ρ m p) {claim claim' : StepClaim} (target : claim.runId = k)
    (given : m.SameClaim p claim claim') (leaseMs : UInt64) (reading : toU64 db.now = .ok now) :
    Together (fun _ _ _ => Eq) s k ρ m p (s.renewStep claim leaseMs (.at now))
      (Locked.renewStep p claim' leaseMs db) := by
  subst target
  obtain ⟨unheld, unheld'⟩ | ⟨record, record', lease, found, leased, valid, found', leased', valid',
    matching⟩ := facing.lease_cases given now
  · rw [Repository.renewStep_of_unheld facing.found leaseMs unheld,
      Locked.renewStep_of_unheld leaseMs reading unheld', given.rest]
    exact .refused _
  · obtain ⟨s', renewed, move⟩ := s.renewStep_of_lease leaseMs (.at now) facing.found found leased
      valid
    rw [renewed, Locked.renewStep_of_lease leaseMs reading found' leased' valid']
    have step : claim'.step = claim.step := by rw [given.rest]
    rw [step]
    refine facing.moved move rfl ?_ (fun _ =>
      ⟨facing.alike.metrics.metrics, facing.alike.metrics.decisions⟩) fun _ => rfl
    exact facing.alike.same.setStep _ (matching.renew lease _)

theorem complete (facing : Facing s k ρ m p) {claim claim' : StepClaim} (target : claim.runId = k)
    (given : m.SameClaim p claim claim') (completion : StepCompletion)
    (reading : toU64 db.now = .ok now) :
    Together SameRun s k ρ m p (s.completeStep claim completion (.at now))
      (Locked.completeStep p claim' completion (.at now) db) := by
  subst target
  have same := facing.alike.same
  have runId : claim'.runId = claim.runId := by rw [given.rest]
  have step : claim'.step = claim.step := by rw [given.rest]
  obtain ⟨unheld, unheld'⟩ | ⟨record, record', lease, found, leased, valid, found', leased', valid',
    matching⟩ := facing.lease_cases given now
  · rw [Repository.completeStep_of_unheld facing.found completion unheld,
      Locked.completeStep_of_unheld completion _ reading unheld', runId, step]
    exact .refused _
  · have matches' : completionMatchesClaim completion claim' p.manifest =
        completionMatchesClaim completion claim m.manifest := by
      rw [given.rest, same.manifest]
      rfl
    cases accepted : completionMatchesClaim completion claim m.manifest with
    | false =>
        have left : s.completeStep claim completion (.at now) =
            (.error (.invalidCompletion claim.runId claim.step.id), s) := by
          simp only [Repository.completeStep, facing.found, found, leased, Option.any_some,
            Clock.at, valid, accepted]
          rfl
        have right : Locked.completeStep p claim' completion (.at now) db =
            .error (.invalidCompletion claim'.runId claim'.step.id) := by
          simp only [Locked.completeStep, reading, bind, Except.bind, found', leased',
            Option.any_some, valid', matches', accepted]
          rfl
        rw [left, right, runId, step]
        exact .refused _
    | true =>
        obtain ⟨sequence, _, s', rfl, completed, move⟩ := s.completeStep_of_lease facing.keyed
          claim completion (.at now) facing.found found leased valid accepted
        obtain ⟨_, rfl, completed'⟩ := Locked.completeStep_of_lease (.at now) reading
          found' leased' valid' (facing.own'.trans runId.symm) (matches'.trans accepted)
        rw [completed, completed', step]
        have logged := (facing.alike.metrics.commit claim.step.id
          (record.complete completion now now) (record'.complete completion now now))
        exact facing.answered move rfl
          ((same.commit _ (matching.complete completion now)).logged _ _ _ _)
          fun _ => ⟨logged.metrics, logged.decisions⟩

theorem record (facing : Facing s k ρ m p) (event : ExecutionEvent) :
    Together (fun _ _ _ => EventEnvelope.SameEvent) s k ρ m p (s.recordEvent k event (.at now))
      (Locked.recordEvent p k event (.at now)) := by
  have same := facing.alike.same
  have valid' := same.eventIsValid event
  cases refused : !eventBelongsToRun event k || !eventIsValidForRecord m event with
  | true =>
      have left : s.recordEvent k event (.at now) = (.error (.invalidEvent k), s) := by
        simp only [Repository.recordEvent, facing.found, refused, if_true]
      have right : Locked.recordEvent p k event (.at now) = .error (.invalidEvent k) := by
        rw [Locked.recordEvent, valid', refused, if_pos rfl]
      rw [left, right]
      exact .refused _
  | false =>
      obtain ⟨belongs, valid⟩ : event.runId = k ∧ eventIsValidForRecord m event = true := by
        simpa [eventBelongsToRun] using refused
      obtain ⟨sequence, s', recorded, move⟩ :=
        s.recordEvent_of_valid facing.keyed (.at now) facing.found valid
      have right : Locked.recordEvent p k event (.at now) =
          .ok (eventEnvelope p.runId p.nextSequence event now,
            some (p.logged event p.nextSequence now)) := by
        rw [Locked.recordEvent, valid', refused, if_neg (by simp)]
        exact Except.map_eq_ok.mpr ⟨_, RunRecord.appendRunEvent_eq_ok.mpr
          ⟨belongs.trans facing.own'.symm, rfl, rfl⟩, rfl⟩
      rw [recorded, right]
      exact facing.moved move rfl (same.logged _ _ _ _) (fun _ =>
        ⟨facing.alike.metrics.metrics, facing.alike.metrics.decisions⟩) fun _ => rfl

theorem cancel (facing : Facing s k ρ m p) (reading : toU64 db.now = .ok now) :
    Together SameRun s k ρ m p (s.cancelRun k (.at now))
      (Locked.cancelRun p k (.at now) db) := by
  have same := facing.alike.same
  cases ended : m.status.isTerminal with
  | true =>
      have left : s.cancelRun k (.at now) = (.ok m, s) := by
        simp only [Repository.cancelRun, facing.found, ended, if_true]
      have right : Locked.cancelRun p k (.at now) db = .ok (p, none) := by
        simp only [Locked.cancelRun, reading, bind, Except.bind, same.status, ended, if_true]
      rw [left, right]
      exact facing.kept (.of_left same facing.alike.metrics)
  | false =>
      obtain ⟨sequence, _, s', rfl, cancelled, move⟩ :=
        s.cancelRun_of_active facing.keyed (.at now) facing.found ended
      have right : ∃ p', p' = ((p.cancelSteps fun _ => now).bump.logged (.runFinished k .cancelled)
            p.nextSequence now) ∧
          Locked.cancelRun p k (.at now) db = .ok (p', some p') := by
        refine ⟨_, rfl, ?_⟩
        simp only [Locked.cancelRun, reading, bind, Except.bind, same.status, ended]
        exact Except.map_eq_ok.mpr ⟨_, RunRecord.appendRunEvent_eq_ok.mpr
          ⟨facing.own'.symm, rfl, rfl⟩, rfl⟩
      obtain ⟨_, rfl, cancelled'⟩ := right
      rw [cancelled, cancelled']
      exact facing.answered move rfl ((same.cancelSteps _).bump_right.logged _ _ _ _) fun _ =>
        ⟨facing.alike.metrics.metrics, facing.alike.metrics.decisions⟩

theorem finish (facing : Facing s k ρ m p) (metrics : List Metric) :
    Together SameRun s k ρ m p (s.finishRun k metrics (.at now))
      (Locked.finishRun p k metrics (.at now)) := by
  have same := facing.alike.same
  have matching : (Locked.measured m metrics).Matches ρ (Locked.measured p metrics) := by
    unfold Locked.measured
    rw [same.settled]
    split
    · exact same.settle metrics
    · exact same.setMetrics metrics metrics
  have stored : ∀ run : RunRecord, (Locked.measured run metrics).metrics = metrics ∧
      (Locked.measured run metrics).gateDecisions =
        evaluateGates run.manifest.evaluationGates metrics := by
    intro run
    unfold Locked.measured
    split
    · rw [RunRecord.settle_eq]
      exact ⟨rfl, rfl⟩
    · exact ⟨rfl, rfl⟩
  have kept : (Locked.measured m metrics).metrics = (Locked.measured p metrics).metrics ∧
      (Locked.measured m metrics).gateDecisions = (Locked.measured p metrics).gateDecisions := by
    rw [(stored m).1, (stored m).2, (stored p).1, (stored p).2, same.manifest]
    exact ⟨rfl, rfl⟩
  rw [Locked.finishRun_eq]
  by_cases status : (Locked.measured m metrics).status = m.status
  · have status' : p.status = (Locked.measured p metrics).status := by
      rw [same.status, matching.status, status]
    obtain ⟨finished, move⟩ := Repository.finishRun_of_same metrics (.at now) facing.found status
    rw [finished]
    cases changed : Locked.metricsChanged p metrics with
    | false =>
        rw [if_pos ⟨status', rfl⟩]
        -- The answer has the metrics of the request, which the row has only up to `==`.
        obtain ⟨equal, equal'⟩ : (p.metrics == metrics) = true ∧ (p.gateDecisions.toList ==
            (evaluateGates p.manifest.evaluationGates metrics).toList) = true := by
          simpa [Locked.metricsChanged, bne] using changed
        have unlogged : (Locked.measured p metrics).eventLog = p.eventLog := by
          rw [Locked.measured]
          split
          · exact RunRecord.settle_eventLog _
          · rfl
        refine facing.moved move rfl ?_ (fun _ => ⟨?_, ?_⟩) fun _ =>
          ⟨rfl, unlogged, matching, ?_, ?_⟩
        · rw [Locked.measured_of_same facing.steady status'] at matching
          exact matching
        · rw [(stored m).1]
          exact equal
        · rw [(stored m).2, ← same.manifest]
          exact equal'
        · rw [(stored m).1, (stored p).1]
          exact List.right_beq_self (fun _ _ => Metric.right_beq_self) equal
        · rw [(stored m).2, (stored p).2, ← same.manifest]
          exact List.right_beq_self (fun _ _ => GateDecision.right_beq_self_entry) equal'
    | true =>
        rw [if_neg (by simp), if_neg (not_not.mpr status')]
        exact facing.answered move rfl matching.bump_right fun finite =>
          .of_finite finite kept.1 kept.2
  · have status' : p.status ≠ (Locked.measured p metrics).status := by
      rw [same.status, matching.status]
      exact Ne.symm status
    obtain ⟨sequence, _, s', rfl, finished, move⟩ :=
      Repository.finishRun_of_changed facing.keyed metrics (.at now) facing.found status
    have right : ∃ p', p' = (Locked.measured p metrics).bump.logged
          (.runFinished k (Locked.measured p metrics).status)
          (Locked.measured p metrics).nextSequence now ∧
        (((Locked.measured p metrics).bump.appendRunEvent
          (.runFinished k (Locked.measured p metrics).status) ((Clock.at now).call 0)).map
            fun logged => (logged.2, some logged.2)) = .ok (p', some p') := by
      refine ⟨_, rfl, Except.map_eq_ok.mpr ⟨_, RunRecord.appendRunEvent_eq_ok.mpr
        ⟨?_, rfl, rfl⟩, rfl⟩⟩
      exact (Locked.measured_runId p metrics ▸ facing.own').symm
    obtain ⟨_, rfl, right⟩ := right
    rw [finished, if_neg (fun both => status' both.1), if_pos status']
    refine right ▸ facing.answered move rfl ?_ fun finite => .of_finite finite kept.1 kept.2
    rw [matching.status]
    exact matching.bump_right.logged _ _ _ _

end Facing

end Orchestrator
