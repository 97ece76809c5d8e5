import Orchestrator.Postgres.Serial
import Orchestrator.Refinement.Alike

/-!
# Fencing across sessions

A claim gets a token above those of the earlier attempts of its run, which stay in the record
of the run. Once the lease of a claim is gone no lease of its step gets that token again, so
the claim can neither renew nor complete, however the sessions interleave.
-/

namespace Orchestrator

open Json (Value toValue fromValue)

/-! The tokens of a run. -/

/-- A token once issued stays. -/
theorem LockedStep.issued_stays {action : RunAction} {run run' : RunRecord}
    (h : LockedStep action run run') {token : UInt64} (issued : run.Issued token) :
    run'.Issued token := by
  obtain ⟨id, member⟩ := issued
  cases found : run.steps[id]? with
  | none =>
      rw [RunRecord.tokens, found] at member
      cases member
  | some record =>
      obtain ⟨record', found'⟩ := h.record_stays found
      rw [RunRecord.tokens_of_found found] at member
      refine RunRecord.issued_of_found found' ?_
      obtain old | ⟨_, changed, step, same⟩ := h.record_cases found'
      · obtain rfl := Option.some.inj (found.symm.trans old)
        exact member
      · rw [same]
        change token ∈ changed.tokens
        rw [step.tokens, RunRecord.tokens_of_found found]
        exact List.mem_append_left _ member

theorem LockedStep.claim_fields {claim : StepClaim} {run run' : RunRecord}
    (h : LockedStep (.claim claim) run run') :
    claim.leaseToken = run.nextLeaseToken ∧ claim.runId = run.runId := by
  cases h
  exact ⟨rfl, rfl⟩

/-- What the claimed step looks like. -/
theorem LockedStep.claim_leases {claim : StepClaim} {run run' : RunRecord}
    (h : LockedStep (.claim claim) run run') :
    run'.Issued claim.leaseToken ∧ ∃ record lease, run'.steps[claim.step.id]? = some record ∧
      record.lease = some lease ∧ lease.token = claim.leaseToken := by
  cases h with
  | @claim _ step taskId task dependencies worker now leaseMs =>
      have found : (run.setStep step.id
          { run.claimed step.id taskId worker.id run.nextLeaseToken now leaseMs with
            nextAttemptAtMs := none }).bump.steps[step.id]? =
          some { run.claimed step.id taskId worker.id run.nextLeaseToken now leaseMs with
            nextAttemptAtMs := none } := by
        rw [RunRecord.bump_steps, RunRecord.setStep_steps, Std.ExtTreeMap.getElem?_insert_self]
      refine ⟨RunRecord.issued_of_found found ?_, _, _, found, rfl, rfl⟩
      simp [StepRecord.tokens, RunRecord.claimed, StepRecord.claim, RunRecord.claimOf]

/-- A lease after a change was there before, or was just handed out. -/
theorem LockedStep.lease_cases {action : RunAction} {run run' : RunRecord}
    (h : LockedStep action run run') {id : StepId} {record' : StepRecord} {lease' : StepLease}
    (found : run'.steps[id]? = some record') (leased : record'.lease = some lease') :
    (∃ claim, action = .claim claim ∧ claim.leaseToken = lease'.token) ∨
      ∃ record lease, run.steps[id]? = some record ∧ record.lease = some lease ∧
        lease.token = lease'.token := by
  obtain old | ⟨_, changed, step, same⟩ := h.record_cases found
  · exact .inr ⟨record', lease', old, leased, rfl⟩
  · rw [same] at leased
    obtain ⟨claim, claims, -, -, token, -⟩ | ⟨record, lease, old, held, token, -⟩ :=
      step.lease_cases leased
    · exact .inl ⟨claim, claims, token⟩
    · exact .inr ⟨record, lease, old, held, token⟩

namespace RunRecord

/-- The token was issued, and no lease of the step has it. -/
structure Retired (id : StepId) (token : UInt64) (run : RunRecord) : Prop where
  issued : run.Issued token
  unleased : ∀ (record : StepRecord) (lease : StepLease), run.steps[id]? = some record →
    record.lease = some lease → lease.token ≠ token

/-- Leases have tokens that were issued, and are held by running steps; a cancelled run has
none. -/
structure Backed (run : RunRecord) : Prop where
  steady : run.Steady
  issued : ∀ (id : StepId) (record : StepRecord) (lease : StepLease),
    run.steps[id]? = some record → record.lease = some lease → run.Issued lease.token
  cancelled : run.status = .cancelled → ∀ (id : StepId) (record : StepRecord),
    run.steps[id]? = some record → record.lease = none

theorem Retired.of_unleased {id : StepId} {token : UInt64} {run : RunRecord}
    (issued : run.Issued token) (unleased : run.leaseOf id = none) : run.Retired id token := by
  refine ⟨issued, fun record lease found leased => ?_⟩
  rw [leaseOf, found] at unleased
  rw [show record.lease = none from unleased] at leased
  cases leased

section Steps

variable {action : RunAction} {run run' : RunRecord} {id : StepId} {token : UInt64}

/-- A retired token stays retired, as long as words can count the tokens. -/
theorem Retired.step (retired : run.Retired id token) (below : token.toNat < UInt64.maxNat)
    (h : LockedStep action run run') : run'.Retired id token := by
  refine ⟨h.issued_stays retired.issued, fun record' lease' found leased => ?_⟩
  obtain ⟨claim, rfl, own⟩ | ⟨record, lease, old, held, own⟩ := h.lease_cases found leased
  · rw [← own, h.claim_fields.1]
    exact (UInt64.ne_of_lt (lt_nextLeaseToken retired.issued below)).symm
  · rw [← own]
    exact retired.unleased record lease old held

theorem Retired.turn (retired : run.Retired id token) (below : token.toNat < UInt64.maxNat)
    {op : Op} (h : Turn op run run') : run'.Retired id token :=
  h.preserves (fun step retired => retired.step below step)
    (fun _ ⟨issued, unleased⟩ => ⟨issued, unleased⟩) retired

theorem issued_of_read (read : Json.fromValue (Json.toValue run) = some run')
    (issued : run.Issued token) : run'.Issued token := by
  obtain ⟨-, -, -, -, -, forth⟩ := read_back read
  obtain ⟨id, member⟩ := issued
  cases found : run.steps[id]? with
  | none =>
      rw [tokens, found] at member
      cases member
  | some record =>
      obtain ⟨record', found', same⟩ := forth id record found
      rw [tokens_of_found found] at member
      refine issued_of_found found' ?_
      rw [same]
      exact member

theorem Retired.read (retired : run.Retired id token)
    (read : Json.fromValue (Json.toValue run) = some run') : run'.Retired id token := by
  refine ⟨issued_of_read read retired.issued, fun record' lease found leased => ?_⟩
  obtain ⟨-, -, -, -, back, -⟩ := read_back read
  obtain ⟨record, stored, same⟩ := back id record' found
  rw [same] at leased
  exact retired.unleased record lease stored leased

/-- The status of a run becomes cancelled by a cancellation only. -/
theorem status_cancelled (h : LockedStep action run run') (status : run'.status = .cancelled) :
    action = .cancel ∨ run.status = .cancelled := by
  cases h with
  | cancel => exact .inl rfl
  | claim worker now leaseMs running =>
      rw [bump_status, setStep_status] at status
      exact .inr status
  | renew => exact .inr status
  | complete =>
      rw [logged_status, commit_status] at status
      exact .inr status
  | record => exact .inr status
  | measure => exact .inr status
  | settle metrics settled same =>
      rw [bump_status] at status
      exact .inr (same.symm.trans status)
  | finish metrics =>
      rw [logged_status, bump_status, settle_status, verdict] at status
      split at status
      · cases status
      · split at status <;> cases status
  | recover =>
      rw [logged_status, noteRecovery_status, setStep_status] at status
      exact .inr status

theorem Backed.step (backed : run.Backed) (h : LockedStep action run run') : run'.Backed := by
  refine ⟨h.steady backed.steady, fun id record' lease' found leased => ?_,
    fun status id record' found => ?_⟩
  · obtain ⟨claim, rfl, own⟩ | ⟨record, lease, old, held, own⟩ := h.lease_cases found leased
    · rw [← own]
      exact h.claim_leases.1
    · rw [← own]
      exact h.issued_stays (backed.issued id record lease old held)
  · cases leased : record'.lease with
    | none => rfl
    | some lease' =>
        obtain rfl | before := status_cancelled h status
        · obtain running := (h.steady backed.steady).leased id record' found (by rw [leased]; rfl)
          cases h with
          | cancel now eventNow active =>
              simp only [logged_steps, bump_steps, cancelSteps_steps,
                Std.ExtTreeMap.getElem?_map, Option.map_eq_some_iff] at found
              obtain ⟨record, stored, rfl⟩ := found
              unfold StepRecord.cancel at leased running
              split at leased
              next settled =>
                rw [if_pos settled] at running
                rw [running.1] at settled
                cases settled
              · cases leased
        · obtain ⟨claim, rfl, -⟩ | ⟨record, lease, old, held, -⟩ := h.lease_cases found leased
          · cases h with
            | claim worker now leaseMs running =>
                rw [running] at before
                cases before
          · rw [backed.cancelled before id record old] at held
            cases held

end Steps

end RunRecord

/-- Backed runs are lasting. -/
theorem Lasting.backed : Lasting RunRecord.Backed where
  created request now eventNow accepted := by
    refine ⟨.created now 1 eventNow accepted, fun id record lease found => ?_, fun status => ?_⟩
    · simp [RunRecord.created, RunRecord.new] at found
    · cases status
  read {run run'} read backed := by
    obtain ⟨status, -, -, -, back, -⟩ := read_back read
    refine ⟨backed.steady.read read, fun id record' lease found leased => ?_,
      fun cancelled id record' found => ?_⟩
    · obtain ⟨record, stored, same⟩ := back id record' found
      rw [same] at leased
      exact RunRecord.issued_of_read read (backed.issued id record lease stored leased)
    · obtain ⟨record, stored, same⟩ := back id record' found
      rw [same]
      exact backed.cancelled (status ▸ cancelled) id record stored
  turn h backed := h.preserves (fun step backed => backed.step step)
    (fun _ backed => ⟨⟨backed.steady.distinct, backed.steady.leased, backed.steady.gated⟩,
      backed.issued, backed.cancelled⟩) backed

theorem Enduring.issued (token : UInt64) : Enduring fun run => run.Issued token :=
  ⟨RunRecord.issued_of_read, fun h => h.preserves (fun step issued => step.issued_stays issued)
    fun _ issued => issued⟩

theorem Enduring.retired (id : StepId) {token : UInt64} (below : token.toNat < UInt64.maxNat) :
    Enduring (RunRecord.Retired id token) :=
  ⟨fun read retired => retired.read read, fun h retired => retired.turn below h⟩

/-- What the row is read as has the property. -/
def Row.Reads (P : RunRecord → Prop) (row : Row) : Prop :=
  ∀ run, fromValue row.payload = some run → P run

theorem Row.Stores.reads {P : RunRecord → Prop} (enduring : Enduring P) {row : Row}
    {run : RunRecord} (stores : row.Stores run) (holds : P run) : row.Reads P := by
  intro run' read
  rw [stores.payload] at read
  exact enduring.read read holds

theorem Row.Reads.decoded {store : PostgresRunStore} {P : RunRecord → Prop} {row : Row}
    (reads : row.Reads P) {run : RunRecord}
    (decoded : store.readPayload row.payload = .ok run) : P run :=
  reads run (PostgresRunStore.of_readPayload decoded).1

namespace PostgresRunStore

variable {store : PostgresRunStore} {P : RunRecord → Prop} {s s' : Table}
variable {acts : List (SessionEvent PgOp)} {act : SessionEvent PgOp} {k : RunId} {row : Row}

/-! From one moment to a later one. -/

/-- A row that a call leaves was there, or holds a record that the call may write. -/
theorem Atomic.row_cases {op : PgOp} {response : Response} (h : store.Atomic s op response s')
    (found : s'[k]? = some row) :
    s[k]? = some row ∨ ∃ run, store.Writes s op run ∧ run.runId = k ∧ row.Stores run := by
  cases h with
  | call => exact next_row found
  | taken | unread | unswept => exact .inl found
  | sweep reads fits batch recovered =>
      refine recoverRows_row reads (fun payload member => ?_) recovered found
      obtain ⟨entry, fetched, rfl⟩ := List.mem_map.mp member
      exact ⟨entry.1, entry.2, batch.stored entry fetched, rfl⟩

theorem event_row (found : ((postgresSessions store).after (acts ++ [act])).table[k]? = some row) :
    ((postgresSessions store).after acts).table[k]? = some row ∨ ∃ op run,
      store.Writes ((postgresSessions store).after acts).table op run ∧ run.runId = k ∧
        row.Stores run := by
  obtain ⟨-, kept⟩ | ⟨op, response, answered⟩ := store.answered_cases acts act
  · exact .inl (kept ▸ found)
  · obtain ⟨-, -, -, -, atomic | ⟨-, kept, -⟩⟩ := answered.atomic
    · exact (atomic.row_cases found).imp_right fun ⟨run, written⟩ => ⟨op, run, written⟩
    · exact .inl (kept ▸ found)

theorem runId_of_decoded_after {run : RunRecord}
    (found : ((postgresSessions store).after acts).table[k]? = some row)
    (decoded : store.readPayload row.payload = .ok run) : run.runId = k :=
  (decoded_of_keeps Lasting.trivial.toEnduring (store.keeps_after .trivial acts found) decoded).1

/-- A row that has been read with an enduring property is so from then on. -/
theorem reads_later (enduring : Enduring P)
    (found : ((postgresSessions store).after acts).table[k]? = some row) (reads : row.Reads P)
    (more : List (SessionEvent PgOp)) :
    ∃ row', ((postgresSessions store).after (acts ++ more)).table[k]? = some row' ∧
      row'.Reads P := by
  induction more using Machine.history_induction with
  | nil => exact ⟨row, by rwa [List.append_nil], reads⟩
  | concat more act ih =>
      obtain ⟨old, there, kept⟩ := ih
      obtain ⟨row', found', -⟩ :=
        Database.row_stays (store.lawful .trivial) (acts ++ more) [act] there
      rw [← List.append_assoc]
      refine ⟨row', found', ?_⟩
      obtain same | ⟨op, run', written, own, stores⟩ := event_row found'
      · obtain rfl := Option.some.inj (there.symm.trans same)
        exact kept
      · refine stores.reads enduring ?_
        cases written with
        | create accepted free absent =>
            change _ = k at own
            rw [← own] at there
            exact absurd (absent.symm.trans there) (by simp)
        | @change _ k' held run _ target located decoded changed =>
            have named := runId_of_decoded_after located decoded
            have turn := Locked.written_turn
              (fun id member => (target id member).trans named.symm) changed
            obtain rfl : k' = k := named.symm.trans (turn.sameRun.symm.trans own)
            obtain rfl := Option.some.inj (there.symm.trans located)
            exact enduring.turn turn (kept.decoded decoded)

/-! Calls that succeed. -/

/-- The response tells that the call has changed the run that it locked. -/
inductive Success : PgOp → Response → RunAction → Prop where
  | claimed (runId : RunId) (worker : WorkerProfile) (leaseMs : UInt64) (clock : Clock)
      (db : PgClock) (claim : StepClaim) : Success (.claimNextStep runId worker leaseMs clock, db)
        (.claimed (.ok (some claim))) (.claim claim)
  | renewed (claim : StepClaim) (leaseMs : UInt64) (clock : Clock) (db : PgClock) :
      Success (.renewStep claim leaseMs clock, db) (.renewed (.ok ())) (.renew claim)
  | completed (claim : StepClaim) (completion : StepCompletion) (clock : Clock) (db : PgClock)
      (run : RunRecord) : Success (.completeStep claim completion clock, db)
        (.completed (.ok run)) (.complete claim completion)

/-- A row of the run went from one record to the next. -/
structure Changes (store : PostgresRunStore) (action : RunAction) (k : RunId) (s s' : Table)
    (run run' : RunRecord) : Prop where
  own : run.runId = k
  step : LockedStep action run run'
  before : ∃ row row', s[k]? = some row ∧ store.readPayload row.payload = .ok run ∧
    s'[k]? = some row' ∧ row'.Stores run' ∧ row.revision < row'.revision

theorem persistLocked_newer {run : RunRecord} {transaction : Int}
    (h : persistLocked s run transaction = .ok s') : ∃ row row', s[run.runId]? = some row ∧
      s'[run.runId]? = some row' ∧ row'.Stores run ∧ row.revision < row'.revision := by
  unfold persistLocked at h
  obtain ⟨revision, fits, h⟩ := Except.bind_eq_ok.mp h
  obtain ⟨expiry, expires, h⟩ := Except.bind_eq_ok.mp h
  split at h
  · simp at h
  next row found =>
    split at h
    next newer =>
      obtain rfl := Except.ok.inj h
      exact ⟨row, ⟨revision, toValue run, run.idempotencyKey, expiry, transaction⟩, found,
        by rw [BTreeMap.getElem?_insert, if_pos rfl], ⟨rfl, fits, expires⟩, newer⟩
    · simp at h

/-- What a transition that succeeds has read and written. -/
theorem transition_of_ok {α : Type} {db : PgClock}
    {act : RunRecord → Except RepositoryError (α × Option RunRecord)} {answer : α}
    (h : (store.transition s k db act).1 = .ok answer) :
    ∃ row run written, s[k]? = some row ∧ store.readPayload row.payload = .ok run ∧
      act run = .ok (answer, written) ∧
      (written = none ∧ (store.transition s k db act).2 = s ∨ ∃ run', written = some run' ∧
        persistLocked s run' db.transaction = .ok (store.transition s k db act).2) := by
  unfold transition at h ⊢
  split at h
  · simp at h
  · simp at h
  next run loaded =>
    obtain ⟨row, found, decoded⟩ := loadLocked_eq_ok.mp loaded
    split at h
    · simp at h
    next result acted =>
      obtain rfl := Except.ok.inj h
      exact ⟨row, run, none, found, decoded, acted, .inl ⟨rfl, rfl⟩⟩
    next result run' acted =>
      split at h
      · simp at h
      next middle persisted =>
        obtain rfl := Except.ok.inj h
        exact ⟨row, run, some run', found, decoded, acted, .inr ⟨run', rfl, persisted⟩⟩

/-- What a change of a locked run leaves once it is written. -/
theorem changes_of_persisted {action : RunAction} {run run' : RunRecord} {transaction : Int}
    (own : run.runId = k) (step : LockedStep action run run') (found : s[k]? = some row)
    (decoded : store.readPayload row.payload = .ok run)
    (persisted : persistLocked s run' transaction = .ok s') :
    store.Changes action k s s' run run' := by
  obtain ⟨old, row', found', stored, stores, newer⟩ := persistLocked_newer persisted
  rw [step.sameRequest.runId, own] at found' stored
  obtain rfl := Option.some.inj (found.symm.trans found')
  exact ⟨own, step, row, row', found, decoded, stored, stores, newer⟩

/-- A transition whose answer comes with a record has written that record. -/
theorem transition_changes {α : Type} {db : PgClock}
    {act : RunRecord → Except RepositoryError (α × Option RunRecord)} {answer : α}
    {action : RunAction}
    (named : ∀ row run, s[k]? = some row → store.readPayload row.payload = .ok run →
      run.runId = k)
    (writes : ∀ run written, run.runId = k → act run = .ok (answer, written) →
      ∃ run', written = some run' ∧ LockedStep action run run')
    (h : (store.transition s k db act).1 = .ok answer) :
    ∃ run run', store.Changes action k s (store.transition s k db act).2 run run' := by
  obtain ⟨row, run, written, found, decoded, acted, outcome⟩ := store.transition_of_ok h
  have own := named row run found decoded
  obtain ⟨run', rfl, step⟩ := writes run written own acted
  obtain ⟨absent, -⟩ | ⟨_, same, persisted⟩ := outcome
  · cases absent
  · obtain rfl := Option.some.inj same
    exact ⟨run, run', changes_of_persisted own step found decoded persisted⟩

/-- But for creations and recoveries, a call answers as the model does. -/
theorem Atomic.eq_call {op : PgOp} {response : Response} (h : store.Atomic s op response s')
    (target : op.1.target.isSome = true)
    (found : ∀ request clock, op.1 ≠ .createRun request clock) :
    response = (store.step s op).1 ∧ s' = (store.step s op).2 := by
  cases h with
  | call => exact ⟨rfl, rfl⟩
  | taken | unread => exact absurd rfl (found _ _)
  | sweep | unswept => cases target

/-- A call that succeeds has changed the record in the row of its run. -/
theorem Success.changes {op : PgOp} {response : Response} {action : RunAction}
    (success : Success op response action) (h : store.Atomic s op response s')
    (named : ∀ k row run, s[k]? = some row → store.readPayload row.payload = .ok run →
      run.runId = k) :
    ∃ k run run', op.1.target = some k ∧ store.Changes action k s s' run run' := by
  cases success with
  | claimed runId worker leaseMs clock db claim =>
      obtain ⟨answer, rfl⟩ := h.eq_call rfl (by simp)
      have writes : ∀ run written, run.runId = runId →
          Locked.claimNextStep run runId worker leaseMs db = .ok (some claim, written) →
          ∃ run', written = some run' ∧ LockedStep (.claim claim) run run' := by
        intro run written own acted
        cases written with
        | none =>
            unfold Locked.claimNextStep at acted
            split at acted
            · simp at acted
            · obtain ⟨now, -, acted⟩ := Except.bind_eq_ok.mp acted
              split at acted
              · simp at acted
              · split at acted <;> simp at acted
        | some run' =>
            obtain ⟨claim', same, step⟩ := Locked.claimNextStep_step own acted
            obtain rfl := Option.some.inj same
            exact ⟨run', rfl, step⟩
      obtain ⟨run, run', changes⟩ :=
        store.transition_changes (named runId) writes (Response.claimed.inj answer).symm
      exact ⟨runId, run, run', rfl, changes⟩
  | renewed claim leaseMs clock db =>
      obtain ⟨answer, rfl⟩ := h.eq_call rfl (by simp)
      have writes : ∀ run written, run.runId = claim.runId →
          Locked.renewStep run claim leaseMs db = .ok ((), written) →
          ∃ run', written = some run' ∧ LockedStep (.renew claim) run run' := by
        intro run written own acted
        cases written with
        | none =>
            unfold Locked.renewStep at acted
            obtain ⟨now, -, acted⟩ := Except.bind_eq_ok.mp acted
            split at acted
            · simp at acted
            · split at acted
              · simp at acted
              · split at acted <;> simp at acted
        | some run' => exact ⟨run', rfl, Locked.renewStep_step acted⟩
      obtain ⟨run, run', changes⟩ :=
        store.transition_changes (named claim.runId) writes (Response.renewed.inj answer).symm
      exact ⟨claim.runId, run, run', rfl, changes⟩
  | completed claim completion clock db completed =>
      obtain ⟨answer, rfl⟩ := h.eq_call rfl (by simp)
      have writes : ∀ run written, run.runId = claim.runId →
          Locked.completeStep run claim completion clock db = .ok (completed, written) →
          ∃ run', written = some run' ∧ LockedStep (.complete claim completion) run run' := by
        intro run written own acted
        cases written with
        | none =>
            unfold Locked.completeStep at acted
            obtain ⟨now, -, acted⟩ := Except.bind_eq_ok.mp acted
            split at acted
            · simp at acted
            · split at acted
              · simp at acted
              · split at acted
                · simp at acted
                · obtain ⟨_, -, acted⟩ := Except.map_eq_ok.mp acted
                  simp at acted
        | some run' => exact ⟨run', rfl, (Locked.completeStep_step acted).2⟩
      obtain ⟨run, run', changes⟩ :=
        store.transition_changes (named claim.runId) writes (Response.completed.inj answer).symm
      exact ⟨claim.runId, run, run', rfl, changes⟩

section Events

variable {op : PgOp} {response : Response} {claim claim' : StepClaim}
variable {more : List (SessionEvent PgOp)}

theorem Success.accepted {action : RunAction} (success : Success op response action) :
    response.refused = false := by
  cases success <;> rfl

/-- A call that is not refused answers at the moment of its end. -/
theorem Answered.now (answered : store.Answered acts act op response)
    (accepted : response.refused = false) :
    store.Atomic ((postgresSessions store).after acts).table op response
      ((postgresSessions store).after (acts ++ [act])).table := by
  obtain ⟨-, -, -, -, atomic | ⟨refused, -⟩⟩ := answered.atomic
  · exact atomic
  · rw [accepted] at refused
    cases refused

theorem Answered.changes {action : RunAction} (answered : store.Answered acts act op response)
    (success : Success op response action) :
    ∃ k run run', op.1.target = some k ∧ store.Changes action k
      ((postgresSessions store).after acts).table
      ((postgresSessions store).after (acts ++ [act])).table run run' :=
  success.changes (answered.now success.accepted) fun _ _ _ found decoded =>
    runId_of_decoded_after found decoded

/-- An answer is that of a call. -/
theorem answered_of_answer
    (h : (postgresSessions store).answer ((postgresSessions store).after acts) act =
      some response) :
    ∃ op, store.Answered acts act op response := by
  obtain ⟨quiet, -⟩ | ⟨op, other, answered⟩ := store.answered_cases acts act
  · rw [h] at quiet
    cases quiet
  · have same := answered
    obtain ⟨-, -, -, -, -, answer⟩ := same
    obtain rfl := Option.some.inj (h.symm.trans answer)
    exact ⟨op, answered⟩

/-- Only a call for a claim hands one out. -/
theorem Atomic.claimed (h : store.Atomic s op (.claimed (.ok (some claim))) s') :
    Success op (.claimed (.ok (some claim))) (.claim claim) := by
  generalize given : Response.claimed (.ok (some claim)) = response at h
  cases h with
  | call =>
      obtain ⟨op, db⟩ := op
      cases op with
      | claimNextStep runId worker leaseMs clock =>
          rw [← given]
          exact .claimed runId worker leaseMs clock db claim
      | _ => cases given
  | _ => cases given

/-- A claim that is handed out changes its run. -/
theorem claimed_changes (h : (postgresSessions store).answer ((postgresSessions store).after acts)
      act = some (.claimed (.ok (some claim)))) :
    ∃ run run', store.Changes (.claim claim) claim.runId ((postgresSessions store).after acts).table
      ((postgresSessions store).after (acts ++ [act])).table run run' := by
  obtain ⟨op, answered⟩ := answered_of_answer h
  obtain ⟨k, run, run', -, changes⟩ := answered.changes (answered.now rfl).claimed
  obtain rfl : claim.runId = k := changes.step.claim_fields.2.trans changes.own
  exact ⟨run, run', changes⟩

/-- The changed row is read with what its record has. -/
theorem Changes.reads {action : RunAction} {run run' : RunRecord}
    (changes : store.Changes action k s s' run run') (enduring : Enduring P) (holds : P run') :
    ∃ row, s'[k]? = some row ∧ row.Reads P := by
  obtain ⟨-, row', -, -, found, stores, -⟩ := changes.before
  exact ⟨row', found, stores.reads enduring holds⟩

/-- What the row was read with the changed record has. -/
theorem Changes.decoded {action : RunAction} {run run' : RunRecord}
    (changes : store.Changes action k s s' run run') (found : s[k]? = some row)
    (reads : row.Reads P) : P run := by
  obtain ⟨old, -, there, decoded, -⟩ := changes.before
  obtain rfl := Option.some.inj (found.symm.trans there)
  exact reads.decoded decoded

/-- A claim was handed out in the history. -/
def HandedOut (store : PostgresRunStore) (acts : List (SessionEvent PgOp)) (claim : StepClaim) :
    Prop :=
  some (Response.claimed (.ok (some claim))) ∈ (postgresSessions store).transcript acts

/-- The token of a claim stays in the record of its run. -/
theorem HandedOut.reads (handed : store.HandedOut acts claim) :
    ∃ row, ((postgresSessions store).after acts).table[claim.runId]? = some row ∧
      row.Reads fun run => run.Issued claim.leaseToken := by
  induction acts using Machine.history_induction with
  | nil => simp [HandedOut] at handed
  | concat acts act ih =>
      rw [HandedOut, Machine.transcript_concat, List.mem_append, List.mem_singleton] at handed
      obtain earlier | last := handed
      · obtain ⟨row, found, reads⟩ := ih earlier
        exact reads_later (.issued _) found reads [act]
      · obtain ⟨run, run', changes⟩ := claimed_changes last.symm
        exact changes.reads (.issued _) changes.step.claim_leases.1

theorem HandedOut.later (handed : store.HandedOut acts claim) (more : List (SessionEvent PgOp)) :
    store.HandedOut (acts ++ more) claim := by
  rw [HandedOut, Machine.transcript_append]
  exact List.mem_append_left _ handed

/-! What takes the lease of a claim away. -/

theorem backed_of_decoded {run : RunRecord}
    (found : ((postgresSessions store).after acts).table[k]? = some row)
    (decoded : store.readPayload row.payload = .ok run) : run.Backed :=
  (decoded_of_keeps Lasting.backed.toEnduring (store.keeps_after .backed acts found) decoded).2.2

theorem leaseOf_completed {completion : StepCompletion} {run run' : RunRecord}
    (h : LockedStep (.complete claim completion) run run') :
    run'.leaseOf claim.step.id = none ∧ ∃ record lease, run.steps[claim.step.id]? = some record ∧
      record.lease = some lease ∧ lease.token = claim.leaseToken := by
  cases h with
  | @complete _ record lease _ _ now eventNow found leased valid =>
      simp only [StepLease.validFor, Bool.and_eq_true, beq_iff_eq] at valid
      refine ⟨?_, record, lease, found, leased, valid.1.2⟩
      rw [RunRecord.leaseOf, RunRecord.logged_steps, RunRecord.commit_steps,
        Std.ExtTreeMap.getElem?_insert_self]
      rfl

/-- A recovered run has no lease of a step that was recovered. -/
theorem leaseOf_recovered {run : RunRecord} (steady : run.Steady) {now : UInt64} {clock : Clock}
    {expired : List (RunId × StepId)} {written : Option RunRecord}
    (h : Locked.recoverExpired run now clock = .ok (expired, written)) {k : RunId} {id : StepId}
    (listed : (k, id) ∈ expired) :
    k = run.runId ∧ ∃ run', written = some run' ∧ run'.leaseOf id = none := by
  obtain ⟨last, recovered, swept⟩ := Locked.recoverSteps_eq now clock steady.distinct run []
  rw [Locked.recoverExpired, recovered] at h
  obtain ⟨rfl, rfl⟩ := Prod.mk.inj (Except.ok.inj h)
  rw [List.nil_append] at listed ⊢
  obtain ⟨step, lapsed, same⟩ := List.mem_map.mp listed
  obtain ⟨rfl, rfl⟩ := Prod.mk.inj same
  obtain ⟨member, past⟩ := List.mem_filter.mp lapsed
  refine ⟨rfl, last.bump, ?_, ?_⟩
  · rw [List.isEmpty_eq_false_iff.mpr (List.ne_nil_of_mem listed)]
    rfl
  · change last.leaseOf step.id = none
    rw [swept.leases, if_pos ⟨past, step, member, rfl⟩]

/-- A recovery retires the issued token of a step that it recovers. -/
theorem recoverRows_retires {now : UInt64} {clock : Clock} {db : PgClock} {token : UInt64}
    (below : token.toNat < UInt64.maxNat) {entries : List (RunId × Row)}
    {expired expired' : List (RunId × StepId)} (distinct : (entries.map Prod.fst).Nodup)
    (reads : ∀ entry ∈ entries, ∀ run, store.readPayload entry.2.payload = .ok run →
      run.runId = entry.1 ∧ run.Steady ∧ (entry.1 = k → run.Issued token))
    (h : store.recoverRows now clock db s (entries.map fun entry => entry.2.payload) expired =
      .ok (expired', s')) {id : StepId} (listed : (k, id) ∈ expired') :
    (k, id) ∈ expired ∨ ∃ row, s'[k]? = some row ∧ row.Reads (RunRecord.Retired id token) := by
  induction entries generalizing s expired with
  | nil =>
      simp only [List.map_nil, recoverRows, Except.ok.injEq, Prod.mk.injEq] at h
      exact .inl (h.1 ▸ listed)
  | cons entry rest ih =>
      obtain ⟨apart, distinct⟩ := List.nodup_cons.mp distinct
      obtain ⟨head, others⟩ := List.forall_mem_cons.mp reads
      rw [List.map_cons, recoverRows] at h
      obtain ⟨run, decoded, h⟩ := Except.bind_eq_ok.mp h
      obtain ⟨⟨more, written⟩, acted, h⟩ := Except.bind_eq_ok.mp h
      obtain ⟨own, steady, issued⟩ := head run decoded
      have released : (k, id) ∈ more → k = run.runId ∧ ∃ run', written = some run' ∧
          run'.leaseOf id = none := fun member => leaseOf_recovered steady acted member
      cases written with
      | none =>
          refine (ih distinct others h).imp_left fun member => ?_
          obtain earlier | new := List.mem_append.mp member
          · exact earlier
          · obtain ⟨-, _, impossible, -⟩ := released new
            cases impossible
      | some run' =>
          obtain ⟨middle, persisted, h⟩ := Except.bind_eq_ok.mp h
          obtain earlier | cleared := ih distinct others h
          · obtain earlier | new := List.mem_append.mp earlier
            · exact .inl earlier
            · obtain ⟨named, _, same, unleased⟩ := released new
              obtain rfl := Option.some.inj same
              have turn := Locked.recoverExpired_turn acted
              have stays : run'.runId = k := turn.sameRun.trans named.symm
              obtain ⟨-, row, -, found, stores, -⟩ := persistLocked_newer persisted
              refine .inr ⟨row, ?_, stores.reads (.retired id below) (.of_unleased ?_ unleased)⟩
              · rw [recoverRows_others (fun entry member run decoded =>
                  (others entry member run decoded).1) h (named ▸ own ▸ apart), ← stays]
                exact found
              · exact (Enduring.issued token).turn turn (issued (own.symm.trans named.symm))
          · exact .inr cleared

theorem expiredRows_batch (s : Table) (limit : Int64) : Batch s limit (store.expiredRows s limit) :=
  batch_expiredAmong (BTreeMap.keys_nodup s) fun _ member => mem_expiredRows member

/-- The rows that a recovery has taken. -/
theorem Atomic.recovered {clock : Clock} {db : PgClock} {expired : List (RunId × StepId)}
    (h : store.Atomic s (.recoverExpired clock, db) (.recovered (.ok expired)) s') :
    ∃ now limit rows, Batch s limit rows ∧
      store.recoverRows now clock db s (rows.map fun entry => entry.2.payload) [] =
        .ok (expired, s') := by
  generalize called : (Op.recoverExpired clock, db) = op at h
  generalize given : Response.recovered (.ok expired) = response at h
  cases h with
  | call =>
      subst called
      change Response.recovered (.ok expired) =
        .recovered (store.recoverExpired s clock db).1 at given
      change ∃ now limit rows, Batch s limit rows ∧ store.recoverRows now clock db s _ [] =
        .ok (expired, (store.recoverExpired s clock db).2)
      unfold recoverExpired at given ⊢
      split at given
      · cases given
      next expired' last result =>
        obtain ⟨now, -, result⟩ := Except.bind_eq_ok.mp result
        obtain ⟨limit, -, result⟩ := Except.bind_eq_ok.mp result
        obtain rfl := Except.ok.inj (Response.recovered.inj given)
        exact ⟨now, limit, _, expiredRows_batch s limit, result⟩
  | taken | unread => cases called
  | sweep reads fits batch result =>
      obtain ⟨same, rfl⟩ := Prod.mk.inj called
      obtain rfl := Op.recoverExpired.inj same
      obtain rfl := Except.ok.inj (Response.recovered.inj given)
      exact ⟨_, _, _, batch, result⟩
  | unswept => cases given

/-- The call has renewed or completed under a claim that names the run, the step and the
token of this one. -/
inductive Uses (claim : StepClaim) : Op → Response → Prop where
  | renewed (used : StepClaim) (leaseMs : UInt64) (clock : Clock)
      (run : used.runId = claim.runId) (step : used.step.id = claim.step.id)
      (token : used.leaseToken = claim.leaseToken) :
      Uses claim (.renewStep used leaseMs clock) (.renewed (.ok ()))
  | completed (used : StepClaim) (completion : StepCompletion) (clock : Clock) (record : RunRecord)
      (run : used.runId = claim.runId) (step : used.step.id = claim.step.id)
      (token : used.leaseToken = claim.leaseToken) :
      Uses claim (.completeStep used completion clock) (.completed (.ok record))

/-- A call that uses a claim finds its lease. -/
theorem Answered.not_uses (answered : store.Answered acts act op response)
    (found : ((postgresSessions store).after acts).table[claim.runId]? = some row)
    (reads : row.Reads (RunRecord.Retired claim.step.id claim.leaseToken)) :
    ¬ Uses claim op.1 response := by
  obtain ⟨op, db⟩ := op
  intro uses
  cases uses with
  | renewed used leaseMs clock own step token =>
      obtain ⟨k, run, run', target, changes⟩ := answered.changes (.renewed used leaseMs clock db)
      obtain rfl : claim.runId = k := own.symm.trans (Option.some.inj target)
      have retired := changes.decoded found reads
      have renewal := changes.step
      cases renewal with
      | renew _ now _ stored leased valid =>
          simp only [StepLease.validFor, Bool.and_eq_true, beq_iff_eq] at valid
          rw [step] at stored
          exact retired.unleased _ _ stored leased (valid.1.2.trans token)
  | completed used completion clock record own step token =>
      obtain ⟨k, run, run', target, changes⟩ :=
        answered.changes (.completed used completion clock db record)
      obtain rfl : claim.runId = k := own.symm.trans (Option.some.inj target)
      have retired := changes.decoded found reads
      obtain ⟨-, record, lease, stored, leased, same⟩ := leaseOf_completed changes.step
      rw [step] at stored
      exact retired.unleased record lease stored leased (same.trans token)

/-- A completion leaves its token retired. -/
theorem Answered.completed_retires {db : PgClock} {completion : StepCompletion} {clock : Clock}
    {record : RunRecord} (below : claim.leaseToken.toNat < UInt64.maxNat)
    (answered : store.Answered acts act (.completeStep claim completion clock, db)
      (.completed (.ok record))) :
    ∃ row, ((postgresSessions store).after (acts ++ [act])).table[claim.runId]? = some row ∧
      row.Reads (RunRecord.Retired claim.step.id claim.leaseToken) := by
  obtain ⟨k, run, run', target, changes⟩ :=
    answered.changes (.completed claim completion clock db record)
  obtain rfl := Option.some.inj target
  obtain ⟨unleased, record, lease, stored, leased, same⟩ := leaseOf_completed changes.step
  refine changes.reads (.retired _ below) (.of_unleased ?_ unleased)
  obtain ⟨row, -, found, decoded, -⟩ := changes.before
  have issued := (backed_of_decoded found decoded).issued _ _ _ stored leased
  rw [same] at issued
  exact changes.step.issued_stays issued

/-- A cancelled run has no leases left. -/
theorem Answered.cancelled_retires {db : PgClock} {clock : Clock} {record : RunRecord}
    {id : StepId} {token : UInt64} (below : token.toNat < UInt64.maxNat)
    (found : ((postgresSessions store).after acts).table[k]? = some row)
    (reads : row.Reads fun run => run.Issued token)
    (answered : store.Answered acts act (.cancelRun k clock, db) (.cancelled (.ok record)))
    (status : record.status = .cancelled) :
    ∃ row, ((postgresSessions store).after (acts ++ [act])).table[k]? = some row ∧
      row.Reads (RunRecord.Retired id token) := by
  obtain ⟨answer, left⟩ := (answered.now rfl).eq_call rfl (by simp)
  obtain ⟨old, run, written, found', decoded, acted, outcome⟩ :=
    store.transition_of_ok (Response.cancelled.inj answer).symm
  obtain rfl := Option.some.inj (found.symm.trans found')
  have own := runId_of_decoded_after found decoded
  have backed := backed_of_decoded found decoded
  have issued : run.Issued token := reads.decoded decoded
  have unleased : ∀ {run : RunRecord}, run.Backed → run.status = .cancelled →
      run.leaseOf id = none := by
    intro run backed status
    rw [RunRecord.leaseOf]
    cases stored : run.steps[id]? with
    | none => rfl
    | some record => exact backed.cancelled status id record stored
  obtain ⟨rfl, kept⟩ | ⟨run', rfl, persisted⟩ := outcome
  · refine ⟨row, ?_, fun run' read => ?_⟩
    · rw [left]
      exact (congrArg (fun s : Table => s[k]?) kept).trans found
    · have same : run' = run := Option.some.inj
        (read.symm.trans (of_readPayload decoded).1)
      have answered : record = run := by
        unfold Locked.cancelRun at acted
        obtain ⟨now, -, acted⟩ := Except.bind_eq_ok.mp acted
        split at acted
        · exact (Prod.mk.inj (Except.ok.inj acted)).1.symm
        · obtain ⟨_, -, acted⟩ := Except.map_eq_ok.mp acted
          simp at acted
      rw [same]
      exact .of_unleased issued (unleased backed (answered ▸ status))
  · obtain ⟨rfl, step⟩ := Locked.cancelRun_step own acted
    have changes := changes_of_persisted own step found decoded persisted
    rw [show ((postgresSessions store).after (acts ++ [act])).table = _ from left]
    exact changes.reads (.retired id below)
      (.of_unleased (step.issued_stays issued) (unleased (backed.step step) status))

/-- A recovery that lists a step has retired the tokens of its claims. -/
theorem Answered.recovered_retires {db : PgClock} {clock : Clock}
    {expired : List (RunId × StepId)} {id : StepId} {token : UInt64}
    (below : token.toNat < UInt64.maxNat)
    (found : ((postgresSessions store).after acts).table[k]? = some row)
    (reads : row.Reads fun run => run.Issued token)
    (answered : store.Answered acts act (.recoverExpired clock, db) (.recovered (.ok expired)))
    (listed : (k, id) ∈ expired) :
    ∃ row, ((postgresSessions store).after (acts ++ [act])).table[k]? = some row ∧
      row.Reads (RunRecord.Retired id token) := by
  obtain ⟨now, limit, rows, batch, recovered⟩ := (answered.now rfl).recovered
  refine (recoverRows_retires below batch.distinct ?_ recovered listed).resolve_left
    List.not_mem_nil
  intro entry member run decoded
  have stored := batch.stored entry member
  refine ⟨runId_of_decoded_after stored decoded, (backed_of_decoded stored decoded).steady, ?_⟩
  rintro rfl
  obtain rfl := Option.some.inj (found.symm.trans stored)
  exact reads.decoded decoded

/-- A call that retires a claim leaves its token without a lease. -/
theorem retired_of_retires (below : claim.leaseToken.toNat < UInt64.maxNat)
    (handed : store.HandedOut acts claim) (answered : store.Answered acts act op response)
    (retires : Retires claim op.1 response) :
    ∃ row, ((postgresSessions store).after (acts ++ [act])).table[claim.runId]? = some row ∧
      row.Reads (RunRecord.Retired claim.step.id claim.leaseToken) := by
  obtain ⟨op, db⟩ := op
  obtain ⟨row, found, reads⟩ := handed.reads
  cases retires with
  | completed completion clock run => exact answered.completed_retires below
  | recovered clock expired listed => exact answered.recovered_retires below found reads listed
  | cancelled clock run status => exact answered.cancelled_retires below found reads status
  | superseded runId worker leaseMs clock later sameRun sameStep =>
      obtain ⟨k, run, run', -, changes⟩ :=
        answered.changes (.claimed runId worker leaseMs clock db later)
      obtain rfl : claim.runId = k :=
        sameRun.symm.trans (changes.step.claim_fields.2.trans changes.own)
      have issued : run.Issued claim.leaseToken := changes.decoded found reads
      obtain ⟨-, record, lease, stored, leased, token⟩ := changes.step.claim_leases
      refine changes.reads (.retired _ below) ⟨changes.step.issued_stays issued, ?_⟩
      intro other lease' stored' leased'
      rw [sameStep] at stored
      obtain rfl := Option.some.inj (stored.symm.trans stored')
      obtain rfl := Option.some.inj (leased.symm.trans leased')
      rw [token, changes.step.claim_fields.1]
      exact (UInt64.ne_of_lt (RunRecord.lt_nextLeaseToken issued below)).symm

end Events

end PostgresRunStore

variable (store : PostgresRunStore)

/-- However sessions interleave, a later claim of a run gets a larger token, as long as words
can count them. -/
theorem sessions_claims_increase {before between : List (SessionEvent PgOp)}
    {act act' : SessionEvent PgOp} {claim claim' : StepClaim}
    (first : (postgresSessions store).answer ((postgresSessions store).after before) act =
      some (.claimed (.ok (some claim))))
    (second : (postgresSessions store).answer
      ((postgresSessions store).after (before ++ [act] ++ between)) act' =
        some (.claimed (.ok (some claim'))))
    (same : claim'.runId = claim.runId) (below : claim.leaseToken.toNat < 2 ^ 64 - 1) :
    claim.leaseToken < claim'.leaseToken := by
  have handed : store.HandedOut (before ++ [act]) claim := by
    rw [PostgresRunStore.HandedOut, Machine.transcript_concat, first]
    exact List.mem_append_right _ List.mem_cons_self
  obtain ⟨row, found, reads⟩ := (handed.later between).reads
  obtain ⟨run, run', changes⟩ := PostgresRunStore.claimed_changes second
  rw [same] at changes
  have issued : run.Issued claim.leaseToken := changes.decoded found reads
  rw [changes.step.claim_fields.1]
  exact RunRecord.lt_nextLeaseToken issued below

/-- However sessions interleave, a claim whose step was completed under its token, recovered,
cancelled or claimed again is never renewed or completed afterwards. -/
theorem sessions_fence_stale_claims {before between : List (SessionEvent PgOp)}
    {act again : SessionEvent PgOp} {op op' : PgOp} {response response' : Response}
    {claim : StepClaim} (below : claim.leaseToken.toNat < 2 ^ 64 - 1)
    (answered : store.Answered before act op response)
    (ended : Completed claim op.1 response ∨
      store.HandedOut before claim ∧ Retires claim op.1 response)
    (later : store.Answered (before ++ [act] ++ between) again op' response') :
    ¬ PostgresRunStore.Uses claim op'.1 response' := by
  have retired : ∃ row, ((postgresSessions store).after (before ++ [act])).table[claim.runId]? =
      some row ∧ row.Reads (RunRecord.Retired claim.step.id claim.leaseToken) := by
    obtain ⟨completion, clock, run, called, rfl⟩ | ⟨handed, retires⟩ := ended
    · obtain ⟨op, db⟩ := op
      obtain rfl := called
      exact answered.completed_retires below
    · exact PostgresRunStore.retired_of_retires below handed answered retires
  obtain ⟨row, found, reads⟩ := retired
  obtain ⟨row', found', reads'⟩ :=
    PostgresRunStore.reads_later (.retired _ below) found reads between
  exact later.not_uses found' reads'

namespace Sample

/-- The claim in an answer that has one which passes the test. -/
theorem claimed_of_any (answer : Option Response) (test : StepClaim → Bool)
    (computed : answer.any (fun response => response.claim?.any test) = true) :
    ∃ claim, answer = some (.claimed (.ok (some claim))) ∧ test claim = true := by
  simp only [Option.any_eq_true] at computed
  obtain ⟨response, rfl, claim, handed, passes⟩ := computed
  refine ⟨claim, ?_, passes⟩
  unfold Response.claim? at handed
  split at handed
  · rw [handed]
  · cases handed

end Sample

/-- The two workers get the tokens in the order of their locks. -/
theorem sessions_claims_increase_raced : ∃ claim claim' : StepClaim,
    (postgresSessions Sample.storage).answer
        ((postgresSessions Sample.storage).after Sample.raced) (.proceed 1) =
      some (.claimed (.ok (some claim))) ∧
    (postgresSessions Sample.storage).answer
        ((postgresSessions Sample.storage).after
          (Sample.raced ++ [.proceed 1] ++ [.proceed 2, .proceed 2])) (.proceed 2) =
      some (.claimed (.ok (some claim'))) ∧
    claim.leaseToken < claim'.leaseToken := by
  obtain ⟨claim, first, passes⟩ := Sample.claimed_of_any
    ((postgresSessions Sample.storage).answer
      ((postgresSessions Sample.storage).after Sample.raced) (.proceed 1))
    (fun claim => claim.runId == Sample.runId && claim.leaseToken == 1) (by decide +kernel)
  obtain ⟨claim', second, passes'⟩ := Sample.claimed_of_any
    ((postgresSessions Sample.storage).answer ((postgresSessions Sample.storage).after
      (Sample.raced ++ [.proceed 1] ++ [.proceed 2, .proceed 2])) (.proceed 2))
    (fun claim => claim.runId == Sample.runId) (by decide +kernel)
  simp only [Bool.and_eq_true, beq_iff_eq] at passes passes'
  refine ⟨claim, claim', first, second, ?_⟩
  apply sessions_claims_increase Sample.storage first second (passes'.trans passes.1.symm)
  rw [passes.2]
  decide

namespace Sample

/-- A worker has claimed the first step, and the lease has run out when a recovery has locked
the run. -/
def lapsed : List (SessionEvent PgOp) :=
  opened ++ calls 1 (ask 0) 0 3 ++ calls 2 (.recoverExpired (.at 20)) 20 2

/-- What the worker reports under its token. -/
def lateReport : PgOp := (succeed (step "first" 2 false) 1 20 (.string "done"), database 20)

/-- The worker starts its report while the recovery is at its end. -/
def reported : List (SessionEvent PgOp) := [.start 1 lateReport, .proceed 1]

/-- The recovery has recovered the first step. -/
def recoversFirst : Response → Bool
  | .recovered (.ok expired) => expired == [(runId, ⟨"first"⟩)]
  | _ => false

theorem answered_of {acts : List (SessionEvent PgOp)} {i : Nat} {op : PgOp}
    {response : Response} (began : Nat) (started : acts[began]? = some (.start i op))
    (within : ((postgresSessions storage).after acts).sessions[i]?.map Session.began = some began)
    (answer : (postgresSessions storage).answer ((postgresSessions storage).after acts)
      (.proceed i) = some response) : storage.Answered acts (.proceed i) op response := by
  obtain ⟨session, stored, rfl⟩ := Option.map_eq_some_iff.mp within
  have sound := Database.sound_after (storage.lawful .trivial) acts
  have called := (sound.started stored).symm.trans started
  exact ⟨i, session, rfl, stored, (SessionEvent.start.inj (Option.some.inj called)).2, answer⟩

end Sample

/-- The report that comes after the recovery is not accepted. -/
theorem sessions_fence_stale_claims_lapsed : ∃ (claim : StepClaim) (response : Response),
    claim.leaseToken = 1 ∧ Sample.storage.HandedOut Sample.lapsed claim ∧
    Sample.storage.Answered (Sample.lapsed ++ [.proceed 2] ++ Sample.reported) (.proceed 1)
      Sample.lateReport response ∧
    ¬ PostgresRunStore.Uses claim Sample.lateReport.1 response := by
  obtain ⟨claim, handed, passes⟩ := Sample.claimed_of_any
    ((postgresSessions Sample.storage).answer ((postgresSessions Sample.storage).after
      (Sample.opened ++ Sample.calls 1 (Sample.ask 0) 0 2)) (.proceed 1))
    (fun claim => claim.runId == Sample.runId && claim.step.id == ⟨"first"⟩ &&
      claim.leaseToken == 1) (by decide +kernel)
  simp only [Bool.and_eq_true, beq_iff_eq] at passes
  have known : Sample.storage.HandedOut Sample.lapsed claim := by
    have here : Sample.storage.HandedOut
        (Sample.opened ++ Sample.calls 1 (Sample.ask 0) 0 2 ++ [.proceed 1]) claim := by
      rw [PostgresRunStore.HandedOut, Machine.transcript_concat, handed]
      exact List.mem_append_right _ List.mem_cons_self
    exact here.later (Sample.calls 2 (.recoverExpired (.at 20)) 20 2)
  have recovers : ((postgresSessions Sample.storage).answer
      ((postgresSessions Sample.storage).after Sample.lapsed) (.proceed 2)).any
        Sample.recoversFirst = true := by decide +kernel
  have reports : ((postgresSessions Sample.storage).answer ((postgresSessions Sample.storage).after
      (Sample.lapsed ++ [.proceed 2] ++ Sample.reported)) (.proceed 1)).isSome = true := by
    decide +kernel
  simp only [Option.any_eq_true] at recovers
  obtain ⟨response, answer, expected⟩ := recovers
  obtain ⟨response', answer'⟩ := Option.isSome_iff_exists.mp reports
  have retired : Retires claim (.recoverExpired (.at 20)) response := by
    unfold Sample.recoversFirst at expected
    split at expected
    next expired =>
      refine .recovered _ expired ?_
      rw [beq_iff_eq.mp expected, passes.1.1, passes.1.2]
      exact List.mem_cons_self
    · cases expected
  have later : Sample.storage.Answered (Sample.lapsed ++ [.proceed 2] ++ Sample.reported)
      (.proceed 1) Sample.lateReport response' :=
    Sample.answered_of 12 rfl (by decide +kernel) answer'
  refine ⟨claim, response', passes.2, known, later, ?_⟩
  exact sessions_fence_stale_claims Sample.storage (by rw [passes.2]; decide)
    (Sample.answered_of 8 rfl (by decide +kernel) answer) (.inr ⟨known, retired⟩) later

end Orchestrator
