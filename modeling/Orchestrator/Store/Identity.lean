import Orchestrator.Repository.Lease
import Orchestrator.Repository.Log
import Orchestrator.Store.Operation

/-!
# Identities under restored snapshots

A snapshot may hold any lease tokens and event sequences, and saving an older one
takes some of them out of the store again. The two counters of the store still
pass every token and sequence that was ever given out or that a stored run holds,
so that later claims and events get larger ones.
-/

namespace Orchestrator

/-- An attempt of the step or its lease has the token. -/
def StepRecord.Carries (record : StepRecord) (token : UInt64) : Prop :=
  (∃ attempt ∈ record.history, attempt.leaseToken = token) ∨
    ∃ lease, record.lease = some lease ∧ lease.token = token

theorem RunRecord.mem_leaseTokens {run : RunRecord} {token : UInt64} :
    token ∈ run.leaseTokens ↔
      ∃ (id : StepId) (record : StepRecord), run.steps[id]? = some record ∧
        record.Carries token := by
  simp only [leaseTokens, List.mem_flatMap, Prod.exists, StepRecord.Carries, List.mem_append,
    List.mem_map, Option.mem_toList, Std.ExtTreeMap.mem_toList_iff_getElem?_eq_some]

/-- Closing the last attempt keeps the tokens of a history. -/
theorem leaseTokens_modifyLast {close : StepAttempt → StepAttempt}
    (kept : ∀ attempt, (close attempt).leaseToken = attempt.leaseToken)
    (history : List StepAttempt) :
    (history.modifyLast close).map StepAttempt.leaseToken =
      history.map StepAttempt.leaseToken := by
  induction history using List.reverseRecOn with
  | nil => rfl
  | append_singleton history attempt => simp only [List.modifyLast_concat, List.map_append,
      List.map_cons, List.map_nil, kept]

/-- A record whose last attempt is closed and whose lease is released. -/
theorem StepRecord.Carries.of_closed {record record' : StepRecord} {token : UInt64}
    {close : StepAttempt → StepAttempt} (carries : record'.Carries token)
    (history : record'.history = record.history.modifyLast close)
    (released : record'.lease = none)
    (kept : ∀ attempt, (close attempt).leaseToken = attempt.leaseToken) :
    record.Carries token := by
  obtain ⟨attempt, member, same⟩ | ⟨lease, leased, -⟩ := carries
  · have listed : token ∈ record'.history.map StepAttempt.leaseToken :=
      List.mem_map.mpr ⟨attempt, member, same⟩
    rw [history, leaseTokens_modifyLast kept] at listed
    exact .inl (List.mem_map.mp listed)
  · rw [released] at leased
    cases leased

/-- An attempt that a claim found comes from a stored record. -/
theorem RunRecord.stored_of_entry {run : RunRecord} {id : StepId} {taskId : TaskId}
    {attempt : StepAttempt} (member : attempt ∈ (run.entry id taskId).history) :
    ∃ record, run.steps[id]? = some record ∧ attempt ∈ record.history := by
  unfold RunRecord.entry at member
  cases found : run.steps[id]? with
  | none =>
      rw [found] at member
      cases member
  | some record =>
      rw [found] at member
      exact ⟨record, rfl, member⟩

/-- The tokens of a changed record are those it had and the one of a new claim. -/
theorem RecordStep.carries_cases {next : UInt64} {action : RunAction} {run : RunRecord}
    {id : StepId} {record' : StepRecord} {token : UInt64}
    (h : RecordStep next run action id record') (carries : record'.Carries token) :
    (action.isClaim = true ∧ token = next) ∨
      ∃ record, run.steps[id]? = some record ∧ record.Carries token := by
  cases h with
  | claim worker seen now leaseMs =>
      obtain ⟨attempt, member, same⟩ | ⟨lease, leased, same⟩ := carries
      · obtain old | new := List.mem_append.mp member
        · obtain ⟨record, found, listed⟩ := RunRecord.stored_of_entry old
          exact .inr ⟨record, found, .inl ⟨attempt, listed, same⟩⟩
        · obtain rfl := List.mem_singleton.mp new
          exact .inl ⟨rfl, same.symm⟩
      · obtain rfl := Option.some.inj leased
        exact .inl ⟨rfl, same.symm⟩
  | renew claim now again leaseMs found leased =>
      refine .inr ⟨_, found, ?_⟩
      obtain old | ⟨lease, renewed, same⟩ := carries
      · exact .inl old
      · obtain rfl := Option.some.inj renewed
        exact .inr ⟨_, leased, same⟩
  | complete claim completion now retryNow finishNow found =>
      exact .inr ⟨_, found, carries.of_closed rfl rfl fun _ => rfl⟩
  | cancel id now found =>
      refine .inr ⟨_, found, ?_⟩
      unfold StepRecord.cancel at carries
      split at carries
      · exact carries
      · exact carries.of_closed rfl rfl fun attempt => by split <;> rfl
  | recover now listed found expired =>
      refine .inr ⟨_, found, ?_⟩
      cases (recoverExpiredStep_eq_some expired).2 with
      | retrying => exact carries.of_closed rfl rfl fun _ => rfl
      | fallback => exact carries.of_closed rfl rfl fun _ => rfl
      | failed => exact carries.of_closed rfl rfl fun _ => rfl

/-- The same for the tokens of a run. -/
theorem RunStep.leaseTokens_cases {next : UInt64} {action : RunAction} {run run' : RunRecord}
    (h : RunStep next action run run') {token : UInt64} (member : token ∈ run'.leaseTokens) :
    (action.isClaim = true ∧ token = next) ∨ token ∈ run.leaseTokens := by
  obtain ⟨id, record', found, carries⟩ := RunRecord.mem_leaseTokens.mp member
  obtain kept | changed := h.record_cases found
  · exact .inr (RunRecord.mem_leaseTokens.mpr ⟨id, record', kept, carries⟩)
  · refine (changed.carries_cases carries).imp_right ?_
    rintro ⟨record, before, carried⟩
    exact RunRecord.mem_leaseTokens.mpr ⟨id, record, before, carried⟩

namespace Repository

/-- The counters have passed every identity that the store holds. -/
structure Covers (s : Repository) : Prop where
  tokens : ∀ (k : RunId) (run : RunRecord), s.runs[k]? = some run →
    ∀ token ∈ run.leaseTokens, token.toNat ≤ s.nextLeaseToken.toNat
  sequences : ∀ (k : RunId), ∀ envelope ∈ s.log k,
    envelope.sequence.toNat ≤ s.nextEventSequence.toNat
  events : ∀ envelope ∈ s.events, envelope.sequence.toNat ≤ s.nextEventSequence.toNat

section Covers

variable {s s' : Repository}

theorem Moves.tokens {k : RunId} {action : RunAction} {run run' : RunRecord}
    (h : s.Moves k action run run' s')
    (tokens : s.Every fun run => ∀ token ∈ run.leaseTokens,
      token.toNat ≤ s.nextLeaseToken.toNat) :
    s'.Every fun run => ∀ token ∈ run.leaseTokens, token.toNat ≤ s'.nextLeaseToken.toNat := by
  intro id other found token member
  rw [h.runs] at found
  split at found
  · obtain rfl := Option.some.inj found
    obtain ⟨claims, rfl⟩ | old := h.step.leaseTokens_cases member
    · exact Nat.le_of_eq (by rw [h.token_of_claim claims])
    · exact Nat.le_trans (tokens k run h.found token old) h.token_le
  · exact Nat.le_trans (tokens id other found token member) h.token_le

theorem Creates.tokens {request : RunRequest} {now sequence eventNow : UInt64}
    (h : s.Creates (.created request now sequence eventNow) s')
    (tokens : s.Every fun run => ∀ token ∈ run.leaseTokens,
      token.toNat ≤ s.nextLeaseToken.toNat) :
    s'.Every fun run => ∀ token ∈ run.leaseTokens, token.toNat ≤ s'.nextLeaseToken.toNat := by
  rw [h.token]
  refine h.lift ?_ tokens
  intro token member
  obtain ⟨id, record, found, -⟩ := RunRecord.mem_leaseTokens.mp member
  simp [RunRecord.created, RunRecord.new] at found

theorem Logging.covers {envelopes : List EventEnvelope} (h : s.Logging envelopes s')
    (sequences : ∀ k, ∀ envelope ∈ s.log k,
      envelope.sequence.toNat ≤ s.nextEventSequence.toNat) :
    ∀ k, ∀ envelope ∈ s'.log k, envelope.sequence.toNat ≤ s'.nextEventSequence.toNat := by
  intro k envelope member
  rw [h.log] at member
  obtain old | new := List.mem_append.mp member
  · exact Nat.le_trans (sequences k envelope old) h.sequence_le
  · exact h.issued_le envelope (List.mem_filter.mp new).1

/-- A call keeps the counters above all identities of the store. -/
theorem step_covers (keyed : s.Keyed) (covers : s.Covers) (op : Op) :
    (repository.next s op).Covers := by
  obtain ⟨envelopes, logging⟩ := step_logging keyed op
  refine ⟨?_, logging.covers covers.sequences, ?_⟩
  · exact (step_effect keyed op).preserves
      (P := fun s => s.Every fun run => ∀ token ∈ run.leaseTokens,
        token.toNat ≤ s.nextLeaseToken.toNat)
      (fun _ _ creation => creation.tokens) (fun move => move.tokens) covers.tokens
  · intro envelope member
    rw [logging.events] at member
    obtain old | new := List.mem_append.mp member
    · exact Nat.le_trans (covers.events envelope old) logging.sequence_le
    · exact logging.issued_le envelope new

/-- Saving raises the counters and nothing that was given out. -/
theorem save_counters (s : Repository) (run : RunRecord) :
    s.nextLeaseToken.toNat ≤ (s.save run).2.nextLeaseToken.toNat ∧
      s.nextEventSequence.toNat ≤ (s.save run).2.nextEventSequence.toNat ∧
      (s.save run).2.events = s.events := by
  obtain ⟨error, refused⟩ | ⟨s', saved, -, -, -, -, token, sequence, events⟩ := s.save_cases run
  · rw [refused]
    exact ⟨Nat.le_refl _, Nat.le_refl _, rfl⟩
  · rw [saved]
    refine ⟨?_, ?_, events⟩
    · rw [token, UInt64.toNat_max]
      exact Nat.le_max_left _ _
    · rw [sequence, UInt64.toNat_max]
      exact Nat.le_max_left _ _

theorem save_covers (covers : s.Covers) (run : RunRecord) : (s.save run).2.Covers := by
  obtain ⟨tokens, sequences, same⟩ := s.save_counters run
  obtain ⟨error, refused⟩ | ⟨s', saved, runs, -, -, -, token, sequence, -⟩ := s.save_cases run
  · rw [refused]
    exact covers
  · rw [saved] at tokens sequences same ⊢
    refine ⟨?_, ?_, ?_⟩
    · intro k other found t member
      rw [runs, BTreeMap.getElem?_insert] at found
      split at found
      · obtain rfl := Option.some.inj found
        rw [token, UInt64.toNat_max]
        exact Nat.le_trans (UInt64.le_max?_getD member 0) (Nat.le_max_right _ _)
      · exact Nat.le_trans (covers.tokens k other found t member) tokens
    · intro k envelope member
      rw [log, runs, BTreeMap.getElem?_insert] at member
      split at member
      · have listed : envelope.sequence ∈ run.sequences := List.mem_map_of_mem member
        rw [sequence, UInt64.toNat_max]
        exact Nat.le_trans (UInt64.le_max?_getD listed 0) (Nat.le_max_right _ _)
      · exact Nat.le_trans (covers.sequences k envelope member) sequences
    · intro envelope member
      rw [same] at member
      exact Nat.le_trans (covers.events envelope member) sequences

end Covers

/-- A claim that a call hands out has the next token. -/
theorem Effect.claim_token {s s' : Repository} {op : Op} {response : Response} {claim : StepClaim}
    (h : s.Effect op response s') (handed : response.claim? = some claim) :
    claim.leaseToken = s.nextLeaseToken.saturatingAdd 1 ∧ s'.nextLeaseToken = claim.leaseToken := by
  cases h with
  | unchanged quiet =>
      rw [Response.claim?_of_quiet quiet] at handed
      cases handed
  | claim move =>
      obtain rfl := Option.some.inj handed
      have token := move.step.claim_fields.1
      exact ⟨token, (move.token_of_claim rfl).trans token.symm⟩
  | _ => cases handed

theorem Effect.token_le {s s' : Repository} {op : Op} {response : Response}
    (h : s.Effect op response s') : s.nextLeaseToken.toNat ≤ s'.nextLeaseToken.toNat :=
  h.preserves (P := fun t => s.nextLeaseToken.toNat ≤ t.nextLeaseToken.toNat)
    (fun _ _ creation le => Nat.le_trans le (Nat.le_of_eq (congrArg _ creation.token.symm)))
    (fun move le => Nat.le_trans le move.token_le) (Nat.le_refl _)

end Repository

/-- The claim that a call of the store handed out. -/
def StoreResponse.claim? : StoreResponse → Option StepClaim
  | .saved _ => none
  | .called response => response.claim?

/-- The claims handed out by a list of calls of the store. -/
def handedOut (s : Repository) (ops : List StoreOp) : List StepClaim :=
  (store.answers s ops).filterMap StoreResponse.claim?

/-- After the history a stored run holds the token, or a claim had it. -/
def TokenSeen (ops : List StoreOp) (token : UInt64) : Prop :=
  (∃ (k : RunId) (run : RunRecord), (store.after ops).runs[k]? = some run ∧
    token ∈ run.leaseTokens) ∨
    ∃ claim ∈ handedOut .empty ops, claim.leaseToken = token

/-- After the history a stored run holds the sequence, or an event was given it. -/
def SequenceSeen (ops : List StoreOp) (sequence : UInt64) : Prop :=
  (∃ (k : RunId) (run : RunRecord), (store.after ops).runs[k]? = some run ∧
    sequence ∈ run.sequences) ∨
    ∃ envelope ∈ (store.after ops).events, envelope.sequence = sequence

theorem keyed_next {s : Repository} (keyed : s.Keyed) (op : StoreOp) : (store.next s op).Keyed := by
  cases op with
  | save run => exact Repository.save_keyed keyed run
  | call op => exact (Repository.step_effect keyed op).keyed keyed

theorem covers_next {s : Repository} (keyed : s.Keyed) (covers : s.Covers) (op : StoreOp) :
    (store.next s op).Covers := by
  cases op with
  | save run => exact Repository.save_covers covers run
  | call op => exact Repository.step_covers keyed covers op

theorem covers_after (ops : List StoreOp) : (store.after ops).Covers := by
  have empty : Repository.Covers .empty := by
    refine ⟨?_, ?_, ?_⟩ <;> simp [Repository.empty, Repository.log]
  exact (store.after_invariant (P := fun s => s.Keyed ∧ s.Covers)
    ⟨Repository.keyed_after [], empty⟩ (fun s op before =>
      ⟨keyed_next before.1 op, covers_next before.1 before.2 op⟩) ops).2

section Later

variable {s : Repository}

theorem handedOut_cons (s : Repository) (op : StoreOp) (ops : List StoreOp) :
    handedOut s (op :: ops) =
      (store.answer s op).claim?.toList ++ handedOut (store.next s op) ops := by
  rw [handedOut, Machine.answers, List.filterMap_cons]
  cases (store.answer s op).claim? <;> rfl

/-- One call raises the token counter, by one if it hands out a claim. -/
theorem tokens_next (keyed : s.Keyed) (op : StoreOp) :
    s.nextLeaseToken.toNat ≤ (store.next s op).nextLeaseToken.toNat ∧
      ∀ claim, (store.answer s op).claim? = some claim →
        claim.leaseToken = s.nextLeaseToken.saturatingAdd 1 ∧
          (store.next s op).nextLeaseToken = claim.leaseToken := by
  cases op with
  | save run => exact ⟨(s.save_counters run).1, fun claim handed => by cases handed⟩
  | call op =>
      have effect := Repository.step_effect keyed op
      exact ⟨effect.token_le, fun claim handed => effect.claim_token handed⟩

/-- Claims handed out later have larger tokens, and the counter passes them too. -/
theorem tokens_later (keyed : s.Keyed) (ops : List StoreOp) :
    s.nextLeaseToken.toNat ≤ (store.run s ops).nextLeaseToken.toNat ∧
      ∀ claim ∈ handedOut s ops,
        claim.leaseToken.toNat ≤ (store.run s ops).nextLeaseToken.toNat ∧
          ∀ n, n ≤ s.nextLeaseToken.toNat → n < UInt64.maxNat → n < claim.leaseToken.toNat := by
  induction ops generalizing s with
  | nil => exact ⟨Nat.le_refl _, fun claim member => absurd member List.not_mem_nil⟩
  | cons op ops ih =>
      obtain ⟨grows, handed⟩ := tokens_next keyed op
      obtain ⟨later, others⟩ := ih (keyed_next keyed op)
      refine ⟨Nat.le_trans grows later, ?_⟩
      intro claim member
      rw [handedOut_cons] at member
      obtain first | rest := List.mem_append.mp member
      · obtain ⟨token, counter⟩ := handed claim (Option.mem_toList.mp first)
        refine ⟨?_, fun n passed below => ?_⟩
        · rw [counter] at later
          exact later
        · rw [token]
          exact UInt64.lt_saturatingAdd_one passed below
      · obtain ⟨passed, above⟩ := others claim rest
        exact ⟨passed, fun n le => above n (Nat.le_trans le grows)⟩

/-- One call logs events with larger sequences. -/
theorem sequences_next (keyed : s.Keyed) (op : StoreOp) :
    s.nextEventSequence.toNat ≤ (store.next s op).nextEventSequence.toNat ∧
      ∃ logged, (store.next s op).events = s.events ++ logged ∧
        (∀ envelope ∈ logged,
          envelope.sequence.toNat ≤ (store.next s op).nextEventSequence.toNat ∧
          ∀ n, n ≤ s.nextEventSequence.toNat → n < UInt64.maxNat → n < envelope.sequence.toNat) ∧
        logged.Pairwise fun earlier later => earlier.sequence.toNat < UInt64.maxNat →
          earlier.sequence < later.sequence := by
  cases op with
  | save run =>
      obtain ⟨-, sequence, events⟩ := s.save_counters run
      exact ⟨sequence, [], by rw [List.append_nil]; exact events,
        fun envelope member => absurd member List.not_mem_nil, List.Pairwise.nil⟩
  | call op =>
      obtain ⟨envelopes, logging⟩ := Repository.step_logging keyed op
      exact ⟨logging.sequence_le, envelopes, logging.events, fun envelope member =>
        ⟨logging.issued_le envelope member, fun n passed below =>
          logging.lt_issued passed below envelope member⟩, logging.ordered⟩

/-- Events logged later have larger sequences. -/
theorem sequences_later (keyed : s.Keyed) (ops : List StoreOp) :
    ∃ logged, (store.run s ops).events = s.events ++ logged ∧
      (∀ envelope ∈ logged, ∀ n, n ≤ s.nextEventSequence.toNat → n < UInt64.maxNat →
        n < envelope.sequence.toNat) ∧
      logged.Pairwise fun earlier later => earlier.sequence.toNat < UInt64.maxNat →
        earlier.sequence < later.sequence := by
  induction ops generalizing s with
  | nil => exact ⟨[], by rw [List.append_nil]; rfl,
      fun envelope member => absurd member List.not_mem_nil, List.Pairwise.nil⟩
  | cons op ops ih =>
      obtain ⟨grows, first, events, larger, ordered⟩ := sequences_next keyed op
      obtain ⟨rest, later, largest, sorted⟩ := ih (keyed_next keyed op)
      refine ⟨first ++ rest, ?_, ?_, ?_⟩
      · rw [Machine.run_cons, later, events, List.append_assoc]
      · intro envelope member n passed below
        obtain early | late := List.mem_append.mp member
        · exact (larger envelope early).2 n passed below
        · exact largest envelope late n (Nat.le_trans passed grows) below
      · refine List.pairwise_append.mpr ⟨ordered, sorted, ?_⟩
        intro earlier early envelope late below
        exact UInt64.lt_iff_toNat_lt.mpr
          (largest envelope late _ (larger earlier early).1 below)

end Later

/-- The token counter has passed every token that was given out or is stored. -/
theorem TokenSeen.le {ops : List StoreOp} {token : UInt64} (seen : TokenSeen ops token) :
    token.toNat ≤ (store.after ops).nextLeaseToken.toNat := by
  obtain ⟨k, run, found, member⟩ | ⟨claim, member, rfl⟩ := seen
  · exact (covers_after ops).tokens k run found token member
  · exact ((tokens_later (Repository.keyed_after []) ops).2 claim member).1

/-- The sequence counter has passed every sequence that was given out or is stored. -/
theorem SequenceSeen.le {ops : List StoreOp} {sequence : UInt64}
    (seen : SequenceSeen ops sequence) :
    sequence.toNat ≤ (store.after ops).nextEventSequence.toNat := by
  obtain ⟨k, run, found, member⟩ | ⟨envelope, member, rfl⟩ := seen
  · obtain ⟨envelope, logged, rfl⟩ := List.mem_map.mp member
    refine (covers_after ops).sequences k envelope ?_
    rw [Repository.log, found]
    exact logged
  · exact (covers_after ops).events envelope member

/-- The counters have passed every identity that was given out or that a stored
run holds, so that later claims and events get identities above all of those that
have not reached the largest value. -/
theorem identities_not_reused (pre later : List StoreOp) :
    (∀ token, TokenSeen pre token → token ≤ (store.after pre).nextLeaseToken) ∧
    (∀ sequence, SequenceSeen pre sequence → sequence ≤ (store.after pre).nextEventSequence) ∧
    (∀ claim ∈ handedOut (store.after pre) later, ∀ token, TokenSeen pre token →
      token.toNat < UInt64.maxNat → token < claim.leaseToken) ∧
    ∃ logged, (store.after (pre ++ later)).events = (store.after pre).events ++ logged ∧
      (∀ envelope ∈ logged, ∀ sequence, SequenceSeen pre sequence →
        sequence.toNat < UInt64.maxNat → sequence < envelope.sequence) ∧
      logged.Pairwise fun earlier later => earlier.sequence.toNat < UInt64.maxNat →
        earlier.sequence < later.sequence := by
  have keyed := store_keyed_after pre
  obtain ⟨logged, events, larger, ordered⟩ := sequences_later keyed later
  refine ⟨fun token seen => UInt64.le_iff_toNat_le.mpr seen.le,
    fun sequence seen => UInt64.le_iff_toNat_le.mpr seen.le, ?_, logged, ?_, ?_, ordered⟩
  · intro claim member token seen below
    exact UInt64.lt_iff_toNat_lt.mpr
      (((tokens_later keyed later).2 claim member).2 _ seen.le below)
  · rw [Machine.after_append, events]
  · intro envelope member sequence seen below
    exact UInt64.lt_iff_toNat_lt.mpr (larger envelope member _ seen.le below)

end Orchestrator
