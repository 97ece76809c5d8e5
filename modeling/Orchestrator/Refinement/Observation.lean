import Orchestrator.Refinement.Flooding

/-!
# The PostgreSQL repository refines the in-memory one

What holds of both repositories on paired histories, and what does not: their counters
stop at different calls, and their claims of one attempt have different tokens.
-/

namespace Orchestrator

/-! The tokens and the sequences of the in-memory repository once its counters stop. -/

namespace Repository

/-- The run has no token but the largest, and will get no other. -/
structure LastTokens (k : RunId) (s : Repository) : Prop where
  counter : UInt64.maxNat ≤ s.nextLeaseToken.toNat + 1
  last : ∀ run, s.runs[k]? = some run → ∀ id, ∀ token ∈ run.tokens id, token.toNat = UInt64.maxNat

/-- The run has no sequence but the largest, and will get no other. -/
structure LastSequences (k : RunId) (s : Repository) : Prop where
  counter : UInt64.maxNat ≤ s.nextEventSequence.toNat + 1
  last : ∀ envelope ∈ s.log k, envelope.sequence.toNat = UInt64.maxNat

variable {s : Repository} {k : RunId}

theorem LastTokens.next (keyed : s.Keyed) (last : s.LastTokens k) (op : Op) :
    (repository.next s op).LastTokens k := by
  refine (step_effect keyed op).preserves ?_ ?_ last
  · rintro request clock now sequence eventNow - - creation ⟨counter, last⟩
    refine ⟨by rwa [creation.token], fun run found id token member => ?_⟩
    rw [creation.runs] at found
    split at found
    · obtain rfl := Option.some.inj found
      simp [RunRecord.tokens, RunRecord.created, RunRecord.new] at member
    · exact last run found id token member
  · rintro s k' action run run' s' move ⟨counter, last⟩
    refine ⟨counter.trans (Nat.add_le_add_right move.token_le 1), ?_⟩
    intro other found id token member
    rw [move.runs] at found
    split at found
    next same =>
      subst same
      obtain rfl := Option.some.inj found
      obtain kept | none | ⟨-, taken⟩ := move.step.tokens id
      · rw [kept] at member
        exact last run move.found id token member
      · simp [none] at member
      · rw [taken] at member
        obtain earlier | member := List.mem_append.mp member
        · exact last run move.found id token earlier
        · rw [List.mem_singleton.mp member, UInt64.toNat_saturatingAdd, UInt64.toNat_one]
          omega
    · exact last other found id token member

theorem LastTokens.concat {ops : List Op} (last : (repository.after ops).LastTokens k) (op : Op) :
    (repository.after (ops ++ [op])).LastTokens k := by
  rw [Machine.after_concat]
  exact last.next (keyed_after ops) op

theorem LastSequences.next (keyed : s.Keyed) (last : s.LastSequences k) (op : Op) :
    (repository.next s op).LastSequences k := by
  obtain ⟨envelopes, logging⟩ := step_logging keyed op
  refine ⟨last.counter.trans (Nat.add_le_add_right logging.sequence_le 1), ?_⟩
  intro envelope member
  rw [logging.log] at member
  obtain before | member := List.mem_append.mp member
  · exact last.last envelope before
  · have counter := last.counter
    have bound := envelope.sequence.toNat_lt
    have above := logging.lt_issued (n := UInt64.maxNat - 1) (by omega) (by decide) envelope
      (List.mem_of_mem_filter member)
    simp only [UInt64.maxNat] at above ⊢
    omega

theorem LastSequences.concat {ops : List Op} (last : (repository.after ops).LastSequences k)
    (op : Op) : (repository.after (ops ++ [op])).LastSequences k := by
  rw [Machine.after_concat]
  exact last.next (keyed_after ops) op

/-- The start of a created run takes the next sequence. -/
theorem createRun_sequence {request : RunRequest} (clock : Clock)
    (accepted : validateRunRequest request = some (.ok ()))
    (unkeyed : request.idempotencyKey = none) (fresh : s.runs[request.runId]? = none) :
    (s.createRun request clock).2.nextEventSequence = s.nextEventSequence.saturatingAdd 1 := by
  have absent : s.runs.contains request.runId = false := by
    rw [Bool.eq_false_iff, Ne, BTreeMap.contains_iff]
    rintro ⟨run, found⟩
    rw [fresh] at found
    cases found
  simp only [createRun, accepted, unkeyed, absent, appendAndReturn, appendEvent,
    getElem?_setRun_self, Option.bind_eq_bind, Option.bind_none, Bool.false_eq_true, if_false]
  rfl

end Repository

/-- Runs that mirror each other have tokens and sequences that are mapped to each other. -/
theorem RunRecord.Mirrors.maps {m p : RunRecord} (mirrors : m.Mirrors p) :
    ∃ ρ σ : UInt64 → UInt64, (∀ id, p.tokens id = (m.tokens id).map ρ) ∧
      p.eventLog.map EventEnvelope.sequence =
        m.eventLog.map fun envelope => σ envelope.sequence := by
  obtain ⟨ρ, σ, same, -⟩ := mirrors
  refine ⟨ρ, σ, fun id => ?_, ?_⟩
  · have matching : m.Matches ρ p := by
      have unnumbered := congrArg (RunRecord.renamed keep fun _ => 0) same
      rwa [RunRecord.renamed_renamed, RunRecord.renamed_renamed] at unnumbered
    exact matching.tokens id
  · have log := congrArg (fun run : RunRecord => run.eventLog.map EventEnvelope.sequence) same
    simpa [RunRecord.renamed, EventEnvelope.renamed, Function.comp_def] using log.symm

namespace Sample

/-! Where the in-memory repository gives out its largest token twice, to two steps of a run. -/

/-- A run of two steps that wait for nothing. -/
def pair : RunRequest := request [step "first" 1 false, step "second" 1 false] []

/-- After a flood both steps of the run are claimed. -/
def claimsBoth (n : Nat) : List Op :=
  flood n ++ [.createRun pair (.at 0)] ++ [ask 0] ++ [ask 0]

/-- What a claim of the run makes of its row. -/
def claimedRow (run : RunRecord) : RunRecord :=
  ((Locked.claimNextStep run runId worker 10 (database 0)).toOption.bind Prod.snd).getD run

theorem claimedRow_eq (run : RunRecord) (claims : ((Locked.claimNextStep run runId worker 10
    (database 0)).any fun answer => answer.2.isSome) = true) :
    ∃ claim, Locked.claimNextStep run runId worker 10 (database 0) =
      .ok (claim, some (claimedRow run)) := by
  obtain ⟨⟨claim, written⟩, claimed, some⟩ := Except.any_eq_true.mp claims
  obtain ⟨run', rfl⟩ := Option.isSome_iff_exists.mp some
  refine ⟨claim, ?_⟩
  rw [claimedRow, claimed]
  rfl

/-- The rows of the run as it is created, and as its steps are claimed. -/
def pairRow : Nat → RunRecord
  | 0 => .created pair 0 1 0
  | n + 1 => claimedRow (pairRow n)

theorem paired_claimsBoth (n : Nat) :
    Paired (claimsBoth n) ∧ storage.Keeps (rows (claimsBoth n)) runId (pairRow 2) := by
  obtain ⟨flooded, absent⟩ := paired_flood n
  have finite : (Op.createRun pair (.at 0)).Plain :=
    ⟨fun gate listed => (List.not_mem_nil listed).elim,
      fun gate listed => (List.not_mem_nil listed).elim⟩
  have plain := flood_plain n
  obtain ⟨created, keeps⟩ := flooded.create plain finite (by decide +kernel) rfl
    (absent runId fun i _ => nthRun_ne i)
  have plain := plain.append (List.forall_mem_singleton.mpr finite)
  obtain ⟨claim, claimed⟩ := claimedRow_eq (pairRow 0) (by decide +kernel)
  obtain ⟨once, keeps⟩ := created.claim plain keeps claimed (by decide +kernel)
  have plain := plain.append (List.forall_mem_singleton.mpr
    (show (Op.claimNextStep runId worker 10 (.at 0)).Plain from trivial))
  obtain ⟨claim', claimed'⟩ := claimedRow_eq (pairRow 1) (by decide +kernel)
  exact once.claim plain keeps claimed' (by decide +kernel)

/-- A plain creation. -/
theorem single_plain (k : RunId) : (Op.createRun (single k) (.at 0)).Plain :=
  (List.forall_mem_cons.mp (start_plain k)).1

/-! Where it numbers two events of a run alike. -/

/-- After a flood a run is created and cancelled. -/
def cancelsLast (n : Nat) : List Op :=
  flood n ++ [.createRun (single runId) (.at 0)] ++ [.cancelRun runId (.at 0)]

/-- The row of the run once it is cancelled. -/
def cancelledRow : RunRecord :=
  ((Locked.cancelRun (.created (single runId) 0 1 0) runId (.at 0) (database 0)).toOption.bind
    Prod.snd).getD (.created (single runId) 0 1 0)

theorem paired_cancelsLast (n : Nat) :
    Paired (cancelsLast n) ∧ storage.Keeps (rows (cancelsLast n)) runId cancelledRow := by
  obtain ⟨flooded, absent⟩ := paired_flood n
  obtain ⟨created, keeps⟩ := flooded.create (flood_plain n) (single_plain runId)
    (single_accepted runId) rfl (absent runId fun i _ => nthRun_ne i)
  have cancels : ((Locked.cancelRun (.created (single runId) 0 1 0) runId (.at 0)
      (database 0)).any fun answer => answer.2.isSome) = true := by
    decide +kernel
  obtain ⟨⟨answer, written⟩, cancelled, some⟩ := Except.any_eq_true.mp cancels
  obtain ⟨run', rfl⟩ := Option.isSome_iff_exists.mp some
  have same : cancelledRow = run' := by
    rw [cancelledRow, cancelled]
    rfl
  rw [← same] at cancelled
  exact created.cancel ((flood_plain n).append (List.forall_mem_singleton.mpr
    (single_plain runId))) keeps cancelled (by decide +kernel)

/-- Each start of a flood takes a sequence. -/
theorem flood_sequence (n : Nat) :
    (repository.after (flood n)).nextEventSequence.toNat = min n UInt64.maxNat := by
  induction n with
  | zero => rfl
  | succ n ih =>
      have fresh : (repository.after (flood n)).runs[nthRun n]? = none :=
        (flood_after n).2 _ fun i less same => Nat.ne_of_lt less (nthRun_injective same)
      have created := Repository.createRun_sequence (.at 0) (single_accepted (nthRun n)) rfl fresh
      have claimed := Repository.claimNextStep_logging
        ((repository.after (flood n)).createRun (single (nthRun n)) (.at 0)).2 (nthRun n) worker 10
        (.at 0)
      have state : repository.after (flood (n + 1)) = (((repository.after (flood n)).createRun
          (single (nthRun n)) (.at 0)).2.claimNextStep (nthRun n) worker 10 (.at 0)).2 := by
        rw [flood, List.range_succ, List.flatMap_append, Machine.after_append]
        rfl
      cases claimed with
      | silent quiet =>
          rw [state, quiet.sequence, created, UInt64.toNat_saturatingAdd, ih, UInt64.toNat_one]
          omega

/-- After a flood only the last token and the last sequence are left. -/
theorem flood_last {n : Nat} (full : 2 ^ 64 - 2 ≤ n) :
    (repository.after (flood n)).LastTokens runId ∧
      (repository.after (flood n)).LastSequences runId := by
  obtain ⟨counter, absent⟩ := flood_after n
  have missing := absent runId fun i _ => nthRun_ne i
  refine ⟨⟨?_, fun run found => ?_⟩, ?_, fun envelope member => ?_⟩
  · rw [counter, UInt64.maxNat]
    omega
  · rw [missing] at found
    cases found
  · rw [flood_sequence, UInt64.maxNat]
    omega
  · simp [Repository.log, missing] at member

/-- The last token would have to stand for two tokens of the row. -/
theorem claimsBoth_apart {n : Nat} (full : 2 ^ 64 - 2 ≤ n) :
    ¬ Refines storage (repository.after (claimsBoth n)) (rows (claimsBoth n)) := by
  intro refines
  obtain ⟨row, there, read⟩ := (paired_claimsBoth n).2
  obtain ⟨-, missing⟩ | ⟨m, row', p, found, there', decoded, mirrors⟩ := refines runId
  · rw [missing] at there
    cases there
  · obtain rfl := Option.some.inj (there.symm.trans there')
    rw [read.decoded] at decoded
    obtain ⟨ρ, -, mapped, -⟩ := mirrors.maps
    have last : (repository.after (claimsBoth n)).LastTokens runId :=
      (((flood_last full).1.concat _).concat _).concat _
    have equal : ∀ id, ∀ token ∈ p.tokens id, token = ρ lastToken := by
      intro id token member
      rw [mapped] at member
      obtain ⟨before, issued, rfl⟩ := List.mem_map.mp member
      exact congrArg ρ (UInt64.toNat_inj.mp (last.last m found id before issued))
    rw [← Except.ok.inj decoded] at equal
    have first := equal ⟨"first"⟩ 1 (by decide +kernel)
    have second := equal ⟨"second"⟩ 2 (by decide +kernel)
    rw [← first] at second
    exact absurd second (by decide)

/-- The last sequence would have to stand for two sequences of the row. -/
theorem cancelsLast_apart {n : Nat} (full : 2 ^ 64 - 2 ≤ n) :
    ¬ Refines storage (repository.after (cancelsLast n)) (rows (cancelsLast n)) := by
  intro refines
  obtain ⟨row, there, read⟩ := (paired_cancelsLast n).2
  obtain ⟨-, missing⟩ | ⟨m, row', p, found, there', decoded, mirrors⟩ := refines runId
  · rw [missing] at there
    cases there
  · obtain rfl := Option.some.inj (there.symm.trans there')
    rw [read.decoded] at decoded
    obtain ⟨-, σ, -, mapped⟩ := mirrors.maps
    have last : (repository.after (cancelsLast n)).LastSequences runId :=
      ((flood_last full).2.concat _).concat _
    have equal : ∀ sequence ∈ p.eventLog.map EventEnvelope.sequence,
        sequence = σ lastToken := by
      intro sequence member
      rw [mapped] at member
      obtain ⟨envelope, listed, rfl⟩ := List.mem_map.mp member
      have logged : envelope ∈ (repository.after (cancelsLast n)).log runId := by
        rw [Repository.log, found]
        exact listed
      exact congrArg σ (UInt64.toNat_inj.mp (last.last envelope logged))
    rw [← Except.ok.inj decoded] at equal
    have first := equal 1 (by decide +kernel)
    have second := equal 2 (by decide +kernel)
    rw [← first] at second
    exact absurd second (by decide)

/-! Where both are given the very same claim. -/

/-- Two runs are created and claimed, the second under the second token of the in-memory
repository and under the first token of its own row. -/
def startsTwo : List Op := start (nthRun 0) ++ start runId

/-- The worker gives up the second run under the token that the in-memory repository gave. -/
def givesUpSecond : Op :=
  .completeStep (claim (step "only" 1 true) 2) (.fallback runId ⟨"only"⟩ ⟨"backup"⟩ "broken")
    (.at 0)

theorem paired_startsTwo : Paired startsTwo := by
  obtain ⟨paired, absent⟩ := paired_flood 1
  exact paired.start (flood_plain 1) (absent runId fun i _ => nthRun_ne i)

theorem givesUpSecond_apart :
    ¬ (repository.answer (repository.after startsTwo) givesUpSecond).Agrees
      (fun _ _ => True) (fun _ _ => True)
      ((postgres storage).answer (rows startsTwo) (givesUpSecond, database 0)) := by
  have left : ((repository.after startsTwo).completeStep (claim (step "only" 1 true) 2)
      (.fallback runId ⟨"only"⟩ ⟨"backup"⟩ "broken") (.at 0)).1.toBool = true := by
    decide +kernel
  have right : (storage.completeStep (rows startsTwo) (claim (step "only" 1 true) 2)
      (.fallback runId ⟨"only"⟩ ⟨"backup"⟩ "broken") (.at 0) (database 0)).1.toBool = false := by
    decide +kernel
  intro agrees
  have same := Except.Rel.toBool_eq agrees
  change ((repository.after startsTwo).completeStep (claim (step "only" 1 true) 2)
    (.fallback runId ⟨"only"⟩ ⟨"backup"⟩ "broken") (.at 0)).1.toBool =
      (storage.completeStep (rows startsTwo) (claim (step "only" 1 true) 2)
        (.fallback runId ⟨"only"⟩ ⟨"backup"⟩ "broken") (.at 0) (database 0)).1.toBool at same
  rw [left, right] at same
  cases same

end Sample

/-- The repositories keep the same runs. Where all calls are given to both at one time, claims
under the token that each has given out for the attempt, and what the calls write fits its row
and is read again, both answer with the same variants and errors, and the records that they
store mirror each other, as long as the counters of the in-memory repository can count the
claims and the events. -/
theorem repositories_keep_same_runs (store : PostgresRunStore) (calls : List (Op × PgOp))
    (paired : (repository.both (postgres store)).Along (Paired store) calls)
    (claims : (issued (calls.map Prod.fst)).length ≤ UInt64.maxNat)
    (events : (repository.after (calls.map Prod.fst)).events.length ≤ UInt64.maxNat) :
    List.Forall₂ (Response.Agrees (fun _ _ => True) fun _ _ => True)
      (repository.transcript (calls.map Prod.fst))
      ((postgres store).transcript (calls.map Prod.snd)) ∧
    Refines store (repository.after (calls.map Prod.fst))
      ((postgres store).after (calls.map Prod.snd)) := by
  obtain ⟨F, tracks, answers⟩ := simulation paired claims events
  exact ⟨answers.imp fun _ _ agrees => agrees.mono (fun _ _ _ => trivial) fun _ _ _ => trivial,
    tracks.refines events⟩

/-- Both steps of a run are claimed in both repositories. -/
theorem repositories_keep_same_runs_claimsBoth :
    List.Forall₂ (Response.Agrees (fun _ _ => True) fun _ _ => True)
      (repository.transcript ((Sample.paired (Sample.claimsBoth 1)).map Prod.fst))
      ((postgres Sample.storage).transcript
        ((Sample.paired (Sample.claimsBoth 1)).map Prod.snd)) ∧
    Refines Sample.storage
      (repository.after ((Sample.paired (Sample.claimsBoth 1)).map Prod.fst))
      ((postgres Sample.storage).after ((Sample.paired (Sample.claimsBoth 1)).map Prod.snd)) :=
  repositories_keep_same_runs Sample.storage (Sample.paired (Sample.claimsBoth 1))
    (Sample.paired_claimsBoth 1).1
    (Nat.le_trans (show _ ≤ 3 by decide +kernel) (by decide))
    (Nat.le_trans (show _ ≤ 2 by decide +kernel) (by decide))

/-- The repositories part where a counter of the in-memory one stops, first that of the tokens
and then that of the sequences, and where a completion presents the very same claim. -/
theorem repositories_part :
    (Sample.Paired (Sample.claimsBoth (2 ^ 64 - 2)) ∧
      ¬ Refines Sample.storage (repository.after (Sample.claimsBoth (2 ^ 64 - 2)))
        (Sample.rows (Sample.claimsBoth (2 ^ 64 - 2)))) ∧
    (Sample.Paired (Sample.cancelsLast (2 ^ 64 - 2)) ∧
      ¬ Refines Sample.storage (repository.after (Sample.cancelsLast (2 ^ 64 - 2)))
        (Sample.rows (Sample.cancelsLast (2 ^ 64 - 2)))) ∧
    Sample.Paired Sample.startsTwo ∧
      ¬ (repository.answer (repository.after Sample.startsTwo) Sample.givesUpSecond).Agrees
        (fun _ _ => True) (fun _ _ => True) ((postgres Sample.storage).answer
          (Sample.rows Sample.startsTwo) (Sample.givesUpSecond, Sample.database 0)) :=
  ⟨⟨(Sample.paired_claimsBoth _).1, Sample.claimsBoth_apart (Nat.le_refl _)⟩,
    ⟨(Sample.paired_cancelsLast _).1, Sample.cancelsLast_apart (Nat.le_refl _)⟩,
    Sample.paired_startsTwo, Sample.givesUpSecond_apart⟩

end Orchestrator
