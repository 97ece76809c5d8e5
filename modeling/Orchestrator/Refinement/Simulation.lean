import Orchestrator.Refinement.Mirroring
import Orchestrator.Refinement.Sweeping

/-!
# The PostgreSQL repository refines the in-memory one
-/

namespace Orchestrator

/-- Claims that are the same but for their tokens, which stand for the same attempt of the
run that both repositories know, if for any. -/
structure Corresponds (store : PostgresRunStore) (s : Repository) (t : Table)
    (claim claim' : StepClaim) : Prop where
  rest : claim' = { claim with leaseToken := claim'.leaseToken }
  token : ∀ (m : RunRecord) (row : Row) (p : RunRecord), s.runs[claim.runId]? = some m →
    t[claim.runId]? = some row → store.readPayload row.payload = .ok p →
    ∀ (id : StepId), ∀ pair ∈ (m.tokens id).zip (p.tokens id),
      claim.leaseToken = pair.1 ↔ claim'.leaseToken = pair.2

/-- The rows with a lease that has run out. -/
def Table.expired (t : Table) (limit : Int64) : List (RunId × Row) :=
  t.toList.filter fun entry => entry.2.leaseExpiresAtMs.any fun expiry => decide (expiry ≤ limit)

/-- The same call, made to both repositories at one time. A recovery finds at most a hundred
rows. -/
inductive SameCall (store : PostgresRunStore) (s : Repository) (t : Table) (now : UInt64)
    (db : PgClock) : Op → Op → Prop where
  | createRun (request : RunRequest) :
      SameCall store s t now db (.createRun request (.at now)) (.createRun request (.at now))
  | claimNextStep (k : RunId) (worker : WorkerProfile) (leaseMs : UInt64) :
      SameCall store s t now db (.claimNextStep k worker leaseMs (.at now))
        (.claimNextStep k worker leaseMs (.at now))
  | renewStep {claim claim' : StepClaim} (leaseMs : UInt64)
      (given : Corresponds store s t claim claim') :
      SameCall store s t now db (.renewStep claim leaseMs (.at now))
        (.renewStep claim' leaseMs (.at now))
  | completeStep {claim claim' : StepClaim} (completion : StepCompletion)
      (given : Corresponds store s t claim claim') :
      SameCall store s t now db (.completeStep claim completion (.at now))
        (.completeStep claim' completion (.at now))
  | recordEvent (k : RunId) (event : ExecutionEvent) :
      SameCall store s t now db (.recordEvent k event (.at now)) (.recordEvent k event (.at now))
  | finishRun (k : RunId) (metrics : List Metric) :
      SameCall store s t now db (.finishRun k metrics (.at now)) (.finishRun k metrics (.at now))
  | cancelRun (k : RunId) :
      SameCall store s t now db (.cancelRun k (.at now)) (.cancelRun k (.at now))
  | recoverExpired (few : (t.expired db.now).length ≤ recoveryBatchSize) :
      SameCall store s t now db (.recoverExpired (.at now)) (.recoverExpired (.at now))

/-- The call is the same for both repositories, and whatever it writes fits its row and is
read again. -/
structure Paired (store : PostgresRunStore) (state : Repository × Table) (call : Op × PgOp) :
    Prop where
  same : ∃ now, toU64 call.2.2.now = .ok now ∧
    SameCall store state.1 state.2 now call.2.2 call.1 call.2.1
  fits : ∀ run, store.Writes state.2 call.2 run → store.Fits run

/-- The answers are of the same variant and errors are equal; claims are related by `R` and
runs by `M`, envelopes hold the same event, and lists of recovered steps differ in their
order only. -/
def Response.Agrees (R : StepClaim → StepClaim → Prop) (M : RunRecord → RunRecord → Prop) :
    Response → Response → Prop
  | .created result, .created result' => Option.Rel (Except.Rel M) result result'
  | .claimed result, .claimed result' => Except.Rel (Option.Rel R) result result'
  | .renewed result, .renewed result' => Except.Rel Eq result result'
  | .completed result, .completed result' => Except.Rel M result result'
  | .recorded result, .recorded result' => Except.Rel EventEnvelope.SameEvent result result'
  | .finished result, .finished result' => Except.Rel M result result'
  | .cancelled result, .cancelled result' => Except.Rel M result result'
  | .recovered result, .recovered result' => Except.Rel List.Perm result result'
  | _, _ => False

/-- The claims were handed out together. -/
def Handed (F : RunId → UInt64 → UInt64) (s : Repository) (claim claim' : StepClaim) : Prop :=
  ∃ m, s.runs[claim.runId]? = some m ∧ m.Issued claim.leaseToken ∧
    claim' = { claim with leaseToken := F claim.runId claim.leaseToken }

theorem Response.Agrees.mono {R R' : StepClaim → StepClaim → Prop}
    {M M' : RunRecord → RunRecord → Prop} {response response' : Response}
    (agrees : response.Agrees R M response')
    (claims : ∀ claim claim', R claim claim' → R' claim claim')
    (runs : ∀ run run', M run run' → M' run run') : response.Agrees R' M' response' := by
  cases response with
  | created result =>
      cases response' with
      | created result' =>
          cases agrees with
          | none => exact .none
          | some related => exact .some (related.mono runs)
      | _ => exact agrees
  | claimed result =>
      cases response' with
      | claimed result' =>
          refine Except.Rel.mono agrees fun _ _ related => ?_
          cases related with
          | none => exact .none
          | some related => exact .some (claims _ _ related)
      | _ => exact agrees
  | completed result =>
      cases response' with
      | completed result' => exact Except.Rel.mono agrees runs
      | _ => exact agrees
  | finished result =>
      cases response' with
      | finished result' => exact Except.Rel.mono agrees runs
      | _ => exact agrees
  | cancelled result =>
      cases response' with
      | cancelled result' => exact Except.Rel.mono agrees runs
      | _ => exact agrees
  | _ => cases response' <;> exact agrees

section Step

variable {store : PostgresRunStore} {F : RunId → UInt64 → UInt64} {s : Repository} {t : Table}
  {now : UInt64} {db : PgClock} {op op' : Op}

/-- Corresponding claims are the same claim for the run and its row. -/
theorem Corresponds.sameClaim {claim claim' : StepClaim} {m p : RunRecord} {row : Row}
    (given : Corresponds store s t claim claim') (found : s.runs[claim.runId]? = some m)
    (there : t[claim.runId]? = some row) (decoded : store.readPayload row.payload = .ok p) :
    m.SameClaim p claim claim' :=
  ⟨given.rest, given.token m row p found there decoded⟩

/-- A call on one run, which writes what it makes of the run that its row is read as. -/
theorem Tracks.answered {α β : Type}
    {R : (UInt64 → UInt64) → RunRecord → RunRecord → α → β → Prop}
    {result : Except RepositoryError α × Repository} {k : RunId}
    {act : RunRecord → Except RepositoryError (β × Option RunRecord)}
    (tracks : Tracks store F s t) (upheld : Upheld s t) (target : op.target = some k)
    (fits : ∀ run, store.Writes t (op, db) run → store.Fits run)
    (acts : ∀ p, Locked.written p (op, db) = (act p).map Prod.snd)
    (missing : s.runs[k]? = none → result = (.error (.runNotFound k), s))
    (together : ∀ m row p, t[k]? = some row → store.readPayload row.payload = .ok p →
      Facing s k (F k) m p → Together R s k (F k) m p result (act p)) :
    Continued store F (Located store R k) s result (store.transition t k db act) := by
  refine tracks.transition upheld missing together
    fun row p there decoded own b p' acted => ?_
  have written : Locked.written p (op, db) = .ok (some p') :=
    (acts p).trans (Except.map_eq_ok.mpr ⟨_, acted, rfl⟩)
  have turn : Turn op p p' := Locked.written_turn (fun id member => by
    rw [target] at member
    exact (Option.some.inj member).symm.trans own.symm) written
  refine ⟨fits p' (.change (fun id member => ?_) there decoded written), turn.sameRun.trans own,
    turn.raised⟩
  rw [target] at member
  exact (Option.some.inj member).symm

/-- One call to both repositories. -/
theorem Tracks.step (tracks : Tracks store F s t) (upheld : Upheld s t)
    (reading : toU64 db.now = .ok now) (same : SameCall store s t now db op op')
    (fits : ∀ run, store.Writes t (op', db) run → store.Fits run)
    (room : ∀ claim, (repository.answer s op).claim? = some claim →
      s.nextLeaseToken.toNat < UInt64.maxNat) :
    ∃ F', Tracks store F' (repository.next s op) ((postgres store).next t (op', db)) ∧
      Continues s F F' ∧ (repository.answer s op).Agrees (Handed F' (repository.next s op))
        (Answered store F' (repository.next s op) ((postgres store).next t (op', db)))
          ((postgres store).answer t (op', db)) := by
  cases same with
  | createRun request =>
      obtain ⟨F', tracks', continues, answers⟩ := tracks.create upheld request (.at now) db
        fun accepted free absent => fits _ (.create accepted free absent)
      exact ⟨F', tracks', continues, answers⟩
  | claimNextStep k worker leaseMs =>
      have continued : Continued store F _ s (s.claimNextStep k worker leaseMs (.at now))
          (store.claimNextStep t k worker leaseMs db) :=
        tracks.answered upheld rfl fits (fun _ => rfl)
          (fun missing => by simp only [Repository.claimNextStep, missing])
          fun m row p there decoded facing => facing.claim worker leaseMs reading
            fun claim handed => room claim (by
              change (Response.claimed (s.claimNextStep k worker leaseMs (.at now)).1).claim? = _
              rw [handed]
              rfl)
      obtain ⟨F', tracks', continues, answers⟩ := continued
      have keyed := (Repository.step_effect upheld.keyed
        (.claimNextStep k worker leaseMs (.at now))).keyed upheld.keyed
      refine ⟨F', tracks', continues, answers.mono ?_⟩
      rintro handed handed' ⟨m', _, _, found, -, -, issued⟩
      cases issued with
      | none => exact .none
      | @some claim claim' related =>
          obtain ⟨own, issued, rest⟩ := related
          have target : claim.runId = k := own.trans (keyed k m' found)
          have renamed : F' claim.runId = F' k := congrArg F' target
          refine .some ⟨m', ?_, issued, ?_⟩
          · rw [target]
            exact found
          · rw [renamed]
            exact rest
  | @renewStep claim claim' leaseMs given =>
      have target : claim'.runId = claim.runId := by rw [given.rest]
      have targets : (Op.renewStep claim' leaseMs (.at now)).target = some claim.runId :=
        congrArg some target
      have continued : Continued store F _ s (s.renewStep claim leaseMs (.at now))
          (store.transition t claim.runId db fun run =>
            Locked.renewStep run claim' leaseMs db) :=
        tracks.answered upheld targets fits (fun _ => rfl)
          (fun missing => by simp only [Repository.renewStep, missing])
          fun m row p there decoded facing =>
            facing.renew rfl (given.sameClaim facing.found there decoded) leaseMs reading
      obtain ⟨F', tracks', continues, answers⟩ := continued
      rw [← target] at tracks' answers
      exact ⟨F', tracks', continues, answers.mono fun _ _ located => located.elim⟩
  | @completeStep claim claim' completion given =>
      have target : claim'.runId = claim.runId := by rw [given.rest]
      have targets : (Op.completeStep claim' completion (.at now)).target = some claim.runId :=
        congrArg some target
      have continued : Continued store F _ s (s.completeStep claim completion (.at now))
          (store.transition t claim.runId db fun run =>
            Locked.completeStep run claim' completion (.at now) db) :=
        tracks.answered upheld targets fits (fun _ => rfl)
          (fun missing => by simp only [Repository.completeStep, missing])
          fun m row p there decoded facing =>
            facing.complete rfl (given.sameClaim facing.found there decoded) completion reading
      obtain ⟨F', tracks', continues, answers⟩ := continued
      rw [← target] at tracks' answers
      exact ⟨F', tracks', continues, answers.mono fun _ _ located => ⟨_, located⟩⟩
  | recordEvent k event =>
      have continued : Continued store F _ s (s.recordEvent k event (.at now))
          (store.recordEvent t k event (.at now) db) :=
        tracks.answered upheld rfl fits (fun _ => rfl)
          (fun missing => by simp only [Repository.recordEvent, missing])
          fun m row p there decoded facing => facing.record event
      obtain ⟨F', tracks', continues, answers⟩ := continued
      exact ⟨F', tracks', continues, answers.mono fun _ _ located => located.elim⟩
  | finishRun k metrics =>
      have continued : Continued store F _ s (s.finishRun k metrics (.at now))
          (store.finishRun t k metrics (.at now) db) :=
        tracks.answered upheld rfl fits (fun _ => rfl)
          (fun missing => by simp only [Repository.finishRun, missing])
          fun m row p there decoded facing => facing.finish metrics
      obtain ⟨F', tracks', continues, answers⟩ := continued
      exact ⟨F', tracks', continues, answers.mono fun _ _ located => ⟨_, located⟩⟩
  | cancelRun k =>
      have continued : Continued store F _ s (s.cancelRun k (.at now))
          (store.cancelRun t k (.at now) db) :=
        tracks.answered upheld rfl fits (fun _ => rfl)
          (fun missing => by simp only [Repository.cancelRun, missing])
          fun m row p there decoded facing => facing.cancel reading
      obtain ⟨F', tracks', continues, answers⟩ := continued
      exact ⟨F', tracks', continues, answers.mono fun _ _ located => ⟨_, located⟩⟩
  | recoverExpired few =>
      obtain ⟨expired, s', expired', t', recovered, recovered', perm, tracks'⟩ :=
        tracks.recover upheld reading (toI64_of_toU64 reading) few
          fun k row p more p' there decoded acted =>
          fits p' (.change (fun id member => by cases member) there decoded
            (Except.bind_eq_ok.mpr ⟨now, reading, Except.map_eq_ok.mpr ⟨_, acted, rfl⟩⟩))
      have state : repository.next s (.recoverExpired (.at now)) = s' := congrArg Prod.snd recovered
      have state' : (postgres store).next t (.recoverExpired (.at now), db) = t' :=
        congrArg Prod.snd recovered'
      refine ⟨F, by rw [state, state']; exact tracks', .refl s F, ?_⟩
      change Except.Rel _ (s.recoverExpired (.at now)).1 (store.recoverExpired t (.at now) db).1
      rw [recovered, recovered']
      exact .ok perm

/-- Claims handed out together stay so. -/
theorem Handed.next {F' : RunId → UInt64 → UInt64} {claim claim' : StepClaim} (keyed : s.Keyed)
    (sound : s.Every RunRecord.Sound) (continues : Continues s F F')
    (handed : Handed F s claim claim') (op : Op) :
    Handed F' (repository.next s op) claim claim' := by
  obtain ⟨m, found, issued, rest⟩ := handed
  obtain ⟨m', found', stays⟩ := (Repository.step_effect keyed op).related
    (R := fun run run' => ∀ token, run.Issued token → run'.Issued token) sound
    (fun _ _ issued => issued) (fun first second token issued => second token (first token issued))
    (fun _ move _ => move.step.issued_stays) (fun step _ => step.issued_stays) found
  refine ⟨m', found', stays _ issued, ?_⟩
  rw [continues claim.runId m found _ issued]
  exact rest

end Step

theorem upheld_after (store : PostgresRunStore) (ops : List Op) (ops' : List PgOp) :
    Upheld (repository.after ops) ((postgres store).after ops') := by
  refine ⟨Repository.keyed_after ops, sound_after ops, booked_after ops, ?_,
    PostgresRunStore.steady_after store ops'⟩
  induction ops using Machine.history_induction with
  | nil =>
      intro key id
      simp [repository, Repository.empty]
  | concat ops op ih =>
      rw [Machine.after_concat]
      exact Repository.step_indexed (Repository.keyed_after ops) ih op

/-- Along a history of paired calls the table tracks the repository, the claims that a call
hands out of both are handed out together, and the runs that it answers mirror each other. -/
theorem simulation {store : PostgresRunStore} {calls : List (Op × PgOp)}
    (paired : (repository.both (postgres store)).Along (Paired store) calls)
    (claims : (issued (calls.map Prod.fst)).length ≤ UInt64.maxNat)
    (events : (repository.after (calls.map Prod.fst)).events.length ≤ UInt64.maxNat) :
    ∃ F, Tracks store F (repository.after (calls.map Prod.fst))
        ((postgres store).after (calls.map Prod.snd)) ∧
      List.Forall₂ (Response.Agrees (Handed F (repository.after (calls.map Prod.fst)))
          RunRecord.Mirrors)
        (repository.transcript (calls.map Prod.fst))
        ((postgres store).transcript (calls.map Prod.snd)) := by
  induction calls using Machine.history_induction with
  | nil => exact ⟨fun _ => keep, fun k => .inl ⟨by simp [repository, Repository.empty],
      by simp [postgres]⟩, .nil⟩
  | concat calls call ih =>
      obtain ⟨op, op', db⟩ := call
      have last := paired.last
      rw [Machine.after_both] at last
      obtain ⟨⟨now, reading, same⟩, fits⟩ := last
      have upheld := upheld_after store (calls.map Prod.fst) (calls.map Prod.snd)
      have earlier := Repository.events_le upheld.keyed op
      have after : repository.after (calls.map Prod.fst ++ [op]) =
          repository.next (repository.after (calls.map Prod.fst)) op := Machine.after_concat ..
      have after' : (postgres store).after (calls.map Prod.snd ++ [(op', db)]) =
          (postgres store).next ((postgres store).after (calls.map Prod.snd)) (op', db) :=
        Machine.after_concat ..
      simp only [List.map_append, List.map_singleton, Machine.after_concat,
        Machine.transcript_concat] at claims events ⊢
      rw [issued_concat, List.length_append] at claims
      obtain ⟨F, tracks, answers⟩ := ih paired.init (Nat.le_trans (Nat.le_add_right _ _) claims)
        (earlier.trans events)
      have room : ∀ claim, (repository.answer (repository.after (calls.map Prod.fst)) op).claim? =
          some claim → (repository.after (calls.map Prod.fst)).nextLeaseToken.toNat <
            UInt64.maxNat := by
        intro claim handed
        rw [handed, Option.toList_some, List.length_singleton] at claims
        rw [(counted_after (calls.map Prod.fst)).counter]
        omega
      obtain ⟨F', tracks', continues, agrees⟩ := tracks.step upheld reading same fits room
      have sound := sound_after (calls.map Prod.fst)
      refine ⟨F', tracks', List.rel_append (answers.imp fun answer answer' related =>
        related.mono (fun claim claim' handed => handed.next upheld.keyed sound continues op)
          fun _ _ mirrors => mirrors) (.cons (agrees.mono (fun _ _ handed => handed) ?_) .nil)⟩
      rw [← after, ← after'] at tracks' ⊢
      rw [← after] at events
      exact fun run run' answered => answered.mirrors tracks' events

end Orchestrator
