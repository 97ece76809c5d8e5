import Orchestrator.Repository.Sound

/-!
# Invariants of histories and the claims they issued

`Kept` carries a property that relates the repository to the claims handed out so
far through a history. The calls of a history may be
restricted by a guard on the run they change; recovery is never restricted.
-/

namespace Orchestrator

/-- The claims a change hands out. -/
def RunAction.issued : RunAction → List StepClaim
  | .claim handed => [handed]
  | _ => []

theorem Response.claim?_of_quiet {response : Response} (quiet : response.effective = false) :
    response.claim? = none := by
  unfold Response.claim?
  split
  next claim =>
    cases claim with
    | none => rfl
    | some claim => cases quiet
  · rfl

/-- The call asks for this change of the run under `k`. -/
def Op.Performs (op : Op) (k : RunId) (action : RunAction) : Prop :=
  match op, action with
  | .claimNextStep runId .., .claim _ => runId = k
  | .renewStep claim _ _, .renew held => claim = held ∧ claim.runId = k
  | .completeStep claim completion _, .complete held committed =>
    claim = held ∧ completion = committed ∧ claim.runId = k
  | .recordEvent runId event _, .record recorded => runId = k ∧ event = recorded
  | .finishRun runId metrics _, .finish supplied => runId = k ∧ metrics = supplied
  | .cancelRun runId _, .cancel => runId = k
  | .recoverExpired _, .recover _ => True
  | _, _ => False

/-- A condition on the calls of a history that change a run: on the claims handed
out before the call, the change, and the run that it finds. -/
def Guarded (A : List StepClaim → RunAction → RunRecord → Prop) (ops : List Op) : Prop :=
  ∀ pre op k action run run', pre ++ [op] <+: ops → op.Performs k action →
    (repository.after pre).Moves k action run run' (repository.after (pre ++ [op])) →
    A (issued pre) action run

theorem Guarded.init {A : List StepClaim → RunAction → RunRecord → Prop} {ops : List Op} {op : Op}
    (h : Guarded A (ops ++ [op])) : Guarded A ops :=
  fun pre op' k action run run' within =>
    h pre op' k action run run' (within.trans (List.prefix_append ops [op]))

section Invariant

variable {I : List StepClaim → Repository → Prop}
  {A : List StepClaim → RunAction → RunRecord → Prop}

/-- What a sequence of recovery steps preserves. -/
theorem Repository.Recovery.invariant {s s' : Repository} {expired : List (RunId × StepId)}
    (h : s.Recovery expired s') {I : Repository → Prop}
    (move : ∀ {s k id run run' s'}, s.Keyed → s.Every RunRecord.Sound →
      s.Moves k (.recover id) run run' s' → I s → I s')
    (keyed : s.Keyed) (sound : s.Every RunRecord.Sound) (holds : I s) : I s' := by
  induction h with
  | done => exact holds
  | next first _ ih =>
      exact ih (first.keyed keyed) (first.lift (.step first.step) sound)
        (move keyed sound first holds)

/-- A property of the handed out claims and the repository that creations and
guarded steps of one run keep. -/
structure Kept (A : List StepClaim → RunAction → RunRecord → Prop)
    (I : List StepClaim → Repository → Prop) : Prop where
  create : ∀ {C s s'} request now sequence eventNow,
    validateRunRequest request = some (.ok ()) →
    s.Creates (.created request now sequence eventNow) s' → I C s → I C s'
  move : ∀ {C s k action run run' s'}, s.Keyed → s.Every RunRecord.Sound →
    s.Moves k action run run' s' → A C action run → I C s → I (C ++ action.issued) s'
  free : ∀ C id run, A C (.recover id) run

/-- A kept property survives one call. -/
theorem Kept.next (kept : Kept A I) {ops : List Op} {op : Op} (allowed : Guarded A (ops ++ [op]))
    (holds : I (issued ops) (repository.after ops)) :
    I (issued (ops ++ [op])) (repository.after (ops ++ [op])) := by
  have keyed := Repository.keyed_after ops
  have sound := sound_after ops
  have allowed := allowed ops op
  have effect := Repository.effect_after ops op
  rw [issued_concat]
  generalize repository.after (ops ++ [op]) = s' at effect allowed
  generalize repository.answer (repository.after ops) op = response at effect
  have moved : ∀ {k action run run'}, (repository.after ops).Moves k action run run' s' →
      op.Performs k action → I (issued ops ++ action.issued) s' :=
    fun move performs => kept.move keyed sound move
      (allowed _ _ _ _ List.prefix_rfl performs move) holds
  cases effect with
  | unchanged quiet => rwa [Response.claim?_of_quiet quiet, Option.toList_none, List.append_nil]
  | create accepted creation =>
      simpa only [Response.claim?, Option.toList_none, List.append_nil] using
        kept.create _ _ _ _ accepted creation holds
  | claim move => exact moved move rfl
  | renew move => exact moved move ⟨rfl, rfl⟩
  | complete move => exact moved move ⟨rfl, rfl, rfl⟩
  | record move => exact moved move ⟨rfl, rfl⟩
  | finish move => exact moved move ⟨rfl, rfl⟩
  | cancel move => exact moved move rfl
  | recover recovery =>
      have later : I (issued ops) s' := by
        refine recovery.invariant (I := I (issued ops)) ?_ keyed sound holds
        intro s k id run run' s' keyed sound step holds
        simpa only [RunAction.issued, List.append_nil] using
          kept.move keyed sound step (kept.free _ _ _) holds
      simpa only [Response.claim?, Option.toList_none, List.append_nil] using later

/-- A kept property that holds at one moment of a history holds from then on. -/
theorem Kept.later (kept : Kept A I) (ops later : List Op) (allowed : Guarded A (ops ++ later))
    (holds : I (issued ops) (repository.after ops)) :
    I (issued (ops ++ later)) (repository.after (ops ++ later)) := by
  induction later using Machine.history_induction with
  | nil => rwa [List.append_nil]
  | concat later op ih =>
      rw [← List.append_assoc] at allowed ⊢
      exact kept.next allowed (ih allowed.init)

/-- A kept property that holds of the empty repository holds after every history. -/
theorem Kept.after (kept : Kept A I) (empty : I [] .empty) (ops : List Op)
    (allowed : Guarded A ops) : I (issued ops) (repository.after ops) :=
  kept.later [] ops allowed empty

/-- Induction over a history for a property of single runs. -/
theorem run_invariant {P : RunRecord → Prop} {A : RunAction → RunRecord → Prop}
    (created : ∀ request now sequence eventNow, validateRunRequest request = some (.ok ()) →
      P (.created request now sequence eventNow))
    (step : ∀ {token action run run'}, RunStep token action run run' → run.Sound →
      A action run → P run → P run')
    (free : ∀ id run, A (.recover id) run) (ops : List Op) (allowed : Guarded (fun _ => A) ops) :
    (repository.after ops).Every P := by
  have kept : Kept (fun _ => A) (fun _ s => s.Every P) :=
    { create := fun request now sequence eventNow accepted creation all =>
        creation.lift (created request now sequence eventNow accepted) all
      move := fun _ sound move guard all =>
        move.lift (step move.step (sound _ _ move.found) guard) all
      free := fun _ => free }
  refine kept.after ?_ ops allowed
  intro k run found
  simp [Repository.empty] at found

theorem Repository.Recovery.related {R : RunRecord → RunRecord → Prop} {s s' : Repository}
    {expired : List (RunId × StepId)} (h : s.Recovery expired s') (sound : s.Every RunRecord.Sound)
    (refl : ∀ run, R run run) (trans : ∀ {a b c}, R a b → R b c → R a c)
    (recovered : ∀ {token id run run'}, RunStep token (.recover id) run run' → run.Sound →
      R run run') {k : RunId} {run : RunRecord} (found : s.runs[k]? = some run) :
    ∃ run', s'.runs[k]? = some run' ∧ R run run' := by
  induction h generalizing run with
  | done => exact ⟨run, found, refl run⟩
  | @next s s' s'' id _ old new _ move _ ih =>
      have later := move.lift (.step move.step) sound
      by_cases hk : id = k
      · subst hk
        obtain rfl := Option.some.inj (move.found.symm.trans found)
        obtain ⟨run', found', related⟩ := ih later (by rw [move.runs, if_pos rfl])
        exact ⟨run', found', trans (recovered move.step (sound _ _ found)) related⟩
      · exact ih later (by rw [move.runs, if_neg hk]; exact found)

/-- One call relates each stored run to the run stored in its place. -/
theorem Repository.Effect.related {R : RunRecord → RunRecord → Prop} {s s' : Repository} {op : Op}
    {response : Response} (h : s.Effect op response s') (sound : s.Every RunRecord.Sound)
    (refl : ∀ run, R run run) (trans : ∀ {a b c}, R a b → R b c → R a c)
    (step : ∀ {k action run run'}, op.Performs k action → s.Moves k action run run' s' →
      run.Sound → R run run')
    (recovered : ∀ {token id run run'}, RunStep token (.recover id) run run' → run.Sound →
      R run run') {k : RunId} {run : RunRecord} (found : s.runs[k]? = some run) :
    ∃ run', s'.runs[k]? = some run' ∧ R run run' := by
  have moved : ∀ {id action old new}, s.Moves id action old new s' → op.Performs id action →
      ∃ run', s'.runs[k]? = some run' ∧ R run run' := by
    intro id action old new move performs
    by_cases hk : id = k
    · subst hk
      obtain rfl := Option.some.inj (move.found.symm.trans found)
      exact ⟨new, by rw [move.runs, if_pos rfl], step performs move (sound _ _ found)⟩
    · exact ⟨run, by rw [move.runs, if_neg hk]; exact found, refl run⟩
  cases h with
  | unchanged => exact ⟨run, found, refl run⟩
  | create accepted creation =>
      exact ⟨run, (creation.kept found).trans found, refl run⟩
  | claim move => exact moved move rfl
  | renew move => exact moved move ⟨rfl, rfl⟩
  | complete move => exact moved move ⟨rfl, rfl, rfl⟩
  | record move => exact moved move ⟨rfl, rfl⟩
  | finish move => exact moved move ⟨rfl, rfl⟩
  | cancel move => exact moved move rfl
  | recover recovery => exact recovery.related sound refl trans recovered found

/-- From one moment of a history to a later one, each run is related to its
later state. -/
theorem related_later {R : RunRecord → RunRecord → Prop} {A : RunAction → RunRecord → Prop}
    (refl : ∀ run, R run run) (trans : ∀ {a b c}, R a b → R b c → R a c)
    (step : ∀ {token action run run'}, RunStep token action run run' → run.Sound →
      A action run → R run run')
    (free : ∀ id run, A (.recover id) run) (ops later : List Op)
    (allowed : Guarded (fun _ => A) (ops ++ later)) {k : RunId} {run : RunRecord}
    (found : (repository.after ops).runs[k]? = some run) :
    ∃ run', (repository.after (ops ++ later)).runs[k]? = some run' ∧ R run run' := by
  induction later using Machine.history_induction with
  | nil => exact ⟨run, by rwa [List.append_nil], refl run⟩
  | concat later op ih =>
      rw [← List.append_assoc] at allowed ⊢
      obtain ⟨middle, foundMiddle, related⟩ := ih allowed.init
      obtain ⟨run', found', related'⟩ :=
        (Repository.effect_after (ops ++ later) op).related (sound_after _) refl trans
          (fun performs move sound =>
            step move.step sound (allowed _ _ _ _ _ _ List.prefix_rfl performs move))
          (fun move sound => step move sound (free _ _)) foundMiddle
      exact ⟨run', found', trans related related'⟩

end Invariant

theorem guarded_true (ops : List Op) : Guarded (fun _ _ _ => True) ops :=
  fun _ _ _ _ _ _ _ _ _ => trivial

end Orchestrator
