import Orchestrator.Foundation.Index
import Orchestrator.Store.Operation

/-!
# The idempotency index

The store keeps the idempotency keys of its runs a second time, in an index from
keys to run ids. Creating a run and saving a snapshot write both, and no other
call changes a run's key, so that the index stays exact under any calls.
-/

namespace Orchestrator

/-- No step of a run changes its idempotency key. -/
theorem RunStep.idempotencyKey {token : UInt64} {action : RunAction} {run run' : RunRecord}
    (h : RunStep token action run run') : run'.idempotencyKey = run.idempotencyKey := by
  cases h with
  | complete => simp [RunRecord.logged, RunRecord.pushEvent, RunRecord.commit,
      RunRecord.noteFailure_eq, RunRecord.setStep, RunRecord.bump]
  | settle => simp [RunRecord.settle_eq, RunRecord.setMetrics]
  | finish =>
      simp [RunRecord.logged, RunRecord.pushEvent, RunRecord.settle_eq, RunRecord.setMetrics]
  | recover => simp [RunRecord.logged, RunRecord.pushEvent, RunRecord.noteRecovery_eq,
      RunRecord.setStep]
  | _ => rfl

namespace Repository

/-- The index of the repository is exact. -/
def Indexed (s : Repository) : Prop :=
  Indexes (fun key : IdempotencyKey => s.idempotency[key]?) (fun id : RunId => s.runs[id]?)
    RunRecord.idempotencyKey

section Create

variable (s : Repository) (request : RunRequest) (clock : Clock)

/-- Storing a new run and logging its start leaves the index alone. -/
theorem stored_idempotency (s₀ : Repository) (run : RunRecord) (own : run.runId = request.runId)
    (event : ExecutionEvent) (now : UInt64) (absent : RepositoryError) :
    ((s₀.setRun request.runId run).appendAndReturn request.runId event now absent).2.idempotency =
      s₀.idempotency := by
  obtain ⟨s', appended, replaces⟩ := appendAndReturn_of_some event now absent
    (getElem?_setRun_self s₀ request.runId run) own
  rw [appended]
  exact replaces.idempotency

/-- Storing a new run after the index was written. -/
theorem stored_indexed (fresh : s.runs[request.runId]? = none)
    (unheld : ∀ key, request.idempotencyKey = some key → s.idempotency[key]? = none)
    (s₀ : Repository) (runs : s₀.runs = s.runs) (token : s₀.nextLeaseToken = s.nextLeaseToken)
    (index : s₀.idempotency = request.idempotencyKey.elim s.idempotency
      fun key => s.idempotency.insert key request.runId) :
    let stored := (s₀.setRun request.runId
      { RunRecord.new request.runId request.workflow request.manifest request.input
          (clock.call 0) with
        status := .running, idempotencyKey := request.idempotencyKey }).appendAndReturn
      request.runId (.runStarted request.runId request.workflow.id) (clock.call 1)
      (.conflict request.runId)
    ∃ sequence s', stored.2 = s' ∧
      s.Creates (.created request (clock.call 0) sequence (clock.call 1)) s' ∧
      (∀ key, request.idempotencyKey = some key → s.idempotency[key]? = none) ∧
      s'.idempotency = request.idempotencyKey.elim s.idempotency
        fun key => s.idempotency.insert key request.runId := by
  intro result
  obtain ⟨sequence, s', stored, creation⟩ := stored_creates s clock fresh s₀ runs token
  have written := stored_idempotency request s₀
    { RunRecord.new request.runId request.workflow request.manifest request.input
        (clock.call 0) with
      status := .running, idempotencyKey := request.idempotencyKey } rfl
    (.runStarted request.runId request.workflow.id) (clock.call 1) (.conflict request.runId)
  rw [stored] at written
  exact ⟨sequence, s', congrArg Prod.snd stored, creation, unheld, written.trans index⟩

/-- A request creates a run with its key, which no run held, or changes nothing. -/
theorem createRun_cases :
    (s.createRun request clock).2 = s ∨
      ∃ sequence s', (s.createRun request clock).2 = s' ∧
        s.Creates (.created request (clock.call 0) sequence (clock.call 1)) s' ∧
        (∀ key, request.idempotencyKey = some key → s.idempotency[key]? = none) ∧
        s'.idempotency = request.idempotencyKey.elim s.idempotency
          fun key => s.idempotency.insert key request.runId := by
  unfold createRun
  split
  · exact .inl rfl
  · exact .inl rfl
  next accepted =>
    split
    · split
      · exact .inl rfl
      · split <;> exact .inl rfl
    next unheld =>
      split
      · exact .inl rfl
      next absent =>
        have fresh : s.runs[request.runId]? = none := by
          simpa [Std.ExtTreeMap.contains_iff_mem] using absent
        refine .inr (stored_indexed s request clock fresh ?_ _ (by split <;> rfl)
          (by split <;> rfl) (by cases request.idempotencyKey <;> rfl))
        intro key keyed
        rwa [keyed] at unheld

/-- A request whose key a run holds adds no run: one that validation accepts is
answered by that run or the conflict with it. -/
theorem createRun_of_held {key : IdempotencyKey} {id : RunId} {run : RunRecord}
    (keyed : request.idempotencyKey = some key) (held : s.idempotency[key]? = some id)
    (found : s.runs[id]? = some run) :
    s.createRun request clock =
      ((validateRunRequest request).map fun verdict => verdict.bind fun _ =>
        if run.workflow == request.workflow && run.manifest == request.manifest &&
          run.input == request.input then .ok run else .error (.idempotencyConflict id), s) := by
  unfold createRun
  split
  next panics => rw [panics, Option.map_none]
  next error rejected => rw [rejected]; rfl
  next accepted =>
    simp only [accepted, keyed, Option.bind_eq_bind, Option.bind_some, held, found,
      Option.map_some, Except.bind]
    split <;> rfl

end Create

section Indexed

variable {s s' : Repository}

theorem Moves.indexed {k : RunId} {action : RunAction} {run run' : RunRecord}
    (h : s.Moves k action run run' s') (indexed : s.Indexed) : s'.Indexed := by
  refine indexed.congr (fun key => by rw [h.idempotency]) fun id key => ?_
  rw [h.runs]
  split
  next same =>
    rw [← same, h.found]
    simp only [Option.some.injEq, exists_eq_left', h.step.idempotencyKey]
  · exact Iff.rfl

theorem Creates.indexed {request : RunRequest} {now sequence eventNow : UInt64}
    (h : s.Creates (.created request now sequence eventNow) s')
    (free : ∀ key, request.idempotencyKey = some key → s.idempotency[key]? = none)
    (index : s'.idempotency = request.idempotencyKey.elim s.idempotency
      fun key => s.idempotency.insert key request.runId) (indexed : s.Indexed) : s'.Indexed := by
  have fresh : s.runs[request.runId]? = none := h.fresh
  refine indexed.put request.runId
    (.created request now sequence eventNow) (fun key id held listed => ?_) h.runs fun key => ?_
  · rw [free key held] at listed
    cases listed
  · change _ = if request.idempotencyKey = some key then _ else _
    simp only [fresh, Option.bind_eq_bind, Option.bind_none, reduceCtorEq, if_false]
    rw [index]
    cases request.idempotencyKey with
    | none => simp
    | some own =>
        simp only [Option.elim_some, Option.some.injEq]
        exact BTreeMap.getElem?_insert s.idempotency own key request.runId

/-- Every call of the repository keeps the index exact. -/
theorem step_indexed (keyed : s.Keyed) (indexed : s.Indexed) (op : Op) :
    (repository.next s op).Indexed := by
  refine (step_effect keyed op).preserves ?_ (fun move => move.indexed) indexed
  rintro request clock now sequence eventNow rfl - - -
  obtain kept | ⟨sequence, s', created, creation, free, index⟩ := s.createRun_cases request clock
  · rw [next_createRun, kept]
    exact indexed
  · rw [next_createRun, created]
    exact creation.indexed free index indexed

/-- Saving a snapshot keeps the index exact. -/
theorem save_indexed (indexed : s.Indexed) (run : RunRecord) : (s.save run).2.Indexed := by
  obtain ⟨error, refused⟩ | ⟨s', saved, runs, -, free, index, -⟩ := s.save_cases run
  · rw [refused]
    exact indexed
  · rw [saved]
    refine indexed.put run.runId run free ?_ fun key => ?_
    · intro id
      rw [runs]
      exact BTreeMap.getElem?_insert s.runs run.runId id run
    · have erased : ∀ previous : Option IdempotencyKey,
          (previous.elim s.idempotency s.idempotency.erase)[key]? =
            if previous = some key then none else s.idempotency[key]? := by
        intro previous
        cases previous with
        | none => simp
        | some old =>
            simp only [Option.elim_some, Option.some.injEq]
            exact BTreeMap.getElem?_erase s.idempotency old key
      rw [index]
      cases run.idempotencyKey with
      | none =>
          rw [Option.elim_none, erased]
          simp
      | some own =>
          rw [Option.elim_some, BTreeMap.getElem?_insert, erased]
          simp only [Option.some.injEq]

end Indexed

end Repository

/-- After every history with snapshots the index is exact. -/
theorem indexed_after (ops : List StoreOp) : (store.after ops).Indexed := by
  have empty : Repository.Indexed .empty := by
    intro key id
    simp [Repository.empty]
  have both := store.after_invariant (P := fun s => s.Keyed ∧ s.Indexed)
    ⟨Repository.keyed_after [], empty⟩ (fun s op before => by
      obtain ⟨keyed, indexed⟩ := before
      cases op with
      | save run => exact ⟨Repository.save_keyed keyed run, Repository.save_indexed indexed run⟩
      | call op =>
          exact ⟨(Repository.step_effect keyed op).keyed keyed,
            Repository.step_indexed keyed indexed op⟩)
    ops
  exact both.2

/-- The index lists a key with a run just if the run holds the key, no two runs
hold one key, and a request with a held key is answered by its holder. -/
theorem idempotency_exact (ops : List StoreOp) :
    (∀ (key : IdempotencyKey) (id : RunId), (store.after ops).idempotency[key]? = some id ↔
      ∃ run, (store.after ops).runs[id]? = some run ∧ run.idempotencyKey = some key) ∧
    (∀ (k k' : RunId) (run run' : RunRecord) (key : IdempotencyKey),
      (store.after ops).runs[k]? = some run → (store.after ops).runs[k']? = some run' →
        run.idempotencyKey = some key → run'.idempotencyKey = some key → k = k') ∧
    ∀ (request : RunRequest) (clock : Clock) (key : IdempotencyKey) (id : RunId) (run : RunRecord),
      request.idempotencyKey = some key → (store.after ops).runs[id]? = some run →
        run.idempotencyKey = some key →
        (store.after ops).createRun request clock =
          ((validateRunRequest request).map fun verdict => verdict.bind fun _ =>
            if run.workflow == request.workflow && run.manifest == request.manifest &&
              run.input == request.input then .ok run else .error (.idempotencyConflict id),
          store.after ops) := by
  have indexed := indexed_after ops
  refine ⟨indexed, ?_, ?_⟩
  · intro k k' run run' key found found' has has'
    exact indexed.unique found found' has has'
  · intro request clock key id run keyed found has
    have held := (indexed key id).mpr ⟨run, found, has⟩
    exact Repository.createRun_of_held _ request clock keyed held found

/-- A request that holds a run's key without a workflow that validates. -/
theorem held_key_revalidated :
    let request (steps : List StepSpec) : RunRequest :=
      { Sample.request steps [] with idempotencyKey := some ⟨"key"⟩ }
    let s := store.after [.call (.createRun (request [Sample.step "only" 1 false]) (.at 0))]
    (∃ run, s.runs[Sample.runId]? = some run ∧ run.idempotencyKey = some ⟨"key"⟩) ∧
      (s.createRun (request []) (.at 0)).1 =
        some (.error (.invalidRequest "workflow flow has no steps")) := by
  refine ⟨⟨_, rfl, rfl⟩, rfl⟩

end Orchestrator
