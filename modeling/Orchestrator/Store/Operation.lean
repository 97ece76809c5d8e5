import Orchestrator.Model.Snapshot
import Orchestrator.Repository.Invariant

/-!
# Histories with snapshots

`store` is the machine of the in-memory store: its inputs are the calls of the
repository and the saving of any run record. A snapshot may hold step records
that no call makes, so that of the invariants of stored runs only that each is
stored under its own id holds after every history.
-/

namespace Orchestrator

/-- A call of the store. -/
inductive StoreOp where
  | save (run : RunRecord)
  | call (op : Op)

/-- What a call of the store returned. -/
inductive StoreResponse where
  | saved (result : Except AdapterError Unit)
  | called (response : Response)

/-- Runs one call of the store. -/
def Repository.serve (s : Repository) : StoreOp → StoreResponse × Repository
  | .save run => Prod.map .saved id (s.save run)
  | .call op => Prod.map .called id (s.step op)

/-- The in-memory store, starting empty. -/
def store : Machine Repository StoreOp StoreResponse := ⟨.empty, Repository.serve⟩

section Next

variable (s : Repository)

@[simp] theorem store_next_save (run : RunRecord) :
    store.next s (.save run) = (s.save run).2 := rfl

@[simp] theorem store_next_call (op : Op) : store.next s (.call op) = repository.next s op := rfl

@[simp] theorem store_answer_save (run : RunRecord) :
    store.answer s (.save run) = .saved (s.save run).1 := rfl

@[simp] theorem store_answer_call (op : Op) :
    store.answer s (.call op) = .called (repository.answer s op) := rfl

end Next

namespace Repository

/-- What saving does: it is refused and changes nothing, or the record is stored. -/
theorem save_cases (s : Repository) (run : RunRecord) :
    (∃ error, s.save run = (.error error, s)) ∨
      ∃ s', s.save run = (.ok (), s') ∧ s'.runs = s.runs.insert run.runId run ∧
        validateRunRecordSchema run = .ok () ∧
        (∀ key id, run.idempotencyKey = some key → s.idempotency[key]? = some id →
          id = run.runId) ∧
        s'.idempotency = (run.idempotencyKey.elim
          ((s.runs[run.runId]? >>= RunRecord.idempotencyKey).elim s.idempotency s.idempotency.erase)
          fun key => ((s.runs[run.runId]? >>= RunRecord.idempotencyKey).elim s.idempotency
            s.idempotency.erase).insert key run.runId) ∧
        s'.nextLeaseToken = max s.nextLeaseToken (run.leaseTokens.max?.getD 0) ∧
        s'.nextEventSequence = max s.nextEventSequence (run.sequences.max?.getD 0) ∧
        s'.events = s.events := by
  unfold save
  split
  next message refused => exact .inl ⟨_, rfl⟩
  next valid =>
    split
    next taken => exact .inl ⟨_, rfl⟩
    next free =>
      refine .inr ⟨_, rfl, rfl, valid, ?_, ?_, rfl, rfl, rfl⟩
      · intro key id keyed held
        by_contra other
        refine free ?_
        rw [keyed, Option.bind_eq_bind, Option.bind_some, held, Option.any_some]
        exact bne_iff_ne.mpr other
      · cases run.idempotencyKey <;> cases s.runs[run.runId]? >>= RunRecord.idempotencyKey <;> rfl

theorem save_keyed {s : Repository} (keyed : s.Keyed) (run : RunRecord) : (s.save run).2.Keyed := by
  obtain ⟨error, refused⟩ | ⟨s', saved, runs, -⟩ := s.save_cases run
  · rw [refused]
    exact keyed
  · rw [saved]
    intro k other found
    rw [runs, BTreeMap.getElem?_insert] at found
    split at found
    next same =>
      obtain rfl := Option.some.inj found
      exact same
    · exact keyed k other found

end Repository

/-- Without snapshots, the store is the repository. -/
theorem store_after_calls (ops : List Op) : store.after (ops.map .call) = repository.after ops := by
  induction ops using Machine.history_induction with
  | nil => rfl
  | concat ops op ih =>
      rw [List.map_append, List.map_singleton, Machine.after_concat, Machine.after_concat, ih]
      exact store_next_call _ op

/-- After every history with snapshots each run is stored under its own id. -/
theorem store_keyed_after (ops : List StoreOp) : (store.after ops).Keyed := by
  refine store.after_invariant (Repository.keyed_after []) (fun s op keyed => ?_) ops
  cases op with
  | save run => exact Repository.save_keyed keyed run
  | call op => exact (Repository.step_effect keyed op).keyed keyed

/-- The call returned an error, or no claim. -/
def Response.refused : Response → Bool
  | .created (some (.error _)) | .claimed (.error _) | .claimed (.ok none) | .renewed (.error _)
  | .completed (.error _) | .recorded (.error _) | .finished (.error _) | .cancelled (.error _)
  | .recovered (.error _) => true
  | _ => false

/-- The same for the calls of the store. -/
def StoreResponse.refused : StoreResponse → Bool
  | .saved (.error _) => true
  | .saved (.ok _) => false
  | .called response => response.refused

/-- A call that is refused has no effect. -/
theorem Repository.Effect.of_refused {s s' : Repository} {op : Op} {response : Response}
    (h : s.Effect op response s') (refused : response.refused = true) : s' = s := by
  cases h with
  | unchanged => rfl
  | _ => cases refused

/-- A call that returns an error or no claim leaves the whole store as it was. -/
theorem refused_calls_atomic (ops : List StoreOp) (op : StoreOp)
    (refused : (store.answer (store.after ops) op).refused = true) :
    store.next (store.after ops) op = store.after ops := by
  cases op with
  | save run =>
      obtain ⟨error, rejected⟩ | ⟨s', saved, -⟩ := (store.after ops).save_cases run
      · rw [store_next_save, rejected]
      · rw [store_answer_save, saved] at refused
        cases refused
  | call op =>
      exact (Repository.step_effect (store_keyed_after ops) op).of_refused refused

/-- A claim that has run out is completed. -/
theorem refused_calls_atomic_lateCompletion :
    store.next (store.after [.call (.createRun (Sample.request [Sample.step "only" 1 false] [])
        (.at 0)), .call (Sample.ask 0)])
      (.call (Sample.succeed (Sample.step "only" 1 false) 1 99 .null)) =
    store.after [.call (.createRun (Sample.request [Sample.step "only" 1 false] []) (.at 0)),
      .call (Sample.ask 0)] :=
  refused_calls_atomic _ _ (by decide +kernel)

end Orchestrator
