import Orchestrator.Repository.Effect
import Orchestrator.Repository.Outcome

/-!
# Invariants of stored runs

`runs_invariant` carries a property of runs from one step to every history. The
properties here need nothing of the claims that callers present: they hold after
any calls with any arguments and any clock readings.
-/

namespace Orchestrator

open Json (Value)

namespace Repository

/-- Every stored run has the property. -/
def Every (P : RunRecord → Prop) (s : Repository) : Prop :=
  ∀ (k : RunId) (run : RunRecord), s.runs[k]? = some run → P run

section Lifting

variable {s s' : Repository} {op : Op} {response : Response}

theorem Recovery.preserves {P : Repository → Prop} {expired : List (RunId × StepId)}
    (h : s.Recovery expired s')
    (move : ∀ {s k id run run' s'}, s.Moves k (.recover id) run run' s' → P s → P s')
    (holds : P s) : P s' := by
  induction h with
  | done => exact holds
  | next first _ ih => exact ih (move first holds)

/-- What the creation of a run and every step of one run preserve, a call preserves. -/
theorem Effect.preserves {P : Repository → Prop} (h : s.Effect op response s')
    (create : ∀ {request clock now sequence eventNow}, op = .createRun request clock →
      validateRunRequest request = some (.ok ()) →
      s.Creates (.created request now sequence eventNow) s' → P s → P s')
    (move : ∀ {s k action run run' s'}, s.Moves k action run run' s' → P s → P s')
    (holds : P s) : P s' := by
  cases h with
  | unchanged => exact holds
  | create accepted creation => exact create rfl accepted creation holds
  | recover recovery => exact recovery.preserves move holds
  | claim first => exact move first holds
  | renew first => exact move first holds
  | complete first => exact move first holds
  | record first => exact move first holds
  | finish first => exact move first holds
  | cancel first => exact move first holds

theorem Effect.keyed (keyed : s.Keyed) (h : s.Effect op response s') : s'.Keyed :=
  h.preserves (fun _ _ creation => creation.keyed) (fun move keyed => move.keyed keyed) keyed

theorem keyed_after (ops : List Op) : (repository.after ops).Keyed := by
  refine repository.after_invariant ?_ (fun s op (keyed : s.Keyed) =>
    (step_effect keyed op).keyed keyed) ops
  intro k run found
  simp [repository, empty] at found

/-- The effect of a call that follows a history. -/
theorem effect_after (ops : List Op) (op : Op) :
    (repository.after ops).Effect op (repository.answer (repository.after ops) op)
      (repository.after (ops ++ [op])) := by
  rw [Machine.after_concat]
  exact step_effect (keyed_after ops) op

variable {P : RunRecord → Prop}

/-- What holds of every run and of the changed run holds of every run after a move. -/
theorem Moves.lift {k : RunId} {action : RunAction} {run run' : RunRecord}
    (h : s.Moves k action run run' s') (changed : P run → P run')
    (all : s.Every P) : s'.Every P := by
  intro id other found
  rw [h.runs] at found
  split at found
  · obtain rfl := Option.some.inj found
    exact changed (all k run h.found)
  · exact all id other found

theorem Creates.lift {run : RunRecord} (h : s.Creates run s') (created : P run)
    (all : s.Every P) : s'.Every P := by
  intro id other found
  rw [h.runs] at found
  split at found
  · obtain rfl := Option.some.inj found
    exact created
  · exact all id other found

/-- A property of new runs that every step of a run preserves holds of all runs
after a call. -/
theorem Effect.lift (h : s.Effect op response s')
    (created : ∀ request now sequence eventNow, validateRunRequest request = some (.ok ()) →
      P (.created request now sequence eventNow))
    (changed : ∀ {token action run run'}, RunStep token action run run' → P run → P run')
    (all : s.Every P) : s'.Every P :=
  h.preserves (fun _ accepted creation => creation.lift (created _ _ _ _ accepted))
    (fun move => move.lift (changed move.step)) all

/-- A property of new runs that every step of a run preserves holds of all
stored runs, after every history. -/
theorem runs_invariant
    (created : ∀ request now sequence eventNow, validateRunRequest request = some (.ok ()) →
      P (.created request now sequence eventNow))
    (changed : ∀ {token action run run'}, RunStep token action run run' → P run → P run')
    (ops : List Op) : (repository.after ops).Every P := by
  induction ops using Machine.history_induction with
  | nil =>
      intro k run found
      simp [repository, empty] at found
  | concat ops op ih => exact (effect_after ops op).lift created changed ih

/-- A run once stored stays stored under its request. -/
theorem Moves.stored {k : RunId} {action : RunAction} {run run' : RunRecord}
    (h : s.Moves k action run run' s') {id : RunId} {other : RunRecord}
    (found : s.runs[id]? = some other) :
    ∃ other', s'.runs[id]? = some other' ∧ other.SameRequest other' := by
  by_cases hk : k = id
  · subst hk
    obtain rfl := Option.some.inj (h.found.symm.trans found)
    exact ⟨run', by rw [h.runs, if_pos rfl], h.step.sameRequest⟩
  · exact ⟨other, by rw [h.runs, if_neg hk]; exact found, .refl _⟩

end Lifting

end Repository

end Orchestrator
