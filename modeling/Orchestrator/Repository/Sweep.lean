import Orchestrator.Repository.Lease

/-!
# What a sweep recovers

`recover_expired` visits the steps one after the other, and a visit changes no lease but
that of its own step. So the sweep recovers the steps that hold an expired lease before
it, and no others.
-/

namespace Orchestrator

namespace Repository

/-- The step holds a lease that has run out. -/
def Expired (s : Repository) (k : RunId) (id : StepId) (now : UInt64) : Prop :=
  ∃ run record lease, s.runs[k]? = some run ∧ run.steps[id]? = some record ∧
    record.lease = some lease ∧ lease.expiresAtMs ≤ now

/-- Recovery of one step leaves the records of the others. -/
theorem recover_other {token : UInt64} {id other : StepId} {run run' : RunRecord}
    (h : RunStep token (.recover id) run run') (apart : id ≠ other) :
    run'.steps[other]? = run.steps[other]? := by
  cases h with
  | recover now sequence eventNow listed found expired =>
      simp only [RunRecord.logged_steps, RunRecord.noteRecovery_steps, RunRecord.setStep_steps,
        BTreeMap.getElem?_insert]
      exact if_neg apart

variable {s s' : Repository} {k k' : RunId} {id id' : StepId} {now : UInt64}

/-- A record that holds a lease after a recovery was the same before it. -/
theorem Moves.leased_before {run run' : RunRecord} (move : s.Moves k (.recover id) run run' s')
    {other : RunRecord} {record : StepRecord} {lease : StepLease}
    (found : s'.runs[k']? = some other)
    (foundStep : other.steps[id']? = some record) (leased : record.lease = some lease) :
    (k, id) ≠ (k', id') ∧ ∃ before, s.runs[k']? = some before ∧ before.SameRequest other ∧
      before.status = other.status ∧ before.steps[id']? = some record := by
  rw [move.runs] at found
  split at found
  next own =>
    subst own
    obtain rfl := Option.some.inj found
    have apart : id ≠ id' := by
      rintro rfl
      have unleased := move.step.recovered_unleased record foundStep
      rw [leased] at unleased
      cases unleased
    refine ⟨fun same => apart (Prod.mk.inj same).2, run, move.found, move.step.sameRequest, ?_, ?_⟩
    · cases move.step with
      | recover => simp
    · exact (recover_other move.step apart).symm.trans foundStep
  next own =>
    exact ⟨fun same => own (Prod.mk.inj same).1, other, found, .refl other, rfl, foundStep⟩

theorem Expired.before {run run' : RunRecord} (expired : s'.Expired k' id' now)
    (move : s.Moves k (.recover id) run run' s') : s.Expired k' id' now := by
  obtain ⟨other, record, lease, found, foundStep, leased, past⟩ := expired
  obtain ⟨-, before, found, -, -, foundStep⟩ := move.leased_before found foundStep leased
  exact ⟨before, record, lease, found, foundStep, leased, past⟩

/-- Recovery of a step leaves the leases of the others. -/
theorem Expired.later {run run' : RunRecord} (expired : s.Expired k' id' now)
    (move : s.Moves k (.recover id) run run' s') (other : (k, id) ≠ (k', id')) :
    s'.Expired k' id' now := by
  obtain ⟨old, record, lease, found, foundStep, leased, past⟩ := expired
  by_cases own : k = k'
  · subst own
    obtain rfl := Option.some.inj (move.found.symm.trans found)
    have kept := recover_other move.step fun same => other (by rw [same])
    exact ⟨run', record, lease, (move.runs k).trans (if_pos rfl), kept.trans foundStep, leased,
      past⟩
  · exact ⟨old, record, lease, ((move.runs k').trans (if_neg own)).trans found, foundStep, leased,
      past⟩

theorem Expired.outside {listed : List (RunId × StepId)} (expired : s.Expired k id now)
    (recovery : s.Recovery listed s') (unlisted : (k, id) ∉ listed) : s'.Expired k id now := by
  induction recovery with
  | done => exact expired
  | next move _ ih =>
      obtain ⟨other, unlisted⟩ := not_or.mp fun either => unlisted (List.mem_cons.mpr either)
      exact ih (expired.later move fun same => other same.symm) unlisted

theorem Expired.of_recovery {listed : List (RunId × StepId)} (recovery : s.Recovery listed s')
    (expired : s'.Expired k id now) : s.Expired k id now := by
  induction recovery with
  | done => exact expired
  | next move _ ih => exact (ih expired).before move

/-- A recovered step held a lease before the sweep. -/
theorem Recovery.leased {listed : List (RunId × StepId)} (recovery : s.Recovery listed s')
    (member : (k, id) ∈ listed) : ∃ run record lease, s.runs[k]? = some run ∧
      run.steps[id]? = some record ∧ record.lease = some lease := by
  induction recovery with
  | done => cases member
  | next move _ ih =>
      obtain head | later := List.mem_cons.mp member
      · obtain ⟨rfl, rfl⟩ := Prod.mk.inj head
        cases move.step with
        | recover now sequence eventNow listed found expired =>
            obtain ⟨⟨lease, leased, -⟩, -⟩ := recoverExpiredStep_eq_some expired
            exact ⟨_, _, lease, move.found, found, leased⟩
      · obtain ⟨run, record, lease, found, foundStep, leased⟩ := ih later
        obtain ⟨-, before, found, -, -, foundStep⟩ := move.leased_before found foundStep leased
        exact ⟨before, record, lease, found, foundStep, leased⟩

/-- No step is recovered twice. -/
theorem Recovery.nodup {listed : List (RunId × StepId)} (recovery : s.Recovery listed s') :
    listed.Nodup := by
  induction recovery with
  | done => exact .nil
  | next move rest ih =>
      refine List.nodup_cons.mpr ⟨fun again => ?_, ih⟩
      obtain ⟨run, record, lease, found, foundStep, leased⟩ := rest.leased again
      exact (move.leased_before found foundStep leased).1 rfl

/-- A visit recovers a step exactly when its lease has run out. -/
theorem recoverStep_isSome_iff {run : RunRecord} {step : StepSpec} (eventNow : UInt64)
    (found : s.runs[k]? = some run) :
    s.recoverStep k step now eventNow ≠ none ↔ s.Expired k step.id now := by
  simp only [recoverStep, found]
  constructor
  · intro recovered
    split at recovered
    · cases recovered rfl
    next record event expired =>
      obtain ⟨old, foundStep, expired⟩ := Option.bind_eq_some_iff.mp expired
      obtain ⟨⟨lease, leased, past⟩, -⟩ := recoverExpiredStep_eq_some expired
      exact ⟨run, old, lease, found, foundStep, leased, UInt64.not_lt.mp past⟩
  · rintro ⟨other, record, lease, found', foundStep, leased, past⟩
    obtain rfl := Option.some.inj (found.symm.trans found')
    have lapsed : ¬ now < lease.expiresAtMs := UInt64.not_lt.mpr past
    simp [foundStep, recoverExpiredStep, leased, lapsed]

/-- The sweep over the steps of one run. -/
theorem recoverSteps_listed (now : UInt64) (clock : Clock) (steps : List StepSpec)
    (expired : List (RunId × StepId)) (keyed : s.Keyed) {run : RunRecord}
    (found : s.runs[k]? = some run) (listed : ∀ step ∈ steps, step ∈ run.workflow.steps) :
    ∃ more s', s.recoverSteps k now clock steps expired = (.ok (expired ++ more), s') ∧
      s.Recovery more s' ∧ ∀ k' id, (k', id) ∈ more ↔
        k' = k ∧ (∃ step ∈ steps, step.id = id) ∧ s.Expired k id now := by
  induction steps generalizing s expired run with
  | nil =>
      refine ⟨[], s, by rw [List.append_nil]; rfl, .done s, fun k' id => ?_⟩
      simp
  | cons step rest ih =>
      have listedRest : ∀ step ∈ rest, step ∈ run.workflow.steps :=
        fun step member => listed step (List.mem_cons_of_mem _ member)
      obtain quiet | ⟨envelope, run', s', recovered, move⟩ := recoverStep_cases keyed now
        (clock.step k step.id) found (listed step List.mem_cons_self)
      · obtain ⟨more, s', result, recovery, all⟩ := ih expired keyed found listedRest
        refine ⟨more, s', by rw [recoverSteps, quiet]; exact result, recovery, fun k' id => ?_⟩
        rw [all]
        constructor
        · rintro ⟨rfl, ⟨other, member, rfl⟩, lapsed⟩
          exact ⟨rfl, ⟨other, List.mem_cons_of_mem _ member, rfl⟩, lapsed⟩
        · rintro ⟨rfl, ⟨other, member, rfl⟩, lapsed⟩
          obtain rfl | later := List.mem_cons.mp member
          · exact absurd quiet ((recoverStep_isSome_iff _ found).mpr lapsed)
          · exact ⟨rfl, ⟨other, later, rfl⟩, lapsed⟩
      · have found' : s'.runs[k]? = some run' := (move.runs k).trans (if_pos rfl)
        have lapsed := (recoverStep_isSome_iff (clock.step k step.id) found).mp
          (by rw [recovered]; exact Option.some_ne_none _)
        obtain ⟨more, s'', result, recovery, all⟩ := ih (expired ++ [(k, step.id)])
          (move.keyed keyed) found' (by rw [move.step.sameRequest.workflow]; exact listedRest)
        refine ⟨(k, step.id) :: more, s'', ?_, .next move recovery, fun k' id => ?_⟩
        · rw [recoverSteps, recovered]
          simpa only [List.append_assoc, List.singleton_append] using result
        · rw [List.mem_cons, all]
          constructor
          · rintro (head | ⟨rfl, ⟨other, member, rfl⟩, later⟩)
            · obtain ⟨rfl, rfl⟩ := Prod.mk.inj head
              exact ⟨rfl, ⟨step, List.mem_cons_self, rfl⟩, lapsed⟩
            · exact ⟨rfl, ⟨other, List.mem_cons_of_mem _ member, rfl⟩, later.before move⟩
          · rintro ⟨rfl, ⟨other, member, rfl⟩, before⟩
            by_cases same : (k', step.id) = (k', other.id)
            · exact .inl same.symm
            · obtain rfl | later := List.mem_cons.mp member
              · exact absurd rfl same
              · exact .inr ⟨rfl, ⟨other, later, rfl⟩, before.later move same⟩

/-- The sweep over the listed runs. -/
theorem recoverRuns_listed (now : UInt64) (clock : Clock) (ids : List RunId)
    (expired : List (RunId × StepId)) (keyed : s.Keyed) (sound : s.Every RunRecord.Sound)
    (stored : ∀ k ∈ ids, ∃ run, s.runs[k]? = some run) :
    ∃ more s', s.recoverRuns now clock ids expired = (.ok (expired ++ more), s') ∧
      s.Recovery more s' ∧ ∀ k id, (k, id) ∈ more ↔ k ∈ ids ∧ s.Expired k id now := by
  induction ids generalizing s expired with
  | nil =>
      refine ⟨[], s, by rw [List.append_nil]; rfl, .done s, fun k id => ?_⟩
      simp
  | cons k rest ih =>
      obtain ⟨run, found⟩ := stored k List.mem_cons_self
      obtain ⟨more, s', result, recovery, all⟩ := recoverSteps_listed now clock
        run.workflow.steps expired keyed found (fun _ member => member)
      obtain ⟨others, s'', result', recovery', all'⟩ := ih (expired ++ more)
        (recovery.keyed keyed)
        (recovery.preserves (fun move => move.lift (.step move.step)) sound)
        (fun id member => by
          obtain ⟨run, found⟩ := stored id (List.mem_cons_of_mem _ member)
          exact recovery.stored found)
      -- an expired lease is one of a step of the workflow
      have named : ∀ {id}, s.Expired k id now → ∃ step ∈ run.workflow.steps, step.id = id := by
        rintro id ⟨other, record, lease, found', foundStep, -, -⟩
        obtain rfl := Option.some.inj (found.symm.trans found')
        exact ((sound k run found).records _ _ foundStep).listed
      refine ⟨more ++ others, s'', ?_, recovery.append recovery', fun k' id => ?_⟩
      · rw [recoverRuns, found]
        simp only [result, result', List.append_assoc]
      · rw [List.mem_append, all, all', List.mem_cons]
        constructor
        · rintro (⟨rfl, -, lapsed⟩ | ⟨member, lapsed⟩)
          · exact ⟨.inl rfl, lapsed⟩
          · exact ⟨.inr member, lapsed.of_recovery recovery⟩
        · rintro ⟨rfl | member, lapsed⟩
          · exact .inl ⟨rfl, named lapsed, lapsed⟩
          · by_cases now : (k', id) ∈ more
            · exact .inl ((all k' id).mp now)
            · exact .inr ⟨member, lapsed.outside recovery now⟩

/-- A sweep recovers the steps whose leases have run out. -/
theorem recoverExpired_listed (keyed : s.Keyed) (sound : s.Every RunRecord.Sound) (clock : Clock) :
    ∃ listed s', s.recoverExpired clock = (.ok listed, s') ∧ s.Recovery listed s' ∧
      ∀ k id, (k, id) ∈ listed ↔ s.Expired k id (clock.call 0) := by
  obtain ⟨listed, s', result, recovery, all⟩ := recoverRuns_listed (clock.call 0) clock s.runs.keys
    [] keyed sound fun k member => BTreeMap.mem_keys_iff.mp member
  refine ⟨listed, s', result, recovery, fun k id => ?_⟩
  rw [all]
  refine ⟨And.right, fun expired => ⟨?_, expired⟩⟩
  obtain ⟨run, -, -, found, -⟩ := expired
  exact BTreeMap.mem_keys_iff.mpr ⟨run, found⟩

end Repository

end Orchestrator
