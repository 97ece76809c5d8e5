import Orchestrator.Repository.Budget

/-!
# Histories that use up the lease tokens

The token counter stops at its largest value, and from then on claims share a
token. `flood` uses up any number of tokens, each on a run of its own. After
enough of them a claim that was completed can be completed again, while a later
claim of its step holds the lease.
-/

namespace Orchestrator

/-- A history stays genuine with calls that complete nothing, and with completions
of claims handed out before. -/
theorem Genuine.concat {ops : List Op} {op : Op} (genuine : Genuine ops)
    (presents : ∀ claim completion clock, op = .completeStep claim completion clock →
      claim ∈ issued ops) : Genuine (ops ++ [op]) := by
  intro pre claim completion clock within
  obtain whole | before := List.prefix_concat_iff.mp within
  · obtain ⟨rfl, last⟩ := List.append_inj' whole rfl
    exact presents claim completion clock (List.cons.inj last).1.symm
  · exact genuine pre claim completion clock before

namespace Sample

/-- The id of the run with this number. -/
def nthRun (i : Nat) : RunId := ⟨String.ofList (List.replicate (i + 1) 'a')⟩

/-- A request for a run of one step, which may be tried once and has a fallback. -/
def single (runId : RunId) : RunRequest := { request [step "only" 1 true] [] with runId }

/-- Creates a run and claims its step. -/
def start (id : RunId) : List Op :=
  [.createRun (single id) (.at 0), .claimNextStep id worker 10 (.at 0)]

/-- Starts as many runs. -/
def flood (n : Nat) : List Op := (List.range n).flatMap fun i => start (nthRun i)

theorem nthRun_injective {i j : Nat} (same : nthRun i = nthRun j) : i = j := by
  have chars := congrArg String.toList (congrArg Id.value same)
  simp only [nthRun, String.toList_ofList] at chars
  simpa using congrArg List.length chars

/-- No run of a flood has the id of the sample run. -/
theorem nthRun_ne (i : Nat) : nthRun i ≠ runId := by
  intro same
  have chars := congrArg String.toList (congrArg Id.value same)
  simp only [nthRun, String.toList_ofList] at chars
  have first : 'r' ∈ List.replicate (i + 1) 'a' := by
    rw [chars]
    decide
  exact absurd (List.eq_of_mem_replicate first) (by decide)

theorem single_accepted (id : RunId) : validateRunRequest (single id) = some (.ok ()) := by
  have same : validateRunRequest (single id) = validateRunRequest (single runId) := rfl
  rw [same]
  decide +kernel

theorem single_task (id : RunId) :
    (single id).manifest.tasks[(⟨"work"⟩ : TaskId)]? = some (task "work") := by
  change (single runId).manifest.tasks[(⟨"work"⟩ : TaskId)]? = _
  decide +kernel

theorem single_fallback (id : RunId) :
    (single id).manifest.tasks[(⟨"backup"⟩ : TaskId)]? = some (task "backup") := by
  change (single runId).manifest.tasks[(⟨"backup"⟩ : TaskId)]? = _
  decide +kernel

end Sample

open Sample

/-- Each start of a flood takes a token, and only its own runs are stored. -/
theorem flood_after (n : Nat) :
    (repository.after (flood n)).nextLeaseToken.toNat = min n UInt64.maxNat ∧
      ∀ id, (∀ i < n, nthRun i ≠ id) → (repository.after (flood n)).runs[id]? = none := by
  induction n with
  | zero => exact ⟨rfl, fun id _ => by simp [flood, repository, Repository.empty]⟩
  | succ n ih =>
      obtain ⟨counter, absent⟩ := ih
      have fresh : (repository.after (flood n)).runs[nthRun n]? = none :=
        absent _ fun i less same => Nat.ne_of_lt less (nthRun_injective same)
      obtain ⟨sequence, created, record, claim, s', -, -, -, claimed, runs, token, -⟩ :=
        Repository.launch (single (nthRun n)) worker
          (Repository.keyed_after (flood n)) (single_accepted _) rfl fresh rfl rfl (single_task _)
          (by decide +kernel) 10 (.at 0) (.at 0)
      have state : repository.after (flood (n + 1)) = s' := by
        rw [flood, List.range_succ, List.flatMap_append, Machine.after_append]
        exact congrArg Prod.snd claimed
      rw [state]
      refine ⟨?_, fun id apart => ?_⟩
      · rw [token, UInt64.toNat_saturatingAdd, counter, UInt64.toNat_one]
        omega
      · rw [runs]
        exact (if_neg (apart n (Nat.lt_succ_self n))).trans
          (absent id fun i less => apart i (Nat.lt_succ_of_lt less))

/-- The flood completes nothing. -/
theorem flood_genuine (n : Nat) : Genuine (flood n) := by
  refine .of_plain fun op member => ?_
  simp only [flood, start, List.mem_flatMap, List.mem_cons, List.not_mem_nil, or_false] at member
  obtain ⟨_, -, rfl | rfl⟩ := member <;> simp

namespace Sample

/-- The token that claims share once the counter has stopped. -/
def lastToken : UInt64 := 0xFFFFFFFFFFFFFFFF

/-- A worker gives up the primary task of its first attempt. -/
def giveUp (now : UInt64) : Op :=
  .completeStep (claim (step "only" 1 true) lastToken)
    (.fallback runId ⟨"only"⟩ ⟨"backup"⟩ "broken") (.at now)

/-- After a flood a worker claims the sample step and gives up twice with this
claim, the second time when it has claimed the fallback. -/
def overrun (n : Nat) : List Op :=
  flood n ++ [.createRun (single runId) (.at 0)] ++ [ask 0] ++ [giveUp 1] ++ [ask 2] ++ [giveUp 3]

end Sample

/-- Giving up selects the fallback, whenever the step is leased under the token. -/
theorem giveUp_of_lease {s : Repository} (keyed : s.Keyed) {run : RunRecord} {record : StepRecord}
    (expiresAtMs now : UInt64) (found : s.runs[runId]? = some run)
    (known : run.manifest = (single runId).manifest)
    (foundStep : run.steps[(⟨"only"⟩ : StepId)]? = some record)
    (leased : record.lease = some ⟨worker.id, lastToken, expiresAtMs⟩)
    (live : now < expiresAtMs) :
    (repository.next s (giveUp now)).Keyed ∧
      (repository.next s (giveUp now)).nextLeaseToken = s.nextLeaseToken ∧
      ∃ run', (repository.next s (giveUp now)).runs[runId]? = some run' ∧
        run.SameRequest run' ∧ run'.status = run.status ∧
        run'.steps = run.steps.insert ⟨"only"⟩
          (record.complete (.fallback runId ⟨"only"⟩ ⟨"backup"⟩ "broken") now now) ∧
        run'.selections ⟨"only"⟩ = run.selections ⟨"only"⟩ ++ [⟨"backup"⟩] := by
  have valid : StepLease.validFor ⟨worker.id, lastToken, expiresAtMs⟩
      (claim (step "only" 1 true) lastToken) now = true := by
    simp [StepLease.validFor, claim, live]
  obtain ⟨sequence, run', s', hrun', completed, move⟩ :=
    Repository.completeStep_of_lease s keyed (claim (step "only" 1 true) lastToken)
      (.fallback runId ⟨"only"⟩ ⟨"backup"⟩ "broken") (.at now) found foundStep leased
      valid (by rw [known]; decide +kernel)
  have state : repository.next s (giveUp now) = s' := congrArg Prod.snd completed
  rw [state]
  refine ⟨move.keyed keyed, move.token_of_plain rfl, run', (move.runs _).trans (if_pos rfl),
    move.step.sameRequest, ?_, ?_, ?_⟩
  · rw [hrun', RunRecord.logged_status, RunRecord.commit_status]
  · rw [hrun', RunRecord.logged_steps, RunRecord.commit_steps]
    rfl
  · rw [hrun', RunRecord.selections_logged, RunRecord.selections, RunRecord.commit_eventLog]
    rfl

/-- With the tokens used up, the second completion is accepted: the step selects
its fallback twice, and then awaits an attempt that its budget does not have. -/
theorem overrun_after {n : Nat} (full : 2 ^ 64 - 2 ≤ n) :
    Genuine (overrun n) ∧ ∃ (run : RunRecord) (record : StepRecord),
      (repository.after (overrun n)).runs[runId]? = some run ∧
      run.status = .running ∧ run.workflow.steps = [step "only" 1 true] ∧
      run.steps[(⟨"only"⟩ : StepId)]? = some record ∧
      record.status = .retrying ∧ record.attempts = 2 ∧ record.fallbackUsed = true ∧
      record.lease = none ∧ record.nextAttemptAtMs = none ∧
      record.history.map StepAttempt.leaseToken = [lastToken, lastToken] ∧
      run.selections ⟨"only"⟩ = [⟨"backup"⟩, ⟨"backup"⟩] := by
  obtain ⟨counter, absent⟩ := flood_after n
  obtain ⟨sequence, created, first, handed, s₁, rfl, hfirst, hhanded, claimed, runs, token,
    keyed₁⟩ :=
    Repository.launch (single runId) worker
      (Repository.keyed_after (flood n)) (single_accepted _) rfl
      (absent _ fun i _ => nthRun_ne i) rfl rfl (single_task _)
      (by decide +kernel) 10 (.at 0) (.at 0)
  have last : (repository.after (flood n)).nextLeaseToken.saturatingAdd 1 = lastToken := by
    have top : lastToken.toNat = 2 ^ 64 - 1 := by decide
    apply UInt64.toNat_inj.mp
    rw [UInt64.toNat_saturatingAdd, counter, UInt64.toNat_one, top, UInt64.maxNat]
    omega
  rw [last] at token hfirst hhanded
  have asked : repository.after
      (flood n ++ [.createRun (single runId) (.at 0)] ++ [ask 0]) = s₁ := by
    rw [Machine.after_concat, Machine.after_concat]
    exact congrArg Prod.snd claimed
  have leased : first.lease = some ⟨worker.id, lastToken, 10⟩ := by
    rw [hfirst]
    decide +kernel
  obtain ⟨keyed₂, token₂, run₂, found₂, same₂, status₂, steps₂, selections₂⟩ :=
    giveUp_of_lease keyed₁ _ 1 ((runs _).trans (if_pos rfl)) rfl
      Std.ExtTreeMap.getElem?_insert_self leased (by decide)
  -- the fallback is claimed under the same token
  have record₂ : run₂.steps[(⟨"only"⟩ : StepId)]? = some (first.complete
      (.fallback runId ⟨"only"⟩ ⟨"backup"⟩ "broken") 1 1) := by
    rw [steps₂, Std.ExtTreeMap.getElem?_insert_self]
  have known : run₂.manifest.tasks[(⟨"backup"⟩ : TaskId)]? = some (task "backup") := by
    rw [same₂.manifest]
    exact single_fallback runId
  have candidate : claimCandidate run₂ worker ((Clock.at 2).step runId (step "only" 1 true).id)
      (step "only" 1 true) =
      some (step "only" 1 true, ⟨"backup"⟩, dependencyOutputs run₂ (step "only" 1 true)) := by
    have selected : selectedTask run₂ (step "only" 1 true) = ⟨"backup"⟩ := by
      have found : run₂.steps[(step "only" 1 true).id]? = _ := record₂
      rw [selectedTask, found]
      rfl
    refine Repository.claimCandidate_eq_some.mpr ⟨rfl, selected.symm, rfl, ?_, rfl, ?_⟩
    · rw [selected]
      exact ⟨_, known, by decide +kernel⟩
    · change stepAvailable run₂.steps[(⟨"only"⟩ : StepId)]? _ _ = true
      rw [record₂, hfirst]
      decide +kernel
  have chosen : run₂.workflow.steps.findSome? (fun step =>
      claimCandidate run₂ worker ((Clock.at 2).step runId step.id) step) =
      some (step "only" 1 true, ⟨"backup"⟩, dependencyOutputs run₂ (step "only" 1 true)) := by
    rw [same₂.workflow]
    change List.findSome? _ [step "only" 1 true] = _
    rw [List.findSome?_cons, candidate]
  obtain ⟨second, again, s₃, hsecond, hagain, reclaimed, move₃⟩ :=
    Repository.claimNextStep_of_candidate _ keyed₂ 10 (.at 2) found₂
      (status₂.trans rfl) chosen known
  have reasked : repository.next (repository.next s₁ (giveUp 1)) (ask 2) = s₃ :=
    congrArg Prod.snd reclaimed
  have top : (repository.next s₁ (giveUp 1)).nextLeaseToken.saturatingAdd 1 = lastToken := by
    rw [token₂, token]
    decide
  have entry : run₂.entry ⟨"only"⟩ ⟨"backup"⟩ = first.complete
      (.fallback runId ⟨"only"⟩ ⟨"backup"⟩ "broken") 1 1 := by
    rw [RunRecord.entry, record₂]
    rfl
  rw [top] at hsecond
  have second_eq : second = (first.complete (.fallback runId ⟨"only"⟩ ⟨"backup"⟩ "broken") 1 1).claim
      runId ⟨"backup"⟩ worker.id lastToken 2 10 := by
    rw [hsecond, RunRecord.claimed, same₂.runId, ← entry]
    rfl
  obtain ⟨keyed₄, token₄, run₄, found₄, same₄, status₄, steps₄, selections₄⟩ :=
    giveUp_of_lease (move₃.keyed keyed₂) 12 3 ((move₃.runs _).trans (if_pos rfl)) same₂.manifest
      Std.ExtTreeMap.getElem?_insert_self (by rw [second_eq, hfirst]; decide +kernel) (by decide)
  have state : repository.after (overrun n) = repository.next s₃ (giveUp 3) := by
    rw [overrun, Machine.after_concat, Machine.after_concat, Machine.after_concat, asked, reasked]
  refine ⟨?_, run₄, second.complete (.fallback runId ⟨"only"⟩ ⟨"backup"⟩ "broken") 3 3,
    by rw [state]; exact found₄, status₄.trans status₂, ?_, ?_, rfl, ?_, ?_, rfl, rfl, ?_, ?_⟩
  · have given : handed = claim (step "only" 1 true) lastToken := by
      rw [hhanded, hfirst]
      rfl
    have issues : claim (step "only" 1 true) lastToken ∈
        issued (flood n ++ [.createRun (single runId) (.at 0)] ++ [ask 0]) := by
      have answer : repository.answer (repository.after (flood n ++
          [.createRun (single runId) (.at 0)])) (ask 0) = .claimed (.ok (some handed)) := by
        rw [Machine.after_concat]
        exact congrArg (fun result => Response.claimed result.1) claimed
      rw [issued_concat, answer, given]
      exact List.mem_append_right _ (List.mem_singleton_self _)
    have plain : ∀ {ops : List Op} {op : Op}, Genuine ops →
        (∀ claim completion clock, op ≠ .completeStep claim completion clock) →
        Genuine (ops ++ [op]) :=
      fun genuine other => genuine.concat fun _ _ _ same => absurd same (other _ _ _)
    have presents : ∀ {ops : List Op} (now : UInt64), Genuine ops →
        claim (step "only" 1 true) lastToken ∈ issued ops → Genuine (ops ++ [giveUp now]) := by
      intro ops now genuine member
      refine genuine.concat fun presented completion clock same => ?_
      rw [giveUp, Op.completeStep.injEq] at same
      exact same.1 ▸ member
    refine presents 3 (plain (presents 1 (plain (plain (flood_genuine n) ?_) ?_) issues) ?_) ?_
    · exact fun _ _ _ same => by cases same
    · exact fun _ _ _ same => by cases same
    · exact fun _ _ _ same => by cases same
    · exact (issued_extends ((List.prefix_append _ _).trans (List.prefix_append _ _))).subset issues
  · rw [same₄.workflow]
    exact same₂.workflow ▸ rfl
  · rw [steps₄, Std.ExtTreeMap.getElem?_insert_self]
  · rw [second_eq, hfirst]
    decide +kernel
  · rw [second_eq, hfirst]
    decide +kernel
  · rw [second_eq, hfirst]
    decide +kernel
  · rw [selections₄]
    change run₂.selections _ ++ _ = _
    rw [selections₂]
    rfl

/-- A history of 2 ^ 64 claims selects one fallback twice. -/
theorem fallback_selected_twice :
    Genuine (overrun (2 ^ 64 - 2)) ∧ ¬ WithinBudget (overrun (2 ^ 64 - 2)) := by
  obtain ⟨genuine, run, record, found, -, steps, foundStep, -, -, -, -, -, -, selections⟩ :=
    overrun_after (Nat.le_refl (2 ^ 64 - 2))
  refine ⟨genuine, fun within => ?_⟩
  have once := ((within _ run found).1 _ (steps ▸ List.mem_singleton_self _) record foundStep).2.2.2
  rw [show (step "only" 1 true).id = ⟨"only"⟩ from rfl, selections] at once
  exact absurd once (by decide)

end Orchestrator
