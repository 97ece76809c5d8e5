import Mathlib.Data.List.Induction
import Mathlib.Data.List.Perm.Subperm
import Orchestrator.Model.Workflow

/-!
# Valid workflows

What `validate` establishes of the workflows it accepts: their step ids are
distinct, and the steps can be put in an order in which each comes after the
steps it depends on.
-/

namespace Orchestrator

namespace WorkflowSpec

variable {workflow : WorkflowSpec}

/-- The steps with the id, in step order. -/
def named (workflow : WorkflowSpec) (k : StepId) : List StepSpec :=
  workflow.steps.filter fun step => step.id = k

/-- How often the steps with the id `k` name `node` among their dependencies. -/
def mentions (workflow : WorkflowSpec) (k node : StepId) : Nat :=
  ((workflow.named k).map fun step => step.dependsOn.count node).sum

/-- The number of dependencies of the last step with the id. -/
def lastDegree (workflow : WorkflowSpec) (k : StepId) : Option Nat :=
  (workflow.named k).getLast?.map fun step => step.dependsOn.length

/-- The in-degree that an id starts with is that of its last step. -/
theorem indegree_eq (workflow : WorkflowSpec) (k : StepId) :
    workflow.indegree[k]? = workflow.lastDegree k := by
  rw [indegree, lastDegree, named]
  induction workflow.steps using List.reverseRecOn with
  | nil => simp
  | append_singleton steps step ih =>
      rw [List.foldl_append, List.foldl_cons, List.foldl_nil, BTreeMap.getElem?_insert,
        List.filter_append, List.filter_singleton, ih]
      by_cases same : step.id = k
      · simp [same]
      · simp [same]

/-- Adding one mention of a dependency. -/
theorem pushDependent_count (dependents : BTreeMap StepId (List StepId))
    (dependency id node k : StepId) :
    (((pushDependent dependents dependency id)[node]?).getD []).count k =
      ((dependents[node]?).getD []).count k + if dependency = node ∧ id = k then 1 else 0 := by
  rw [pushDependent, BTreeMap.getElem?_insert]
  by_cases same : dependency = node
  · subst same
    simp [List.count_singleton]
  · simp [same]

/-- Adding all mentions made by one step. -/
theorem pushDependents_count (dependents : BTreeMap StepId (List StepId))
    (dependsOn : List StepId) (id node k : StepId) :
    (((dependsOn.foldl (fun dependents dependency => pushDependent dependents dependency id)
      dependents)[node]?).getD []).count k =
      ((dependents[node]?).getD []).count k + if id = k then dependsOn.count node else 0 := by
  induction dependsOn generalizing dependents with
  | nil => simp
  | cons dependency rest ih =>
      rw [List.foldl_cons, ih, pushDependent_count, List.count_cons]
      by_cases same : id = k
      · by_cases named : dependency = node
        · simp only [same, named, and_self, if_true, BEq.rfl]
          omega
        · simp [same, named]
      · simp [same]

/-- An id is listed under a dependency as often as the steps with that id name it. -/
theorem dependents_count (workflow : WorkflowSpec) (node k : StepId) :
    ((workflow.dependents[node]?).getD []).count k = workflow.mentions k node := by
  rw [dependents, mentions, named]
  induction workflow.steps using List.reverseRecOn with
  | nil => simp
  | append_singleton steps last ih =>
      rw [List.foldl_append, List.foldl_cons, List.foldl_nil, pushDependents_count, ih,
        List.filter_append, List.filter_singleton, List.map_append, List.sum_append]
      by_cases same : last.id = k
      · simp [same]
      · simp [same]

/-- With distinct ids, an id names one step. -/
theorem named_of_mem (nodup : workflow.stepIds.Nodup) {step : StepSpec}
    (member : step ∈ workflow.steps) : workflow.named step.id = [step] := by
  rw [stepIds] at nodup
  rw [named]
  generalize workflow.steps = steps at nodup member ⊢
  induction steps with
  | nil => cases member
  | cons first rest ih =>
      rw [List.map_cons, List.nodup_cons] at nodup
      obtain rfl | later := List.mem_cons.mp member
      · have absent : rest.filter (fun other => other.id = step.id) = [] := by
          refine List.filter_eq_nil_iff.mpr fun other listed same => nodup.1 ?_
          exact List.mem_map.mpr ⟨other, listed, by simpa using same⟩
        rw [List.filter_cons_of_pos (by simp), absent]
      · have other : first.id ≠ step.id := fun same =>
          nodup.1 (same ▸ List.mem_map_of_mem later)
        rw [List.filter_cons_of_neg (by simpa using other)]
        exact ih nodup.2 later

/-- The steps with an id that some step has. -/
theorem named_ne_nil (workflow : WorkflowSpec) (k : StepId) :
    workflow.named k ≠ [] ↔ k ∈ workflow.stepIds := by
  rw [named, Ne, List.filter_eq_nil_iff, stepIds, List.mem_map]
  simp

/-- The ids with an in-degree are the step ids. -/
theorem indegree_isSome (workflow : WorkflowSpec) (k : StepId) :
    (workflow.indegree[k]?).isSome = true ↔ k ∈ workflow.stepIds := by
  rw [indegree_eq, lastDegree, Option.isSome_map, List.getLast?_isSome, named_ne_nil]

/-- With distinct ids, a step's in-degree is the number of its dependencies. -/
theorem indegree_of_mem (nodup : workflow.stepIds.Nodup) {step : StepSpec}
    (member : step ∈ workflow.steps) :
    workflow.indegree[step.id]? = some step.dependsOn.length := by
  rw [indegree_eq, lastDegree, named_of_mem nodup member]
  rfl

/-- With distinct ids, a step mentions a dependency as often as it names it. -/
theorem mentions_of_mem (nodup : workflow.stepIds.Nodup) {step : StepSpec}
    (member : step ∈ workflow.steps) (node : StepId) :
    workflow.mentions step.id node = step.dependsOn.count node := by
  rw [mentions, named_of_mem nodup member, List.map_singleton, List.sum_singleton]

/-- The queue starts with the ids of degree zero, each once. -/
theorem initiallyReady_nodup (workflow : WorkflowSpec) : workflow.initiallyReady.Nodup := by
  refine List.Nodup.sublist ?_ (Std.ExtTreeMap.nodup_keys (t := workflow.indegree))
  rw [← Std.ExtTreeMap.map_fst_toList_eq_keys, ← List.filterMap_eq_map, initiallyReady]
  induction workflow.indegree.toList with
  | nil => exact List.Sublist.slnil
  | cons entry rest ih =>
      rw [List.filterMap_cons, List.filterMap_cons]
      by_cases zero : entry.2 = 0
      · simpa [zero] using ih
      · simpa [zero] using ih.cons entry.1

theorem mem_initiallyReady (workflow : WorkflowSpec) (k : StepId) :
    k ∈ workflow.initiallyReady ↔ workflow.indegree[k]? = some 0 := by
  simp [initiallyReady, List.mem_filterMap]

/-- The steps that the traversal lowers after it took one. -/
abbrev children (workflow : WorkflowSpec) (id : StepId) : List StepId :=
  (workflow.dependents[id]?).getD []

/-- The edges into a step that come from distinct nodes are among its dependencies. -/
theorem edges_eq {nodes : List StepId} (nodup : workflow.stepIds.Nodup) (distinct : nodes.Nodup)
    {step : StepSpec} (listed : step ∈ workflow.steps) :
    Kahn.edges workflow.children nodes step.id = step.dependsOn.countP (· ∈ nodes) :=
  Kahn.edges_eq_countP _ distinct fun node =>
    (workflow.dependents_count node step.id).trans (mentions_of_mem nodup listed node)

/-- Where the traversal of the steps starts. -/
theorem traversal_start (workflow : WorkflowSpec) :
    Kahn.Invariant workflow.children workflow.indegree [] workflow.initiallyReady []
      workflow.indegree :=
  Kahn.invariant_start workflow.initiallyReady_nodup workflow.mem_initiallyReady

/-- Distinct ids with a degree are no more than the steps. -/
theorem length_le_of_known {nodes : List StepId} (nodup : nodes.Nodup)
    (present : ∀ k ∈ nodes, ∃ m : Nat, workflow.indegree[k]? = some m) :
    nodes.length ≤ workflow.steps.length := by
  rw [← List.length_map (f := StepSpec.id)]
  refine (List.subperm_of_subset nodup fun k member => ?_).length_le
  obtain ⟨m, initial⟩ := present k member
  exact (workflow.indegree_isSome k).mp (by rw [initial]; rfl)

/-- The steps of the workflow, by id, in an order that respects dependencies. -/
structure Ordered (workflow : WorkflowSpec) (order : List StepId) : Prop where
  perm : order.Perm workflow.stepIds
  nodup : order.Nodup
  after : ∀ (before : List StepId) (k : StepId) (rest : List StepId),
    order = before ++ k :: rest → ∀ step ∈ workflow.steps, step.id = k →
      ∀ dependency ∈ step.dependsOn, dependency ∈ before

/-- An accepted workflow has an order of its steps. -/
theorem ordered_of_validate (valid : workflow.validate = some (.ok ())) :
    ∃ order, workflow.Ordered order := by
  unfold validate at valid
  split at valid
  · cases valid
  · split at valid
    · cases valid
    · split at valid
      · cases valid
      · cases valid
      · cases valid
      next visited counted =>
        split at valid
        · cases valid
        next total =>
          obtain ⟨order, degree, holds, length⟩ :=
            Kahn.traverse_invariant workflow.traversal_start rfl counted
          have nodup : order.Nodup := by simpa using holds.nodup
          have known : order ⊆ workflow.stepIds := by
            intro k member
            obtain ⟨degree, initial, -⟩ :=
              holds.balance k 0 (holds.zero k (List.mem_append_left _ member))
            exact (workflow.indegree_isSome k).mp (by rw [initial]; rfl)
          have perm : order.Perm workflow.stepIds := by
            refine (List.subperm_of_subset nodup known).perm_of_length_le ?_
            rw [stepIds, List.length_map, ← length]
            exact Nat.le_of_eq (not_not.mp total).symm
          refine ⟨order, perm, nodup, ?_⟩
          rintro before _ rest split step member rfl
          have ids := perm.nodup_iff.mp nodup
          have initial := holds.order before step.id rest split
          have distinct : before.Nodup :=
            List.Nodup.sublist (split ▸ List.sublist_append_left _ _) nodup
          rw [indegree_of_mem ids member,
            edges_eq ids distinct member] at initial
          simpa using List.countP_eq_length.mp (Option.some.inj initial).symm

/-- Only steps are listed under a dependency. -/
theorem mem_stepIds_of_mem_dependents {node k : StepId}
    (listed : k ∈ (workflow.dependents[node]?).getD []) : k ∈ workflow.stepIds := by
  rw [← List.count_pos_iff, dependents_count] at listed
  rw [← named_ne_nil]
  intro none
  rw [mentions, none] at listed
  exact Nat.lt_irrefl 0 listed

/-- The children of the traversal have a degree. -/
theorem known_children (workflow : WorkflowSpec) (node : StepId) :
    ∀ child ∈ workflow.children node, ∃ m : Nat, workflow.indegree[child]? = some m :=
  fun child listed => Option.isSome_iff_exists.mp
    ((workflow.indegree_isSome child).mpr (mem_stepIds_of_mem_dependents listed))

/-- Every dependency names a step. -/
theorem unknownDependency_eq_none : workflow.unknownDependency = none ↔
    ∀ step ∈ workflow.steps, ∀ dependency ∈ step.dependsOn, dependency ∈ workflow.stepIds := by
  simp [unknownDependency, List.findSome?_eq_none_iff]

/-- Where the steps have an order, every dependency names a step. -/
theorem Ordered.known {order : List StepId} (ordered : workflow.Ordered order) :
    ∀ step ∈ workflow.steps, ∀ dependency ∈ step.dependsOn, dependency ∈ workflow.stepIds := by
  intro step listed dependency named
  obtain ⟨before, rest, split⟩ :=
    List.append_of_mem (ordered.perm.mem_iff.mpr (List.mem_map_of_mem listed))
  have earlier := ordered.after before step.id rest split step listed rfl dependency named
  exact ordered.perm.mem_iff.mp (split ▸ List.mem_append_left _ earlier)

/-- A workflow whose steps have an order is accepted. -/
theorem Ordered.validate {order : List StepId} (ordered : workflow.Ordered order)
    (nonempty : workflow.steps ≠ []) : workflow.validate = some (.ok ()) := by
  have ids : workflow.stepIds.Nodup := ordered.perm.nodup_iff.mp ordered.nodup
  have step_of : ∀ (k : StepId) (m : Nat), workflow.indegree[k]? = some m →
      ∃ step ∈ workflow.steps, step.id = k ∧ m = step.dependsOn.length := by
    intro k m initial
    obtain ⟨step, listed, rfl⟩ :=
      List.mem_map.mp ((workflow.indegree_isSome k).mp (by rw [initial]; rfl))
    exact ⟨step, listed, rfl,
      (Option.some.inj ((indegree_of_mem ids listed).symm.trans initial)).symm⟩
  obtain ⟨total, counted⟩ : ∃ total, Kahn.traverse workflow.children
      workflow.steps.length workflow.initiallyReady workflow.indegree 0 = .ok total := by
    refine workflow.traversal_start.traverse_ok workflow.known_children ?_ ?_
    · intro nodes nodup _ k m initial
      obtain ⟨step, listed, rfl, rfl⟩ := step_of k m initial
      refine Nat.le_trans (Nat.le_of_eq (edges_eq ids nodup listed)) ?_
      exact List.countP_le_length
    · intro nodes nodup present
      rw [List.length_nil, Nat.zero_add]
      exact length_le_of_known nodup present
  obtain ⟨seen, degree, holds, length⟩ := Kahn.traverse_invariant workflow.traversal_start rfl
    counted
  have nodup : seen.Nodup := by simpa using holds.nodup
  have every : ∀ k ∈ order, k ∈ seen := by
    by_contra missing
    obtain ⟨late, member, unseen⟩ : ∃ k ∈ order, k ∉ seen := by
      simpa only [not_forall, exists_prop] using missing
    cases first : order.find? (fun k => k ∉ seen) with
    | none => exact absurd unseen (by simpa using List.find?_eq_none.mp first late member)
    | some k =>
        obtain ⟨undone, before, rest, split, earlier⟩ := List.find?_eq_some_iff_append.mp first
        have inside : k ∈ workflow.stepIds :=
          ordered.perm.mem_iff.mp (split ▸ List.mem_append_right _ List.mem_cons_self)
        obtain ⟨step, listed, rfl⟩ := List.mem_map.mp inside
        obtain ⟨n, left⟩ := holds.present _ _ (indegree_of_mem ids listed)
        obtain ⟨m, initial, balance⟩ := holds.balance _ n left
        obtain rfl := Option.some.inj ((indegree_of_mem ids listed).symm.trans initial)
        -- every dependency was taken, so that nothing is left of the degree
        have all : step.dependsOn.countP (· ∈ seen) = step.dependsOn.length := by
          refine List.countP_eq_length.mpr fun dependency named => ?_
          simpa using earlier dependency
            (ordered.after before _ rest split step listed rfl _ named)
        rw [edges_eq ids nodup listed, all, List.count_nil] at balance
        obtain rfl : n = 0 := by omega
        have taken := holds.queued _ left
        rw [List.append_nil] at taken
        exact absurd taken (by simpa using undone)
  have complete : total = workflow.steps.length := by
    rw [length]
    refine Nat.le_antisymm (length_le_of_known nodup fun k member => ?_) ?_
    · obtain ⟨m, initial, -⟩ := holds.balance k 0 (holds.zero k (List.mem_append_left _ member))
      exact ⟨m, initial⟩
    · rw [← List.length_map (f := StepSpec.id), ← stepIds, ← ordered.perm.length_eq]
      exact (List.subperm_of_subset ordered.nodup every).length_le
  rw [WorkflowSpec.validate, if_neg (by simpa using nonempty),
    unknownDependency_eq_none.mpr ordered.known]
  simp only [counted, complete, ne_eq, not_true, if_false]

/-- The workflows have the same steps, listed in any order. -/
structure Reorders (workflow other : WorkflowSpec) : Prop where
  id : other.id = workflow.id
  version : other.version = workflow.version
  steps : other.steps.Perm workflow.steps
  evaluationGates : other.evaluationGates = workflow.evaluationGates

theorem Reorders.symm {other : WorkflowSpec} (reorders : workflow.Reorders other) :
    other.Reorders workflow where
  id := reorders.id.symm
  version := reorders.version.symm
  steps := reorders.steps.symm
  evaluationGates := reorders.evaluationGates.symm

/-- Whether a workflow is accepted does not depend on the order of its steps. -/
theorem Reorders.validate {other : WorkflowSpec} (reorders : workflow.Reorders other)
    (valid : workflow.validate = some (.ok ())) : other.validate = some (.ok ()) := by
  obtain ⟨order, ordered⟩ := ordered_of_validate valid
  have moved : other.Ordered order :=
    { perm := ordered.perm.trans (reorders.steps.map StepSpec.id).symm
      nodup := ordered.nodup
      after := fun before k rest split step listed =>
        ordered.after before k rest split step (reorders.steps.mem_iff.mp listed) }
  refine moved.validate fun none => ?_
  have empty : workflow.steps = [] := List.Perm.nil_eq (none ▸ reorders.steps) |>.symm
  rw [WorkflowSpec.validate, empty] at valid
  cases valid

/-- The step ids of an accepted workflow are distinct. -/
theorem stepIds_nodup (valid : workflow.validate = some (.ok ())) : workflow.stepIds.Nodup := by
  obtain ⟨order, ordered⟩ := ordered_of_validate valid
  exact ordered.perm.nodup_iff.mp ordered.nodup

/-- Steps of an accepted workflow with the same id are the same step. -/
theorem step_eq_of_id (valid : workflow.validate = some (.ok ())) {step other : StepSpec}
    (member : step ∈ workflow.steps) (member' : other ∈ workflow.steps)
    (same : step.id = other.id) : step = other :=
  List.inj_on_of_nodup_map (stepIds_nodup valid) member member' same

/-- No step of an accepted workflow depends on itself. -/
theorem not_dependsOn_self (valid : workflow.validate = some (.ok ())) {step : StepSpec}
    (listed : step ∈ workflow.steps) : step.id ∉ step.dependsOn := by
  obtain ⟨order, ordered⟩ := ordered_of_validate valid
  have member : step.id ∈ order := ordered.perm.mem_iff.mpr (List.mem_map_of_mem listed)
  obtain ⟨before, rest, split⟩ := List.append_of_mem member
  intro own
  have earlier := ordered.after before step.id rest split step listed rfl step.id own
  have distinct := ordered.nodup
  rw [split, List.nodup_append] at distinct
  exact distinct.2.2 step.id earlier step.id List.mem_cons_self rfl

/-- Where not all steps are done, some step that is not has all its dependencies
among the done ones. -/
theorem exists_ready (valid : workflow.validate = some (.ok ())) (done : StepId → Prop)
    (unfinished : ∃ step ∈ workflow.steps, ¬ done step.id) :
    ∃ step ∈ workflow.steps, ¬ done step.id ∧ ∀ dependency ∈ step.dependsOn, done dependency := by
  classical
  obtain ⟨order, ordered⟩ := ordered_of_validate valid
  obtain ⟨late, listed, undone⟩ := unfinished
  have member : late.id ∈ order := ordered.perm.mem_iff.mpr (List.mem_map_of_mem listed)
  cases first : order.find? (fun k => ¬ done k) with
  | none => simpa [undone] using List.find?_eq_none.mp first late.id member
  | some k =>
      obtain ⟨open_, before, rest, split, earlier⟩ := List.find?_eq_some_iff_append.mp first
      have inside : k ∈ workflow.stepIds :=
        ordered.perm.mem_iff.mp (split ▸ List.mem_append_right _ List.mem_cons_self)
      obtain ⟨step, listed, rfl⟩ := List.mem_map.mp inside
      refine ⟨step, listed, by simpa using open_, ?_⟩
      intro dependency named
      simpa using earlier dependency (ordered.after before _ rest split step listed rfl _ named)

/-- What holds of a step whenever it holds of the steps it depends on holds of every
step. -/
theorem step_induction (valid : workflow.validate = some (.ok ())) {P : StepSpec → Prop}
    (each : ∀ step ∈ workflow.steps, (∀ earlier ∈ workflow.steps,
      earlier.id ∈ step.dependsOn → P earlier) → P step) : ∀ step ∈ workflow.steps, P step := by
  by_contra fails
  obtain ⟨late, listed, broken⟩ : ∃ step ∈ workflow.steps, ¬ P step := by
    simpa only [not_forall, exists_prop] using fails
  obtain ⟨step, listed, undone, done⟩ := exists_ready valid
    (fun id => ∀ step ∈ workflow.steps, step.id = id → P step)
    ⟨late, listed, fun every => broken (every late listed rfl)⟩
  refine undone fun other listed' same => ?_
  obtain rfl := step_eq_of_id valid listed' listed same
  exact each other listed' fun earlier member named => done earlier.id named earlier member rfl

end WorkflowSpec

end Orchestrator
