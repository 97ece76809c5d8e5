import Mathlib.Algebra.Order.BigOperators.Group.List
import Mathlib.Algebra.Order.Group.Nat
import Orchestrator.Foundation.Acyclic
import Orchestrator.Foundation.KahnWrapping
import Orchestrator.Model.Topology

/-!
# What validation answers

`validate` accepts exactly the dependency graphs without cycles. Where an id is used by
several steps, the in-degree of the id is that of its last step, while every step of
the id is lowered for its dependencies: the traversal may lower a degree of zero, and
the nodes that it counts are fewer than the steps.
-/

namespace Orchestrator

namespace WorkflowSpec

variable (workflow : WorkflowSpec)

/-- A step with the first id lists the second one among its dependencies. -/
def DependsOn (k dependency : StepId) : Prop :=
  ∃ step ∈ workflow.steps, step.id = k ∧ dependency ∈ step.dependsOn

/-- Some id depends on itself, directly or through others. -/
def Cyclic : Prop := ∃ k, Relation.TransGen workflow.DependsOn k k

/-- Every dependency names a step. -/
def Known : Prop :=
  ∀ step ∈ workflow.steps, ∀ dependency ∈ step.dependsOn, dependency ∈ workflow.stepIds

/-- There are steps, their ids are distinct, every dependency names one of them and no
step depends on itself, directly or through others. -/
structure IsDag : Prop where
  nonempty : workflow.steps ≠ []
  distinct : workflow.stepIds.Nodup
  known : workflow.Known
  acyclic : ¬ workflow.Cyclic

variable {workflow}

/-- The order of the ids where no id depends on itself. -/
theorem exists_order (known : workflow.Known) (acyclic : ¬ workflow.Cyclic) :
    ∃ order, order.Perm workflow.stepIds.dedup ∧
      ∀ (before : List StepId) (k : StepId) (rest : List StepId), order = before ++ k :: rest →
        ∀ step ∈ workflow.steps, step.id = k → ∀ dependency ∈ step.dependsOn,
          dependency ∈ before := by
  obtain ⟨order, perm, sorted⟩ := Acyclic.exists_order (not_exists.mp acyclic)
    workflow.stepIds.dedup (List.nodup_dedup _)
  refine ⟨order, perm, fun before k rest split step listed own dependency named => ?_⟩
  exact sorted before k rest split dependency
    (List.mem_dedup.mpr (known step listed dependency named)) ⟨step, listed, own, named⟩

/-- The steps of a dependency graph without cycles have an order. -/
theorem IsDag.ordered (dag : workflow.IsDag) : ∃ order, workflow.Ordered order := by
  obtain ⟨order, perm, after⟩ := exists_order dag.known dag.acyclic
  rw [dag.distinct.dedup] at perm
  exact ⟨order, perm, perm.nodup_iff.mpr dag.distinct, after⟩

/-- Steps in an order have no cycle. -/
theorem Ordered.isDag {order : List StepId} (ordered : workflow.Ordered order)
    (nonempty : workflow.steps ≠ []) : workflow.IsDag where
  nonempty := nonempty
  distinct := ordered.perm.nodup_iff.mp ordered.nodup
  known := ordered.known
  acyclic := by
    rintro ⟨k, cycle⟩
    refine Acyclic.of_order ordered.nodup ?_ ?_ k cycle
    · rintro a b ⟨step, listed, rfl, -⟩
      exact ordered.perm.mem_iff.mpr (List.mem_map_of_mem listed)
    · rintro before a after split b ⟨step, listed, own, named⟩
      exact ordered.after before a after split step listed own b named

theorem IsDag.validate (dag : workflow.IsDag) : workflow.validate = some (.ok ()) := by
  obtain ⟨order, ordered⟩ := dag.ordered
  exact ordered.validate dag.nonempty

theorem nonempty_of_validate (valid : workflow.validate = some (.ok ())) :
    workflow.steps ≠ [] := by
  intro none
  rw [validate, none] at valid
  cases valid

theorem isDag_of_validate (valid : workflow.validate = some (.ok ())) : workflow.IsDag := by
  obtain ⟨order, ordered⟩ := ordered_of_validate valid
  exact ordered.isDag (nonempty_of_validate valid)

/-! The in-degrees of the traversal. -/

variable (workflow)

/-- For no id do the steps that have it mention ids that the traversal can come to more
often than the last of them has dependencies. The traversal can come to an id when it
can come to ids that are mentioned at least that often. -/
def Balanced : Prop :=
  Kahn.Balanced (fun node k => workflow.mentions k node) workflow.lastDegree

/-- The traversal that `validate` makes. -/
def traversal : Except (Kahn.Stop StepId) Nat :=
  Kahn.traverse workflow.children workflow.steps.length workflow.initiallyReady
    workflow.indegree 0

theorem balanced_iff : workflow.Balanced ↔
    Kahn.Balanced (Kahn.counts workflow.children) (workflow.indegree[·]?) := by
  have counts : Kahn.counts workflow.children = fun node k => workflow.mentions k node :=
    funext fun node => funext fun k => workflow.dependents_count node k
  have degrees : (fun k : StepId => workflow.indegree[k]?) = workflow.lastDegree :=
    funext workflow.indegree_eq
  rw [Balanced, counts, degrees]

/-- There is fuel for all nodes. -/
theorem fits (nodes : List StepId) (nodup : nodes.Nodup)
    (present : ∀ k ∈ nodes, ∃ m : Nat, workflow.indegree[k]? = some m) :
    nodes.length ≤ ([] : List StepId).length + workflow.steps.length := by
  rw [List.length_nil, Nat.zero_add]
  exact length_le_of_known nodup present

/-- The traversal comes to its end or meets a degree of zero. -/
theorem traversal_cases : (∃ total, workflow.traversal = .ok total) ∨
    ∃ child, workflow.traversal = .error (.underflow child) :=
  (workflow.traversal_start.traverse_cases workflow.known_children workflow.fits).imp_right
    And.right

/-- The traversal comes to its end exactly in a balanced workflow. -/
theorem traversal_ok_iff : (∃ total, workflow.traversal = .ok total) ↔ workflow.Balanced := by
  rw [balanced_iff]
  constructor
  · rintro ⟨total, counted⟩
    obtain ⟨order, degree, holds, -⟩ :=
      Kahn.traverse_invariant workflow.traversal_start rfl counted
    exact holds.balanced
  · intro balanced
    exact workflow.traversal_start.traverse_ok workflow.known_children balanced workflow.fits

variable {workflow}

/-- What `validate` answers once the steps have passed the checks before the traversal. -/
theorem validate_of_known (nonempty : workflow.steps ≠ []) (known : workflow.Known) :
    (∃ child, workflow.traversal = .error (.underflow child) ∧ workflow.validate = none) ∨
      ∃ total, workflow.traversal = .ok total ∧ workflow.validate = some
        (if total ≠ workflow.steps.length then .error (.dependencyCycle workflow.id)
          else .ok ()) := by
  have steps : workflow.steps.isEmpty = false := by simpa using nonempty
  obtain ⟨total, counted⟩ | ⟨child, stopped⟩ := workflow.traversal_cases
  · refine .inr ⟨total, counted, ?_⟩
    rw [traversal] at counted
    simp only [validate, steps, unknownDependency_eq_none.mpr known, counted, Bool.false_eq_true,
      if_false]
    split <;> rfl
  · refine .inl ⟨child, stopped, ?_⟩
    rw [traversal] at stopped
    simp only [validate, steps, unknownDependency_eq_none.mpr known, stopped, Bool.false_eq_true,
      if_false]

theorem balanced_of_answer (nonempty : workflow.steps ≠ []) (known : workflow.Known)
    {answer : Except WorkflowError Unit} (answered : workflow.validate = some answer) :
    workflow.Balanced := by
  obtain ⟨child, -, absent⟩ | ⟨total, counted, -⟩ := validate_of_known nonempty known
  · rw [absent] at answered
    cases answered
  · exact workflow.traversal_ok_iff.mp ⟨total, counted⟩

/-- A workflow with steps and an unknown dependency is refused for it. -/
theorem validate_of_unknown (nonempty : workflow.steps ≠ []) (unknown : ¬ workflow.Known) :
    ∃ step dependency,
      workflow.validate = some (.error (.unknownDependency workflow.id step dependency)) := by
  have steps : workflow.steps.isEmpty = false := by simpa using nonempty
  cases found : workflow.unknownDependency with
  | none => exact absurd (unknownDependency_eq_none.mp found) unknown
  | some pair =>
      refine ⟨pair.1, pair.2, ?_⟩
      simp only [validate, steps, found, Bool.false_eq_true, if_false]

theorem validate_of_empty (empty : workflow.steps = []) :
    workflow.validate = some (.error (.empty workflow.id)) := by
  rw [validate, empty]
  rfl

/-- Validation comes to an answer exactly where the workflow is refused before the
traversal or is balanced; where it does not, a degree of zero is lowered. -/
theorem validation_answers_iff (workflow : WorkflowSpec) :
    ((∃ answer, workflow.validate = some answer) ↔
      workflow.steps = [] ∨ ¬ workflow.Known ∨ workflow.Balanced) ∧
    (workflow.validate = none ↔ workflow.steps ≠ [] ∧ workflow.Known ∧
      ∃ child, workflow.traversal = .error (.underflow child)) := by
  by_cases empty : workflow.steps = []
  · simp [validate_of_empty empty, empty]
  by_cases known : workflow.Known
  · obtain ⟨child, stopped, absent⟩ | ⟨total, counted, answered⟩ := validate_of_known empty known
    · have unbalanced : ¬ workflow.Balanced := by
        rw [← traversal_ok_iff, stopped]
        simp
      simp [absent, empty, known, unbalanced, stopped]
    · have balanced : workflow.Balanced := workflow.traversal_ok_iff.mp ⟨total, counted⟩
      simp [answered, balanced, counted]
  · obtain ⟨step, dependency, refused⟩ := validate_of_unknown empty known
    simp [refused, known]

end WorkflowSpec

namespace Sample

/-- A step of the task `work` after the given ones. -/
def link (id : String) (dependsOn : List StepId) : StepSpec :=
  { id := ⟨id⟩, task := ⟨"work"⟩, dependsOn, policy := ⟨⟨1, .none⟩, none, none, .any, default⟩ }

def flow (steps : List StepSpec) : WorkflowSpec := ⟨⟨"flow"⟩, "1", steps, []⟩

end Sample

namespace WorkflowSpec

/-- The second step of an id has no dependencies, but the first has one, which lowers
the degree of the id below zero. -/
theorem repeated_step_underflows :
    (Sample.flow [Sample.link "a" [], Sample.link "b" [⟨"a"⟩], Sample.link "b" []]).validate =
      none := by
  decide +kernel

/-! Reported cycles. -/

variable {workflow : WorkflowSpec}

/-- The mentions of distinct nodes are the dependencies among them. -/
theorem sum_mentions {nodes : List StepId} (distinct : nodes.Nodup) (k : StepId) :
    (nodes.map fun node => workflow.mentions k node).sum =
      ((workflow.named k).map fun step => step.dependsOn.countP (· ∈ nodes)).sum := by
  simp only [mentions]
  induction workflow.named k with
  | nil => simp
  | cons step rest ih =>
      simp only [List.map_cons, List.sum_cons, List.sum_map_add, ih,
        Kahn.sum_count_eq_countP distinct]

/-- Where an id is repeated, distinct ids are fewer than the steps. -/
theorem length_lt_of_repeated (repeated : ¬ workflow.stepIds.Nodup) {nodes : List StepId}
    (distinct : nodes.Nodup) (present : ∀ k ∈ nodes, ∃ m : Nat, workflow.indegree[k]? = some m) :
    nodes.length < workflow.steps.length := by
  apply Nat.lt_of_le_of_ne (length_le_of_known distinct present)
  intro same
  have inside : nodes ⊆ workflow.stepIds := by
    intro k member
    obtain ⟨m, initially⟩ := present k member
    exact (workflow.indegree_isSome k).mp (by rw [initially]; rfl)
  have perm := (List.subperm_of_subset distinct inside).perm_of_length_le
    (by rw [stepIds, List.length_map, same])
  exact repeated (perm.nodup_iff.mp distinct)

/-- Where an id is repeated, the traversal counts fewer nodes than there are steps. -/
theorem traversal_of_repeated (repeated : ¬ workflow.stepIds.Nodup) {total : Nat}
    (counted : workflow.traversal = .ok total) : total < workflow.steps.length := by
  obtain ⟨seen, degree, holds, rfl⟩ :=
    Kahn.traverse_invariant workflow.traversal_start rfl counted
  apply length_lt_of_repeated repeated (by simpa using holds.nodup)
  intro k member
  obtain ⟨m, initially, -⟩ := holds.balance k 0 (holds.zero k (List.mem_append_left _ member))
  exact ⟨m, initially⟩

variable (workflow) in
/-- Of the steps that share an id, only the last has dependencies. -/
def Trailing : Prop := ∀ k, ∀ step ∈ (workflow.named k).dropLast, step.dependsOn = []

/-- The last of the steps with an id is the one that gives it its degree. -/
theorem named_of_lastDegree {k : StepId} {m : Nat} (initially : workflow.lastDegree k = some m) :
    ∃ last, workflow.named k = (workflow.named k).dropLast ++ [last] ∧
      last ∈ workflow.steps ∧ last.id = k ∧ m = last.dependsOn.length := by
  rw [lastDegree, Option.map_eq_some_iff] at initially
  obtain ⟨last, final, rfl⟩ := initially
  have member : last ∈ workflow.named k := List.mem_of_getLast? final
  rw [named, List.mem_filter] at member
  exact ⟨last, (List.dropLast_append_getLast? last final).symm, member.1, by simpa using member.2,
    rfl⟩

theorem Trailing.balanced (trailing : workflow.Trailing) : workflow.Balanced := by
  intro nodes distinct _ k m initially
  obtain ⟨last, split, -, -, rfl⟩ := named_of_lastDegree initially
  have none : ((workflow.named k).dropLast.map fun step =>
      step.dependsOn.countP (· ∈ nodes)).sum = 0 := by
    apply List.sum_eq_zero
    intro count member
    obtain ⟨step, listed, rfl⟩ := List.mem_map.mp member
    rw [trailing k step listed]
    rfl
  rw [sum_mentions distinct, split, List.map_append, List.sum_append, none, List.map_singleton,
    List.sum_singleton, Nat.zero_add]
  exact List.countP_le_length

/-- Distinct ids repeat nothing. -/
theorem trailing_of_nodup (nodup : workflow.stepIds.Nodup) : workflow.Trailing := by
  intro k step listed
  have member := List.mem_of_mem_dropLast listed
  rw [named, List.mem_filter] at member
  obtain rfl : step.id = k := by simpa using member.2
  rw [named_of_mem nodup member.1] at listed
  cases listed

/-- Without cycles, the traversal can come to every id. -/
theorem released_of_acyclic (known : workflow.Known) (acyclic : ¬ workflow.Cyclic) :
    ∀ k ∈ workflow.stepIds,
      Kahn.Released (fun node k => workflow.mentions k node) workflow.lastDegree k := by
  obtain ⟨order, perm, after⟩ := exists_order known acyclic
  have distinct : order.Nodup := perm.nodup_iff.mpr (List.nodup_dedup _)
  have each : ∀ before rest, order = before ++ rest → ∀ k ∈ before,
      Kahn.Released (fun node k => workflow.mentions k node) workflow.lastDegree k := by
    intro before
    induction before using List.reverseRecOn with
    | nil => exact fun _ _ k member => absurd member List.not_mem_nil
    | append_singleton before last ih =>
        intro rest split k member
        rw [List.append_assoc, List.singleton_append] at split
        have earlier := ih (last :: rest) split
        obtain old | new := List.mem_append.mp member
        · exact earlier k old
        · obtain rfl := List.mem_singleton.mp new
          have inside : k ∈ workflow.stepIds := by
            rw [← List.mem_dedup, ← perm.mem_iff, split]
            exact List.mem_append_right _ List.mem_cons_self
          obtain ⟨m, initially⟩ := Option.isSome_iff_exists.mp
            ((workflow.indegree_isSome k).mpr inside)
          rw [indegree_eq] at initially
          obtain ⟨step, final, listed, own, rfl⟩ := named_of_lastDegree initially
          have fresh : before.Nodup := by
            rw [split] at distinct
            exact (List.nodup_append.mp distinct).1
          refine .intro before fresh earlier initially ?_
          -- all dependencies of the last step of the id come before it
          have all : step.dependsOn.countP (· ∈ before) = step.dependsOn.length := by
            refine List.countP_eq_length.mpr fun dependency named => ?_
            simpa using after before k rest split step listed own dependency named
          rw [sum_mentions fresh, final, List.map_append, List.sum_append, List.map_singleton,
            List.sum_singleton, all]
          exact Nat.le_add_left _ _
  intro k member
  apply each order [] (List.append_nil _).symm
  exact perm.mem_iff.mpr (List.mem_dedup.mpr member)

theorem trailing_of_balanced (known : workflow.Known) (acyclic : ¬ workflow.Cyclic)
    (balanced : workflow.Balanced) : workflow.Trailing := by
  intro k step listed
  have member := List.mem_of_mem_dropLast listed
  have inside : k ∈ workflow.stepIds :=
    (workflow.named_ne_nil k).mp (List.ne_nil_of_mem member)
  obtain ⟨m, initially⟩ := Option.isSome_iff_exists.mp
    ((workflow.indegree_isSome k).mpr inside)
  rw [indegree_eq] at initially
  have bound := balanced workflow.stepIds.dedup (List.nodup_dedup _)
    (fun node among => released_of_acyclic known acyclic node (List.mem_dedup.mp among)) k m
    initially
  -- every dependency of a step with the id counts
  have each : ∀ other ∈ workflow.named k,
      other.dependsOn.countP (· ∈ workflow.stepIds.dedup) = other.dependsOn.length := by
    intro other among
    rw [named, List.mem_filter] at among
    refine List.countP_eq_length.mpr fun dependency named => ?_
    simpa using known other among.1 dependency named
  obtain ⟨last, split, -, -, rfl⟩ := named_of_lastDegree initially
  rw [sum_mentions (List.nodup_dedup _), List.map_congr_left each, split, List.map_append,
    List.sum_append, List.map_singleton, List.sum_singleton] at bound
  have none : ((workflow.named k).dropLast.map fun step => step.dependsOn.length).sum = 0 := by
    omega
  have most := List.le_sum_of_mem
    (List.mem_map_of_mem (f := fun step : StepSpec => step.dependsOn.length) listed)
  exact List.eq_nil_of_length_eq_zero (by omega)

/-- The answer is a report of a cycle. -/
def reportsCycle (answer : Option (Except WorkflowError Unit)) : Prop :=
  ∃ workflow, answer = some (.error (.dependencyCycle workflow))

variable (workflow) in
/-- `validate` in a build whose machine words, up to `usizeMax`, wrap. -/
def validateWrapping (usizeMax : Nat) : Option (Except WorkflowError Unit) :=
  if workflow.steps.isEmpty then some (.error (.empty workflow.id))
  else
    match workflow.unknownDependency with
    | some (step, dependency) => some (.error (.unknownDependency workflow.id step dependency))
    | none =>
      match Kahn.traverseWrapping usizeMax workflow.children workflow.steps.length
          workflow.initiallyReady workflow.indegree 0 with
      | .error (.underflow _) => none
      | .error .exhausted => none
      | .error (.unknown id child) =>
        some (.error (.unknownDependency workflow.id child id))
      | .ok visited =>
        if visited ≠ workflow.steps.length then some (.error (.dependencyCycle workflow.id))
        else some (.ok ())

/-- Only steps with dependencies that all exist are reported. -/
theorem known_of_reportsCycle (reported : reportsCycle workflow.validate) :
    workflow.steps ≠ [] ∧ workflow.Known := by
  obtain ⟨flow, reported⟩ := reported
  have nonempty : workflow.steps ≠ [] := by
    intro empty
    rw [validate_of_empty empty] at reported
    cases reported
  refine ⟨nonempty, ?_⟩
  by_contra unknown
  obtain ⟨step, dependency, refused⟩ := validate_of_unknown nonempty unknown
  rw [refused] at reported
  cases reported

/-- With distinct ids, a report of a cycle is true. -/
theorem cyclic_of_reportsCycle (nodup : workflow.stepIds.Nodup)
    (reported : reportsCycle workflow.validate) : workflow.Cyclic := by
  by_contra acyclic
  obtain ⟨nonempty, known⟩ := known_of_reportsCycle reported
  obtain ⟨flow, reported⟩ := reported
  rw [IsDag.validate ⟨nonempty, nodup, known, acyclic⟩] at reported
  cases reported

/-- Words that can count all dependencies can count those of any distinct nodes. -/
theorem edges_le_total {nodes : List StepId} (distinct : nodes.Nodup) (k : StepId) :
    Kahn.edges workflow.children nodes k ≤
      (workflow.steps.map fun step => step.dependsOn.length).sum := by
  have counts : Kahn.edges workflow.children nodes k =
      (nodes.map fun node => workflow.mentions k node).sum := by
    simp only [Kahn.edges, children, dependents_count]
  rw [counts, sum_mentions distinct, named]
  induction workflow.steps with
  | nil => exact Nat.le_refl 0
  | cons step rest ih =>
      have most : step.dependsOn.countP (· ∈ nodes) ≤ step.dependsOn.length :=
        List.countP_le_length
      rw [List.filter_cons]
      split
      · simp only [List.map_cons, List.sum_cons]
        omega
      · simp only [List.map_cons, List.sum_cons]
        omega

section Wrapping

variable {usizeMax : Nat}

/-- Where no degree of zero is lowered, nothing wraps. -/
theorem validateWrapping_of_balanced (nonempty : workflow.steps ≠ []) (known : workflow.Known)
    (balanced : workflow.Balanced) : workflow.validateWrapping usizeMax = workflow.validate := by
  have steps : workflow.steps.isEmpty = false := by simpa using nonempty
  obtain ⟨total, counted⟩ := workflow.traversal_ok_iff.mpr balanced
  rw [traversal] at counted
  simp only [validate, validateWrapping, steps, unknownDependency_eq_none.mpr known, counted,
    Kahn.traverseWrapping_of_traverse counted, Bool.false_eq_true, if_false]

/-- A repeated id is reported as a cycle, also where degrees wrapped. -/
theorem validateWrapping_of_repeated (positive : 0 < usizeMax)
    (fit : (workflow.steps.map fun step => step.dependsOn.length).sum ≤ usizeMax)
    (known : workflow.Known) (repeated : ¬ workflow.stepIds.Nodup) :
    reportsCycle (workflow.validateWrapping usizeMax) := by
  have steps : workflow.steps.isEmpty = false := by
    cases listed : workflow.steps with
    | nil => simp [stepIds, listed] at repeated
    | cons step rest => rfl
  have start : Kahn.Wrapping usizeMax workflow.children workflow.indegree [] workflow.initiallyReady
      [] workflow.indegree :=
    Kahn.wrapping_start workflow.initiallyReady_nodup workflow.mem_initiallyReady
  obtain ⟨seen, distinct, present, counted⟩ := start.traverse positive rfl workflow.known_children
    (fun nodes distinct k => Nat.le_trans (edges_le_total distinct k) fit) workflow.fits
  have fewer := length_lt_of_repeated repeated distinct present
  rw [List.length_nil] at counted
  refine ⟨workflow.id, ?_⟩
  simp only [validateWrapping, steps, unknownDependency_eq_none.mpr known, counted,
    Bool.false_eq_true, if_false]
  rw [if_pos (Nat.ne_of_lt fewer)]

theorem validateWrapping_of_unknown (usizeMax : Nat) (nonempty : workflow.steps ≠ [])
    (unknown : ¬ workflow.Known) : ∃ step dependency,
    workflow.validateWrapping usizeMax =
      some (.error (.unknownDependency workflow.id step dependency)) := by
  have steps : workflow.steps.isEmpty = false := by simpa using nonempty
  cases found : workflow.unknownDependency with
  | none => exact absurd (unknownDependency_eq_none.mp found) unknown
  | some pair =>
      refine ⟨pair.1, pair.2, ?_⟩
      simp only [validateWrapping, steps, found, Bool.false_eq_true, if_false]

theorem validateWrapping_of_empty (usizeMax : Nat) (empty : workflow.steps = []) :
    workflow.validateWrapping usizeMax = some (.error (.empty workflow.id)) := by
  rw [validateWrapping, empty]
  rfl

theorem known_of_reportsCycleWrapping
    (reported : reportsCycle (workflow.validateWrapping usizeMax)) :
    workflow.steps ≠ [] ∧ workflow.Known := by
  obtain ⟨flow, reported⟩ := reported
  have nonempty : workflow.steps ≠ [] := by
    intro empty
    rw [validateWrapping_of_empty usizeMax empty] at reported
    cases reported
  refine ⟨nonempty, ?_⟩
  by_contra unknown
  obtain ⟨step, dependency, refused⟩ := validateWrapping_of_unknown usizeMax nonempty unknown
  rw [refused] at reported
  cases reported

/-- Machine words that wrap accept the same workflows. -/
theorem validateWrapping_ok_iff (positive : 0 < usizeMax)
    (fit : (workflow.steps.map fun step => step.dependsOn.length).sum ≤ usizeMax) :
    workflow.validateWrapping usizeMax = some (.ok ()) ↔ workflow.IsDag := by
  constructor
  · intro valid
    have nonempty : workflow.steps ≠ [] := by
      intro empty
      rw [validateWrapping_of_empty usizeMax empty] at valid
      cases valid
    have known : workflow.Known := by
      by_contra unknown
      obtain ⟨step, dependency, refused⟩ := validateWrapping_of_unknown usizeMax nonempty unknown
      rw [refused] at valid
      cases valid
    have nodup : workflow.stepIds.Nodup := by
      by_contra repeated
      obtain ⟨flow, reported⟩ := validateWrapping_of_repeated positive fit known repeated
      rw [reported] at valid
      cases valid
    rw [validateWrapping_of_balanced nonempty known (trailing_of_nodup nodup).balanced] at valid
    exact isDag_of_validate valid
  · intro dag
    have balanced := (trailing_of_nodup dag.distinct).balanced
    rw [validateWrapping_of_balanced dag.nonempty dag.known balanced]
    exact dag.validate

end Wrapping

/-- Adding a step keeps the ids distinct. -/
theorem nodup_of_addStep {step : StepSpec} {extended : WorkflowSpec}
    (nodup : workflow.stepIds.Nodup) (added : workflow.addStep step = .ok extended) :
    extended.stepIds.Nodup := by
  unfold addStep at added
  split at added
  · cases added
  next fresh =>
    obtain rfl := Except.ok.inj added
    have unused : step.id ∉ workflow.stepIds := by
      intro member
      obtain ⟨existing, listed, same⟩ := List.mem_map.mp member
      exact fresh (List.any_eq_true.mpr ⟨existing, listed, beq_iff_eq.mpr same⟩)
    rw [stepIds, List.map_append]
    exact List.nodup_append_comm.mp (List.nodup_cons.mpr ⟨unused, nodup⟩)

theorem nodup_of_added {steps : List StepSpec} {start : WorkflowSpec}
    (nodup : start.stepIds.Nodup) (added : steps.foldlM addStep start = .ok workflow) :
    workflow.stepIds.Nodup := by
  induction steps generalizing start with
  | nil =>
      obtain rfl := Except.ok.inj added
      exact nodup
  | cons step rest ih =>
      rw [List.foldlM_cons] at added
      cases first : start.addStep step with
      | error error =>
          rw [first] at added
          cases added
      | ok extended =>
          rw [first] at added
          exact ih (nodup_of_addStep nodup first) added

/-- Validation accepts exactly the workflows whose steps form a dependency graph
without cycles, which are those whose steps have an order; also where machine words wrap. That ids
are distinct is all that `add_step` asks for. -/
theorem validate_ok_iff (workflow : WorkflowSpec) :
    (workflow.validate = some (.ok ()) ↔ workflow.IsDag) ∧
    (workflow.IsDag ↔ workflow.steps ≠ [] ∧ ∃ order, workflow.Ordered order) ∧
    (∀ usizeMax : Nat, 0 < usizeMax →
      (workflow.steps.map fun step => step.dependsOn.length).sum ≤ usizeMax →
      (workflow.validateWrapping usizeMax = some (.ok ()) ↔ workflow.IsDag)) ∧
    ∀ (steps : List StepSpec) (start : WorkflowSpec), start.steps = [] →
      steps.foldlM addStep start = .ok workflow → workflow.stepIds.Nodup := by
  refine ⟨⟨isDag_of_validate, fun dag => dag.validate⟩,
    ⟨fun dag => ⟨dag.nonempty, dag.ordered⟩, ?_⟩,
    fun usizeMax positive fit => validateWrapping_ok_iff positive fit, ?_⟩
  · rintro ⟨nonempty, order, ordered⟩
    exact ordered.isDag nonempty
  · intro steps start empty added
    apply nodup_of_added _ added
    rw [stepIds, empty]
    exact List.nodup_nil

/-- A report of a cycle is true exactly where no id is repeated, a dependency is unknown,
there is a cycle, or some step has dependencies although a later one has its id, so that
validation does not come to an answer. Where machine words wrap instead, every repeated
id of a workflow without unknown dependencies is reported as a cycle. -/
theorem cycle_report_iff (workflow : WorkflowSpec) :
    ((reportsCycle workflow.validate → workflow.Cyclic) ↔
      workflow.stepIds.Nodup ∨ ¬ workflow.Known ∨ ¬ workflow.Trailing ∨ workflow.Cyclic) ∧
    ∀ usizeMax : Nat, 0 < usizeMax →
      (workflow.steps.map fun step => step.dependsOn.length).sum ≤ usizeMax →
      ((reportsCycle (workflow.validateWrapping usizeMax) → workflow.Cyclic) ↔
        workflow.stepIds.Nodup ∨ ¬ workflow.Known ∨ workflow.Cyclic) := by
  refine ⟨⟨fun truthful => ?_, fun holds reported => ?_⟩, fun usizeMax positive fit =>
    ⟨fun truthful => ?_, fun holds reported => ?_⟩⟩
  · by_contra fails
    obtain ⟨repeated, known, trailing, acyclic⟩ :
        ¬ workflow.stepIds.Nodup ∧ workflow.Known ∧ workflow.Trailing ∧ ¬ workflow.Cyclic := by
      simpa only [not_or, not_not] using fails
    obtain ⟨total, counted⟩ := workflow.traversal_ok_iff.mpr trailing.balanced
    have nonempty : workflow.steps ≠ [] := by
      intro empty
      simp [stepIds, empty] at repeated
    obtain ⟨child, stopped, -⟩ | ⟨total', counted', answered⟩ := validate_of_known nonempty known
    · rw [counted] at stopped
      cases stopped
    · have fewer := traversal_of_repeated repeated counted'
      rw [if_pos (Nat.ne_of_lt fewer)] at answered
      exact acyclic (truthful ⟨workflow.id, answered⟩)
  · obtain nodup | unknown | scattered | cyclic := holds
    · exact cyclic_of_reportsCycle nodup reported
    · exact absurd (known_of_reportsCycle reported).2 unknown
    · by_contra acyclic
      obtain ⟨nonempty, known⟩ := known_of_reportsCycle reported
      obtain ⟨flow, answered⟩ := reported
      exact scattered (trailing_of_balanced known acyclic
        (balanced_of_answer nonempty known answered))
    · exact cyclic
  · by_contra fails
    obtain ⟨repeated, known, acyclic⟩ :
        ¬ workflow.stepIds.Nodup ∧ workflow.Known ∧ ¬ workflow.Cyclic := by
      simpa only [not_or, not_not] using fails
    exact acyclic (truthful (validateWrapping_of_repeated positive fit known repeated))
  · obtain ⟨nonempty, known⟩ := known_of_reportsCycleWrapping reported
    obtain nodup | unknown | cyclic := holds
    · rw [validateWrapping_of_balanced nonempty known (trailing_of_nodup nodup).balanced]
        at reported
      exact cyclic_of_reportsCycle nodup reported
    · exact absurd known unknown
    · exact cyclic

/-- Two steps with one id and no dependencies. -/
def twice : WorkflowSpec := Sample.flow [Sample.link "a" [], Sample.link "a" []]

theorem twice_acyclic : ¬ twice.Cyclic := by
  rintro ⟨k, cycle⟩
  obtain ⟨next, ⟨step, listed, -, named⟩, -⟩ := Relation.TransGen.head'_iff.mp cycle
  have none : step.dependsOn = [] := by
    simp only [twice, Sample.flow, List.mem_cons, List.not_mem_nil, or_false, or_self] at listed
    rw [listed]
    rfl
  rw [none] at named
  exact List.not_mem_nil named

/-- A workflow whose only defect is a repeated id is reported as a cycle. -/
theorem repeated_step_reported : reportsCycle twice.validate ∧ ¬ twice.Cyclic :=
  ⟨⟨⟨"flow"⟩, by decide +kernel⟩, twice_acyclic⟩

/-- The two steps do not meet the condition for a true report, with words of 64 bits. -/
theorem cycle_report_twice : ¬ (reportsCycle (twice.validateWrapping (2 ^ 64 - 1)) → twice.Cyclic) ∧
    ¬ (twice.stepIds.Nodup ∨ ¬ twice.Known ∨ twice.Cyclic) := by
  have reported : reportsCycle (twice.validateWrapping (2 ^ 64 - 1)) :=
    ⟨⟨"flow"⟩, by decide +kernel⟩
  have untrue : ¬ (reportsCycle (twice.validateWrapping (2 ^ 64 - 1)) → twice.Cyclic) :=
    fun truthful => twice_acyclic (truthful reported)
  exact ⟨untrue, fun holds =>
    untrue (((cycle_report_iff twice).2 (2 ^ 64 - 1) (by decide) (by decide)).mpr holds)⟩

end WorkflowSpec

end Orchestrator
