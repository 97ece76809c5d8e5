import Orchestrator.Foundation.Machine
import Orchestrator.Model.Task

/-!
# The process-local task registry

A registration puts its task into the map before it looks whether there was one with the
same id. So a refused registration replaces the registered task by its own.
-/

namespace Orchestrator

/-- A process-local registry rejected a task registration. -/
inductive RegistryError where
  | duplicateTask (task : TaskId)
  deriving DecidableEq, Repr

/-- The displayed text of a registry error. -/
def RegistryError.message : RegistryError → String
  | .duplicateTask task => s!"task {task} was already registered"

/-- A simple registry suitable for process-local execution and tests. -/
structure InMemoryTaskRegistry where
  tasks : BTreeMap TaskId Task

namespace InMemoryTaskRegistry

def register (registry : InMemoryTaskRegistry) (task : Task) :
    Except RegistryError Unit × InMemoryTaskRegistry :=
  let previous := registry.tasks[task.spec.id]?
  let registry := ⟨registry.tasks.insert task.spec.id task⟩
  if previous.isSome then (.error (.duplicateTask task.spec.id), registry) else (.ok (), registry)

def get (registry : InMemoryTaskRegistry) : TaskRegistry := fun id => registry.tasks[id]?

end InMemoryTaskRegistry

/-- A registry, starting empty, whose inputs are the registered tasks. -/
def registrations : Machine InMemoryTaskRegistry Task (Except RegistryError Unit) :=
  ⟨⟨∅⟩, InMemoryTaskRegistry.register⟩

namespace InMemoryTaskRegistry

/-- Lookups find the first task of an id, its registration alone was accepted, and a refused
one changed no lookup. -/
structure FirstStands (calls : List Task) : Prop where
  lookups : ∀ id, (registrations.after calls).get id = calls.find? fun task => task.spec.id == id
  answers : ∀ before task, before ++ [task] <+: calls →
    (registrations.answer (registrations.after before) task = .ok () ↔
      ∀ earlier ∈ before, earlier.spec.id ≠ task.spec.id)
  refused : ∀ before task error, before ++ [task] <+: calls →
    registrations.answer (registrations.after before) task = .error error →
      (registrations.after (before ++ [task])).get = (registrations.after before).get

theorem get_next (registry : InMemoryTaskRegistry) (task : Task) (id : TaskId) :
    (registrations.next registry task).get id =
      if task.spec.id = id then some task else registry.get id := by
  have inserted : registrations.next registry task =
      ⟨registry.tasks.insert task.spec.id task⟩ := by
    change (registry.register task).2 = _
    simp only [register]
    split <;> rfl
  rw [inserted]
  exact BTreeMap.getElem?_insert _ _ _ _

/-- Whether a registration is accepted depends on the lookup of its id. -/
theorem answer_eq_ok {registry : InMemoryTaskRegistry} {task : Task} :
    registrations.answer registry task = .ok () ↔ registry.get task.spec.id = none := by
  change (registry.register task).1 = .ok () ↔ registry.tasks[task.spec.id]? = none
  rw [register]
  cases registry.tasks[task.spec.id]? <;> simp

theorem get_after_eq_none {calls : List Task} {id : TaskId} :
    (registrations.after calls).get id = none ↔ ∀ task ∈ calls, task.spec.id ≠ id := by
  induction calls using Machine.history_induction with
  | nil =>
      refine iff_of_true ?_ fun task member => absurd member List.not_mem_nil
      exact Std.ExtTreeMap.getElem?_empty
  | concat calls last ih =>
      rw [Machine.after_concat, get_next, List.forall_mem_append, List.forall_mem_singleton, ← ih]
      by_cases own : last.spec.id = id
      · simp [own]
      · simp [own]

/-- Where tasks of one id are the same, a lookup finds each of them. -/
theorem get_after_of_mem {calls : List Task}
    (same : calls.Pairwise fun a b => a.spec.id = b.spec.id → a = b) {task : Task}
    (member : task ∈ calls) : (registrations.after calls).get task.spec.id = some task := by
  induction calls using Machine.history_induction with
  | nil => cases member
  | concat calls last ih =>
      rw [List.pairwise_append] at same
      obtain ⟨before, -, across⟩ := same
      rw [Machine.after_concat, get_next]
      obtain old | new := List.mem_append.mp member
      · by_cases own : last.spec.id = task.spec.id
        · rw [if_pos own, across task old last List.mem_cons_self own.symm]
        · rw [if_neg own]
          exact ih before old
      · rw [List.mem_singleton.mp new, if_pos rfl]

/-- A refused registration that changes no lookup brings the task that is registered. -/
theorem pairwise_of_refused {calls : List Task}
    (refused : ∀ before task error, before ++ [task] <+: calls →
      registrations.answer (registrations.after before) task = .error error →
        (registrations.after (before ++ [task])).get = (registrations.after before).get) :
    calls.Pairwise fun a b => a.spec.id = b.spec.id → a = b := by
  induction calls using Machine.history_induction with
  | nil => exact .nil
  | concat calls last ih =>
      have before := ih fun earlier task error within =>
        refused earlier task error (within.trans (List.prefix_append _ _))
      refine List.pairwise_append.mpr ⟨before, List.pairwise_singleton _ _, ?_⟩
      intro task member other new own
      obtain rfl := List.mem_singleton.mp new
      have registered := get_after_of_mem before member
      rw [own] at registered
      cases answered : registrations.answer (registrations.after calls) other with
      | ok =>
          rw [answer_eq_ok.mp answered] at registered
          cases registered
      | error error =>
          have kept := congrFun (refused calls other error (List.prefix_refl _) answered)
            other.spec.id
          rw [Machine.after_concat, get_next, if_pos rfl, registered] at kept
          exact (Option.some.inj kept).symm

/-- The first registrations stand exactly where all tasks of one id are the same. -/
theorem first_stands_iff (calls : List Task) :
    FirstStands calls ↔ calls.Pairwise fun a b => a.spec.id = b.spec.id → a = b := by
  refine ⟨fun stands => pairwise_of_refused stands.refused, fun same => ⟨fun id => ?_, ?_, ?_⟩⟩
  · cases first : calls.find? fun task => task.spec.id == id with
    | none =>
        rw [List.find?_eq_none] at first
        exact get_after_eq_none.mpr fun task member own =>
          first task member (beq_iff_eq.mpr own)
    | some task =>
        obtain rfl : task.spec.id = id := beq_iff_eq.mp (List.find?_some first :)
        exact get_after_of_mem same (List.mem_of_find?_eq_some first)
  · intro before task _
    rw [answer_eq_ok, get_after_eq_none]
  · intro before task error within answered
    obtain ⟨earlier, -, across⟩ := List.pairwise_append.mp (same.sublist within.sublist)
    funext id
    rw [Machine.after_concat, get_next]
    split
    next own =>
      subst own
      have taken : (registrations.after before).get task.spec.id ≠ none := by
        intro free
        rw [answer_eq_ok.mpr free] at answered
        cases answered
      rw [Ne, get_after_eq_none] at taken
      obtain ⟨other, member, own⟩ : ∃ other ∈ before, other.spec.id = task.spec.id := by
        simpa only [not_forall, not_not, exists_prop] using taken
      have registered := get_after_of_mem earlier member
      rw [own] at registered
      rw [registered, across other member task List.mem_cons_self own]
    · rfl

/-- Two tasks of one id. -/
def embedding (version : String) : Task :=
  ⟨⟨⟨"embed"⟩, version, "embed", ∅⟩, fun _ _ => .ok .null, fun _ _ => 0⟩

/-- The second registration of an id is refused, and its task is found from then on. -/
theorem refused_task_found :
    registrations.answer (registrations.after [embedding "1"]) (embedding "2") =
        .error (.duplicateTask ⟨"embed"⟩) ∧
      (registrations.after [embedding "1", embedding "2"]).get ⟨"embed"⟩ = some (embedding "2") ∧
      ¬ FirstStands [embedding "1", embedding "2"] := by
  have found : (registrations.after [embedding "1", embedding "2"]).get ⟨"embed"⟩ =
      some (embedding "2") := by
    rw [← List.singleton_append, Machine.after_concat, get_next]
    rfl
  refine ⟨?_, found, fun stands => ?_⟩
  · rfl
  · have first := stands.lookups ⟨"embed"⟩
    rw [found] at first
    have versions := congrArg (Option.map fun task : Task => task.spec.version) first
    exact absurd versions (by decide)

end InMemoryTaskRegistry

end Orchestrator
