import Orchestrator.Foundation.Kahn

/-!
# Traversal with degrees that wrap

Degrees are machine words up to `top`, and lowering a degree of zero gives `top`. As
long as no node is lowered more often than a word can count, a degree comes to zero at
most once, so that no node is queued twice.
-/

namespace Kahn

variable {α : Type} [Ord α] [Std.TransOrd α]

/-- Lowers the degree of each listed child of one node, from zero to `top`. -/
def relaxWrapping (top : Nat) (parent : α) : List α → BTreeMap α Nat → List α →
    Except (Stop α) (BTreeMap α Nat × List α)
  | [], degree, ready => .ok (degree, ready)
  | child :: rest, degree, ready =>
    match degree[child]? with
    | none => .error (.unknown parent child)
    | some n =>
      let lowered := if n = 0 then top else n - 1
      relaxWrapping top parent rest (degree.insert child lowered)
        (if lowered = 0 then ready ++ [child] else ready)

/-- Takes nodes from the queue until it is empty, counting them. -/
def traverseWrapping (top : Nat) (children : α → List α) :
    Nat → List α → BTreeMap α Nat → Nat → Except (Stop α) Nat
  | _, [], _, visited => .ok visited
  | 0, _ :: _, _, _ => .error .exhausted
  | fuel + 1, node :: ready, degree, visited =>
    match relaxWrapping top node (children node) degree ready with
    | .error stop => .error stop
    | .ok (degree, ready) => traverseWrapping top children fuel ready degree (visited + 1)

section Agreement

variable {top : Nat} {children : α → List α} {ready ready' : List α}
  {degree degree' : BTreeMap α Nat}

/-- Where no degree of zero is lowered, nothing wraps. -/
theorem relaxWrapping_of_relax {parent : α} {pending : List α}
    (h : relax parent pending degree ready = .ok (degree', ready')) :
    relaxWrapping top parent pending degree ready = .ok (degree', ready') := by
  induction pending generalizing degree ready with
  | nil => exact h
  | cons child rest ih =>
      rw [relax] at h
      split at h
      · cases h
      · cases h
      next n found =>
        rw [relaxWrapping, found]
        simpa using ih h

theorem traverseWrapping_of_traverse {fuel visited total : Nat}
    (h : traverse children fuel ready degree visited = .ok total) :
    traverseWrapping top children fuel ready degree visited = .ok total := by
  induction fuel generalizing ready degree visited with
  | zero =>
      cases ready with
      | nil => exact h
      | cons node rest => cases h
  | succ fuel ih =>
      cases ready with
      | nil => exact h
      | cons node rest =>
          rw [traverse] at h
          split at h
          · cases h
          next degree' ready' relaxed =>
            rw [traverseWrapping, relaxWrapping_of_relax relaxed]
            exact ih h

end Agreement

variable [DecidableEq α] (top : Nat) (children : α → List α) (initial : BTreeMap α Nat)

/-- What holds of the nodes taken so far, the queue, and the children of the current
node still to be lowered. A node was lowered once for each edge from a taken node that
is not pending; its degree is what is left or has wrapped, and it is queued when as
many edges were lowered as its degree said. -/
structure Wrapping (seen ready pending : List α) (degree : BTreeMap α Nat) : Prop where
  nodup : (seen ++ ready).Nodup
  listed : ∀ k ∈ seen ++ ready, ∃ m : Nat, initial[k]? = some m
  lowered : ∀ (k : α) (m : Nat), initial[k]? = some m → ∃ e : Nat,
    e + pending.count k = edges children seen k ∧
      degree[k]? = some (if e ≤ m then m - e else top + 1 + m - e) ∧
      (k ∈ seen ++ ready ↔ m ≤ e)

variable {top children initial}
variable {seen ready pending : List α} {degree : BTreeMap α Nat}

variable [Std.LawfulEqOrd α]

/-- Lowering one listed child. -/
theorem Wrapping.lower {child : α} {n : Nat} (positive : 0 < top)
    (h : Wrapping top children initial seen ready (child :: pending) degree)
    (bounded : edges children seen child ≤ top)
    (known : ∃ m : Nat, initial[child]? = some m) (found : degree[child]? = some n) :
    Wrapping top children initial seen
      (if (if n = 0 then top else n - 1) = 0 then ready ++ [child] else ready) pending
      (degree.insert child (if n = 0 then top else n - 1)) := by
  obtain ⟨m, initially⟩ := known
  obtain ⟨e, counted, left, queued⟩ := h.lowered child m initially
  obtain rfl := Option.some.inj (found.symm.trans left)
  rw [List.count_cons_self] at counted
  have queues : (if (if e ≤ m then m - e else top + 1 + m - e) = 0 then top
      else (if e ≤ m then m - e else top + 1 + m - e) - 1) = 0 ↔ e + 1 = m := by
    split <;> split <;> omega
  have next : (if (if e ≤ m then m - e else top + 1 + m - e) = 0 then top
      else (if e ≤ m then m - e else top + 1 + m - e) - 1) =
      if e + 1 ≤ m then m - (e + 1) else top + 1 + m - (e + 1) := by
    split <;> split <;> split <;> omega
  rw [next] at queues ⊢
  by_cases last : e + 1 = m
  · have fresh : child ∉ seen ++ ready := fun member => by
      have := queued.mp member
      omega
    rw [if_pos (queues.mpr last)]
    refine ⟨?_, ?_, ?_⟩
    · rw [← List.append_assoc]
      refine List.nodup_append.mpr ⟨h.nodup, List.nodup_singleton _, fun a old b new same => ?_⟩
      rw [List.mem_singleton.mp new] at same
      exact fresh (same ▸ old)
    · intro k member
      rw [← List.append_assoc, List.mem_append, List.mem_singleton] at member
      obtain old | rfl := member
      · exact h.listed k old
      · exact ⟨m, initially⟩
    · intro k m' initially'
      rw [BTreeMap.getElem?_insert, ← List.append_assoc, List.mem_append (s := seen ++ ready),
        List.mem_singleton]
      by_cases same : child = k
      · subst same
        obtain rfl := Option.some.inj (initially.symm.trans initially')
        exact ⟨e + 1, by omega, if_pos rfl, ⟨fun _ => Nat.le_of_eq last.symm, fun _ => .inr rfl⟩⟩
      · obtain ⟨e', counted', left', queued'⟩ := h.lowered k m' initially'
        rw [List.count_cons_of_ne same] at counted'
        refine ⟨e', counted', (if_neg same).trans left', ?_⟩
        rw [← queued']
        exact ⟨fun either => either.resolve_right fun new => same new.symm, .inl⟩
  · rw [if_neg (fun zero => last (queues.mp zero))]
    refine ⟨h.nodup, h.listed, ?_⟩
    intro k m' initially'
    rw [BTreeMap.getElem?_insert]
    by_cases same : child = k
    · subst same
      obtain rfl := Option.some.inj (initially.symm.trans initially')
      refine ⟨e + 1, by omega, if_pos rfl, ?_⟩
      rw [queued]
      omega
    · obtain ⟨e', counted', left', queued'⟩ := h.lowered k m' initially'
      rw [List.count_cons_of_ne same] at counted'
      exact ⟨e', counted', (if_neg same).trans left', queued'⟩

theorem Wrapping.relax {parent : α} (positive : 0 < top)
    (h : Wrapping top children initial seen ready pending degree)
    (bounded : ∀ k, edges children seen k ≤ top)
    (known : ∀ child ∈ pending, ∃ m : Nat, initial[child]? = some m) :
    ∃ degree' ready', relaxWrapping top parent pending degree ready = .ok (degree', ready') ∧
      Wrapping top children initial seen ready' [] degree' := by
  induction pending generalizing degree ready with
  | nil => exact ⟨degree, ready, rfl, h⟩
  | cons child rest ih =>
      obtain ⟨m, initially⟩ := known child List.mem_cons_self
      obtain ⟨e, -, found, -⟩ := h.lowered child m initially
      rw [relaxWrapping, found]
      exact ih (h.lower positive (bounded child) ⟨m, initially⟩ found)
        fun other member => known other (List.mem_cons_of_mem _ member)

omit [Std.LawfulEqOrd α] in
/-- Taking the head of the queue leaves all its children to be lowered. -/
theorem Wrapping.take {node : α}
    (h : Wrapping top children initial seen (node :: ready) [] degree) :
    Wrapping top children initial (seen ++ [node]) ready (children node) degree := by
  have assoc : seen ++ [node] ++ ready = seen ++ node :: ready := by
    rw [List.append_assoc, List.singleton_append]
  refine ⟨assoc ▸ h.nodup, assoc ▸ h.listed, fun k m initially => ?_⟩
  obtain ⟨e, counted, left, queued⟩ := h.lowered k m initially
  refine ⟨e, ?_, left, assoc ▸ queued⟩
  rw [edges_append, edges_singleton, ← counted, List.count_nil, Nat.add_zero]

/-- The traversal comes to its end after distinct nodes, given as much fuel as there
are nodes left and words that can count the edges. -/
theorem Wrapping.traverse {fuel visited : Nat} (positive : 0 < top)
    (h : Wrapping top children initial seen ready [] degree) (counted : visited = seen.length)
    (known : ∀ node, ∀ child ∈ children node, ∃ m : Nat, initial[child]? = some m)
    (bounded : ∀ nodes : List α, nodes.Nodup → ∀ k, edges children nodes k ≤ top)
    (fits : ∀ nodes : List α, nodes.Nodup → (∀ k ∈ nodes, ∃ m : Nat, initial[k]? = some m) →
      nodes.length ≤ seen.length + fuel) :
    ∃ seen' : List α, seen'.Nodup ∧ (∀ k ∈ seen', ∃ m : Nat, initial[k]? = some m) ∧
      traverseWrapping top children fuel ready degree visited = .ok seen'.length := by
  induction fuel generalizing seen ready degree visited with
  | zero =>
      have length := fits _ h.nodup h.listed
      rw [List.length_append] at length
      obtain rfl := List.eq_nil_of_length_eq_zero (show ready.length = 0 by omega)
      refine ⟨seen, by simpa using h.nodup, by simpa using h.listed, ?_⟩
      rw [traverseWrapping, counted]
  | succ fuel ih =>
      cases ready with
      | nil =>
          refine ⟨seen, by simpa using h.nodup, by simpa using h.listed, ?_⟩
          rw [traverseWrapping, counted]
      | cons node rest =>
          have distinct := (List.nodup_append.mp h.take.nodup).1
          obtain ⟨degree', ready', relaxed, holds⟩ :=
            h.take.relax positive (bounded _ distinct) (known node)
          rw [traverseWrapping, relaxed]
          refine ih holds (by simp [counted]) fun nodes nodup present => ?_
          rw [List.length_append, List.length_singleton, Nat.add_assoc, Nat.add_comm 1]
          exact fits nodes nodup present

omit [Std.LawfulEqOrd α] in
/-- The start of a traversal. -/
theorem wrapping_start (nodup : ready.Nodup) (zero : ∀ k, k ∈ ready ↔ initial[k]? = some 0) :
    Wrapping top children initial [] ready [] initial := by
  refine ⟨nodup, fun k member => ⟨0, (zero k).mp member⟩, fun k m initially =>
    ⟨0, rfl, initially, ?_⟩⟩
  rw [List.nil_append, zero, initially, Option.some.injEq, Nat.le_zero]

end Kahn
