import Mathlib.Algebra.Order.Ring.Nat
import Mathlib.Data.List.Induction
import Mathlib.Data.List.Nodup
import Orchestrator.Foundation.OrderedMap

/-!
# Queue-driven traversal of a dependency graph

The traversal keeps the in-degree of every node and a queue of nodes whose
in-degree is zero. It counts the nodes it takes from the queue and lowers the
in-degree of their children, queueing a child whose in-degree reaches zero.
Children are listed with repetitions and each listing lowers the degree once.

Lowering a degree of zero is a stop of its own: the traversal is used where
degrees are unsigned machine words. The sequence of nodes taken is not part of
the computation; the invariant below recovers it.
-/

namespace Kahn

section Edges

variable {α : Type} [DecidableEq α] (children : α → List α)

/-- How often the listed nodes name `k` as a child. -/
def edges (nodes : List α) (k : α) : Nat :=
  (nodes.map (fun node => (children node).count k)).sum

@[simp] theorem edges_nil (k : α) : edges children [] k = 0 := rfl

theorem edges_append (xs ys : List α) (k : α) :
    edges children (xs ++ ys) k = edges children xs k + edges children ys k := by
  simp only [edges, List.map_append, List.sum_append]

theorem edges_singleton (node k : α) : edges children [node] k = (children node).count k := by
  simp only [edges, List.map_cons, List.map_nil, List.sum_cons, List.sum_nil, Nat.add_zero]

theorem edges_cons (node : α) (nodes : List α) (k : α) :
    edges children (node :: nodes) k = (children node).count k + edges children nodes k := by
  rw [← List.singleton_append, edges_append, edges_singleton]

variable {children} in
/-- Distinct nodes that are among others have no more edges than these. -/
theorem edges_le_of_subset {nodes more : List α} (distinct : nodes.Nodup) (inside : nodes ⊆ more)
    (k : α) : edges children nodes k ≤ edges children more k := by
  induction nodes generalizing more with
  | nil => exact Nat.zero_le _
  | cons node nodes ih =>
      obtain ⟨fresh, distinct⟩ := List.nodup_cons.mp distinct
      obtain ⟨before, after, rfl⟩ := List.append_of_mem (inside List.mem_cons_self)
      have rest : nodes ⊆ before ++ after := by
        intro other member
        have named := inside (List.mem_cons_of_mem node member)
        rw [List.mem_append, List.mem_cons] at named
        rw [List.mem_append]
        obtain left | rfl | right := named
        · exact .inl left
        · exact absurd member fresh
        · exact .inr right
      have fewer := ih distinct rest
      rw [edges_append] at fewer
      rw [edges_append, edges_cons, edges_cons]
      omega

theorem countP_mem_cons {nodes : List α} {node : α} (fresh : node ∉ nodes) (listed : List α) :
    listed.countP (· ∈ node :: nodes) = listed.count node + listed.countP (· ∈ nodes) := by
  induction listed with
  | nil => rfl
  | cons first rest ih =>
      rw [List.countP_cons, List.countP_cons, List.count_cons, ih]
      by_cases same : first = node
      · simp only [same, List.mem_cons_self, decide_true, fresh, decide_false, BEq.rfl, if_true]
        simp
        omega
      · simp [same]
        omega

/-- The listings of distinct items, item by item. -/
theorem sum_count_eq_countP {nodes : List α} (nodup : nodes.Nodup) (listed : List α) :
    (nodes.map fun node => listed.count node).sum = listed.countP (· ∈ nodes) := by
  induction nodes with
  | nil => simp
  | cons node nodes ih =>
      obtain ⟨fresh, nodup⟩ := List.nodup_cons.mp nodup
      rw [countP_mem_cons fresh, ← ih nodup, List.map_cons, List.sum_cons]

/-- Where every node names `k` as often as `k` lists it, the edges from distinct
nodes to `k` are the listings of these nodes. -/
theorem edges_eq_countP {nodes listed : List α} {k : α} (nodup : nodes.Nodup)
    (named : ∀ node, (children node).count k = listed.count node) :
    edges children nodes k = listed.countP (· ∈ nodes) := by
  rw [← sum_count_eq_countP nodup, edges]
  simp only [named]

end Edges

variable {α : Type} [Ord α] [Std.TransOrd α]

/-- Why a traversal ends without a count. -/
inductive Stop (α : Type) where
  | underflow (child : α)
  | unknown (parent child : α)
  | exhausted
  deriving DecidableEq, Repr

/-- Lowers the degree of each listed child of one node. -/
def relax (parent : α) : List α → BTreeMap α Nat → List α →
    Except (Stop α) (BTreeMap α Nat × List α)
  | [], degree, ready => .ok (degree, ready)
  | child :: rest, degree, ready =>
    match degree[child]? with
    | none => .error (.unknown parent child)
    | some 0 => .error (.underflow child)
    | some (n + 1) =>
      relax parent rest (degree.insert child n) (if n = 0 then ready ++ [child] else ready)

/-- Takes nodes from the queue until it is empty, counting them. -/
def traverse (children : α → List α) : Nat → List α → BTreeMap α Nat → Nat →
    Except (Stop α) Nat
  | _, [], _, visited => .ok visited
  | 0, _ :: _, _, _ => .error .exhausted
  | fuel + 1, node :: ready, degree, visited =>
    match relax node (children node) degree ready with
    | .error stop => .error stop
    | .ok (degree, ready) => traverse children fuel ready degree (visited + 1)

/-- The nodes that a traversal can come to: those with at least as many edges from
nodes it can come to as their degree says. `count node k` are the edges from `node`
to `k`. -/
inductive Released {α : Type} (count : α → α → Nat) (initial : α → Option Nat) :
    α → Prop where
  | intro {k : α} {m : Nat} (nodes : List α) (distinct : nodes.Nodup)
      (earlier : ∀ node ∈ nodes, Released count initial node) (initially : initial k = some m)
      (enough : m ≤ (nodes.map fun node => count node k).sum) : Released count initial k

/-- No node has more edges from released nodes than its degree says. -/
def Balanced {α : Type} (count : α → α → Nat) (initial : α → Option Nat) : Prop :=
  ∀ nodes : List α, nodes.Nodup → (∀ node ∈ nodes, Released count initial node) →
    ∀ (k : α) (m : Nat), initial k = some m → (nodes.map fun node => count node k).sum ≤ m

/-- The edges that the lists of children give. -/
abbrev counts {α : Type} [DecidableEq α] (children : α → List α) (node k : α) : Nat :=
  (children node).count k

section Invariant

variable [DecidableEq α] (children : α → List α) (initial : BTreeMap α Nat)

/-- What holds of the nodes taken so far, the queue, and the children of the
current node still to be lowered. Degrees account for exactly the edges already
lowered; the nodes of degree zero are the taken and the queued ones; and every
node was taken only after all edges into it. -/
structure Invariant (seen ready pending : List α) (degree : BTreeMap α Nat) : Prop where
  nodup : (seen ++ ready).Nodup
  zero : ∀ k ∈ seen ++ ready, degree[k]? = some 0
  queued : ∀ k, degree[k]? = some 0 → k ∈ seen ++ ready
  present : ∀ (k : α) (m : Nat), initial[k]? = some m → ∃ n : Nat, degree[k]? = some n
  balance : ∀ (k : α) (n : Nat), degree[k]? = some n →
    ∃ m : Nat, initial[k]? = some m ∧ n + edges children seen k = m + pending.count k
  order : ∀ before k after, seen = before ++ k :: after →
    initial[k]? = some (edges children before k)

variable {children initial}
variable {seen ready pending : List α} {degree : BTreeMap α Nat}

variable [Std.LawfulEqOrd α]

/-- Lowering one listed child keeps the invariant and removes the listing. -/
theorem Invariant.lower {child : α} {n : Nat}
    (h : Invariant children initial seen ready (child :: pending) degree)
    (hc : degree[child]? = some (n + 1)) :
    Invariant children initial seen (if n = 0 then ready ++ [child] else ready) pending
      (degree.insert child n) := by
  have fresh : child ∉ seen ++ ready := by
    intro hmem
    have hz := h.zero child hmem
    rw [hc] at hz
    cases hz
  refine ⟨?_, ?_, ?_, ?_, ?_, h.order⟩
  · split
    · rw [← List.append_assoc]
      exact List.nodup_append.mpr ⟨h.nodup, List.nodup_singleton _, fun a ha b hb hab =>
        fresh (by rw [List.mem_singleton] at hb; exact hb ▸ hab ▸ ha)⟩
    · exact h.nodup
  · intro k hk
    rw [BTreeMap.getElem?_insert]
    split
    · next heq =>
      split at hk
      · next hn => rw [hn]
      · exact absurd (heq ▸ hk) fresh
    · next hne =>
      refine h.zero k ?_
      split at hk
      · rw [← List.append_assoc, List.mem_append, List.mem_singleton] at hk
        exact hk.resolve_right (fun he => hne he.symm)
      · exact hk
  · intro k hk
    rw [BTreeMap.getElem?_insert] at hk
    split at hk
    · next heq =>
      rw [if_pos (Option.some.inj hk), ← List.append_assoc, ← heq]
      exact List.mem_append_right _ (List.mem_singleton_self _)
    · have hmem := h.queued k hk
      split
      · rw [← List.append_assoc]
        exact List.mem_append_left _ hmem
      · exact hmem
  · intro k m hm
    rw [BTreeMap.getElem?_insert]
    split
    · exact ⟨n, rfl⟩
    · exact h.present k m hm
  · intro k d hk
    rw [BTreeMap.getElem?_insert] at hk
    split at hk
    · next heq =>
      subst heq
      obtain ⟨m, hm, hb⟩ := h.balance child (n + 1) hc
      rw [List.count_cons_self] at hb
      refine ⟨m, hm, ?_⟩
      have hd := Option.some.inj hk
      omega
    · next hne =>
      obtain ⟨m, hm, hb⟩ := h.balance k d hk
      rw [List.count_cons_of_ne hne] at hb
      exact ⟨m, hm, hb⟩

theorem relax_invariant {parent : α} {degree' : BTreeMap α Nat} {ready' : List α}
    (h : Invariant children initial seen ready pending degree)
    (hr : relax parent pending degree ready = .ok (degree', ready')) :
    Invariant children initial seen ready' [] degree' := by
  induction pending generalizing degree ready with
  | nil =>
      simp only [relax, Except.ok.injEq, Prod.mk.injEq] at hr
      obtain ⟨rfl, rfl⟩ := hr
      exact h
  | cons child rest ih =>
      rw [relax] at hr
      split at hr
      · cases hr
      · cases hr
      · next n hc => exact ih (h.lower hc) hr

omit [Std.LawfulEqOrd α] in
/-- Taking the head of the queue leaves all its children to be lowered. -/
theorem Invariant.take {node : α}
    (h : Invariant children initial seen (node :: ready) [] degree) :
    Invariant children initial (seen ++ [node]) ready (children node) degree := by
  have assoc : seen ++ [node] ++ ready = seen ++ node :: ready := by
    rw [List.append_assoc, List.singleton_append]
  refine ⟨assoc ▸ h.nodup, assoc ▸ h.zero, assoc ▸ h.queued, h.present, ?_, ?_⟩
  · intro k n hk
    obtain ⟨m, hm, hb⟩ := h.balance k n hk
    refine ⟨m, hm, ?_⟩
    rw [edges_append, edges_singleton]
    rw [List.count_nil] at hb
    omega
  · intro before k after heq
    rcases List.append_eq_append_iff.mp heq with ⟨cs, hb, hcs⟩ | ⟨cs, hs, hcs⟩
    · cases cs with
      | nil =>
          rw [List.append_nil] at hb
          simp only [List.nil_append, List.cons.injEq] at hcs
          obtain ⟨rfl, -⟩ := hcs
          obtain ⟨m, hm, hbal⟩ := h.balance node 0
            (h.zero node (List.mem_append_right _ List.mem_cons_self))
          rw [List.count_nil] at hbal
          rw [hm, hb]
          exact congrArg some (by omega)
      | cons c cs =>
          have hlen := congrArg List.length hcs
          simp only [List.length_append, List.length_cons, List.length_nil] at hlen
          omega
    · cases cs with
      | nil =>
          rw [List.append_nil] at hs
          simp only [List.nil_append, List.cons.injEq] at hcs
          obtain ⟨rfl, -⟩ := hcs
          obtain ⟨m, hm, hbal⟩ := h.balance k 0
            (h.zero k (List.mem_append_right _ List.mem_cons_self))
          rw [List.count_nil] at hbal
          rw [hm, ← hs]
          exact congrArg some (by omega)
      | cons c cs =>
          rw [List.cons_append, List.cons.injEq] at hcs
          exact h.order before k cs (by rw [hs, hcs.1])

/-- A completed traversal took distinct nodes, each after every edge into it. -/
theorem traverse_invariant {fuel visited total : Nat}
    (h : Invariant children initial seen ready [] degree) (hv : visited = seen.length)
    (ht : traverse children fuel ready degree visited = .ok total) :
    ∃ seen' degree', Invariant children initial seen' [] [] degree' ∧ total = seen'.length := by
  induction fuel generalizing seen ready degree visited with
  | zero =>
      cases ready with
      | nil =>
          rw [traverse, Except.ok.injEq] at ht
          exact ⟨seen, degree, h, ht ▸ hv⟩
      | cons node rest => cases ht
  | succ fuel ih =>
      cases ready with
      | nil =>
          rw [traverse, Except.ok.injEq] at ht
          exact ⟨seen, degree, h, ht ▸ hv⟩
      | cons node rest =>
          rw [traverse] at ht
          split at ht
          · cases ht
          · next degree' ready' hr =>
            exact ih (relax_invariant h.take hr) (by simp [hv]) ht

/-- Where every listed child has a degree, lowering goes through or meets a degree of
zero, of a child with more edges into it than its degree said. -/
theorem Invariant.relax_cases (h : Invariant children initial seen ready pending degree)
    (parent : α) (known : ∀ child ∈ pending, ∃ m : Nat, initial[child]? = some m) :
    (∃ degree' ready', relax parent pending degree ready = .ok (degree', ready')) ∨
      ∃ (child : α) (m : Nat), initial[child]? = some m ∧ m < edges children seen child ∧
        relax parent pending degree ready = .error (.underflow child) := by
  induction pending generalizing degree ready with
  | nil => exact .inl ⟨degree, ready, rfl⟩
  | cons child rest ih =>
      obtain ⟨m, hm⟩ := known child List.mem_cons_self
      obtain ⟨n, hn⟩ := h.present child m hm
      rw [relax, hn]
      cases n with
      | zero =>
          obtain ⟨m', initially, balance⟩ := h.balance child 0 hn
          rw [List.count_cons_self] at balance
          exact .inr ⟨child, m', initially, by omega, rfl⟩
      | succ n =>
          exact ih (h.lower hn) fun other member => known other (List.mem_cons_of_mem _ member)

omit [Std.LawfulEqOrd α] in
/-- The taken and the queued nodes are released. -/
theorem Invariant.released (h : Invariant children initial seen ready [] degree) :
    ∀ k ∈ seen ++ ready, Released (counts children) (initial[·]?) k := by
  have taken : ∀ before after, seen = before ++ after → ∀ k ∈ before,
      Released (counts children) (initial[·]?) k := by
    intro before
    induction before using List.reverseRecOn with
    | nil => exact fun _ _ k member => absurd member List.not_mem_nil
    | append_singleton before last ih =>
        intro after split k member
        rw [List.append_assoc, List.singleton_append] at split
        have earlier := ih (last :: after) split
        obtain old | new := List.mem_append.mp member
        · exact earlier k old
        · obtain rfl := List.mem_singleton.mp new
          have distinct := (List.nodup_append.mp h.nodup).1
          rw [split] at distinct
          exact .intro before (List.nodup_append.mp distinct).1 earlier
            (h.order before k after split) (Nat.le_refl _)
  intro k member
  obtain ⟨m, initially, balance⟩ := h.balance k 0 (h.zero k member)
  rw [List.count_nil] at balance
  refine .intro seen (List.nodup_append.mp h.nodup).1 (taken seen [] (List.append_nil _).symm)
    initially ?_
  change m ≤ edges children seen k
  omega

omit [Std.LawfulEqOrd α] in
/-- As much fuel as there are nodes left is not used up. -/
theorem Invariant.fits_nil {fuel : Nat} (h : Invariant children initial seen ready [] degree)
    (spent : fuel = 0)
    (fits : ∀ nodes : List α, nodes.Nodup → (∀ k ∈ nodes, ∃ m : Nat, initial[k]? = some m) →
      nodes.length ≤ seen.length + fuel) : ready = [] := by
  have length := fits _ h.nodup fun k member =>
    let ⟨m, initially, _⟩ := h.balance k 0 (h.zero k member)
    ⟨m, initially⟩
  rw [List.length_append, spent] at length
  exact List.eq_nil_of_length_eq_zero (by omega)

/-- A traversal with as much fuel as there are nodes left comes to its end or meets a
degree of zero, and this only where the graph is not balanced. -/
theorem Invariant.traverse_cases {fuel visited : Nat}
    (h : Invariant children initial seen ready [] degree)
    (known : ∀ node, ∀ child ∈ children node, ∃ m : Nat, initial[child]? = some m)
    (fits : ∀ nodes : List α, nodes.Nodup → (∀ k ∈ nodes, ∃ m : Nat, initial[k]? = some m) →
      nodes.length ≤ seen.length + fuel) :
    (∃ total, traverse children fuel ready degree visited = .ok total) ∨
      ¬ Balanced (counts children) (initial[·]?) ∧
        ∃ child, traverse children fuel ready degree visited = .error (.underflow child) := by
  induction fuel generalizing seen ready degree visited with
  | zero =>
      obtain rfl := h.fits_nil rfl fits
      exact .inl ⟨visited, rfl⟩
  | succ fuel ih =>
      cases ready with
      | nil => exact .inl ⟨visited, rfl⟩
      | cons node rest =>
          obtain ⟨degree', ready', relaxed⟩ | ⟨child, m, initially, more, stopped⟩ :=
            h.take.relax_cases node (known node)
          · rw [traverse, relaxed]
            refine ih (relax_invariant h.take relaxed) fun nodes nodup present => ?_
            rw [List.length_append, List.length_singleton, Nat.add_assoc, Nat.add_comm 1]
            exact fits nodes nodup present
          · refine .inr ⟨fun balanced => ?_, child, by rw [traverse, stopped]⟩
            have distinct := (List.nodup_append.mp h.take.nodup).1
            have released : ∀ k ∈ seen ++ [node],
                Released (counts children) (initial[·]?) k := by
              intro k member
              apply h.released k
              rw [← List.singleton_append, ← List.append_assoc]
              exact List.mem_append_left _ member
            exact absurd (balanced _ distinct released child m initially) (Nat.not_le.mpr more)

/-- A traversal of a balanced graph comes to its end, given as much fuel as there are
nodes left. -/
theorem Invariant.traverse_ok {fuel visited : Nat}
    (h : Invariant children initial seen ready [] degree)
    (known : ∀ node, ∀ child ∈ children node, ∃ m : Nat, initial[child]? = some m)
    (balanced : Balanced (counts children) (initial[·]?))
    (fits : ∀ nodes : List α, nodes.Nodup → (∀ k ∈ nodes, ∃ m : Nat, initial[k]? = some m) →
      nodes.length ≤ seen.length + fuel) :
    ∃ total, traverse children fuel ready degree visited = .ok total :=
  (h.traverse_cases known fits).resolve_right fun stopped => stopped.1 balanced

omit [Std.LawfulEqOrd α] in
/-- A traversal that comes to its end has taken all released nodes, and the graph is
balanced. -/
theorem Invariant.balanced (h : Invariant children initial seen [] [] degree) :
    Balanced (counts children) (initial[·]?) := by
  have bound : ∀ (k : α) (m : Nat), initial[k]? = some m → edges children seen k ≤ m := by
    intro k m initially
    obtain ⟨n, left⟩ := h.present k m initially
    obtain ⟨m', initially', balance⟩ := h.balance k n left
    obtain rfl := Option.some.inj (initially.symm.trans initially')
    rw [List.count_nil] at balance
    omega
  have all : ∀ k, Released (counts children) (initial[·]?) k → k ∈ seen := by
    intro k released
    induction released with
    | @intro k m nodes distinct _ initially enough ih =>
        obtain ⟨n, left⟩ := h.present k m initially
        obtain ⟨m', initially', balance⟩ := h.balance k n left
        obtain rfl := Option.some.inj (initially.symm.trans initially')
        have more : edges children nodes k ≤ edges children seen k :=
          edges_le_of_subset distinct ih k
        change m ≤ edges children nodes k at enough
        rw [List.count_nil] at balance
        obtain rfl : n = 0 := by omega
        simpa using h.queued k left
  intro nodes distinct released k m initially
  exact Nat.le_trans
    (edges_le_of_subset distinct (fun node member => all node (released node member)) k)
    (bound k m initially)

omit [Std.LawfulEqOrd α] in
/-- The start of a traversal: nothing taken, and the queue holds the nodes
without incoming edges. -/
theorem invariant_start (hn : ready.Nodup)
    (hz : ∀ k, k ∈ ready ↔ initial[k]? = some 0) :
    Invariant children initial [] ready [] initial := by
  refine ⟨hn, fun k hk => (hz k).mp hk, fun k hk => (hz k).mpr hk, fun k m hm => ⟨m, hm⟩, ?_, ?_⟩
  · intro k n hk
    exact ⟨n, hk, rfl⟩
  · intro before k after heq
    exact absurd (congrArg List.length heq) (by simp)

end Invariant

end Kahn
