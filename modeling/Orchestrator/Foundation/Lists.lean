import Mathlib.Data.List.Forall2
import Mathlib.Data.List.Induction
import Mathlib.Data.List.ModifyLast
import Mathlib.Data.List.Sort

/-!
# Chunks of a list, maps over one, its last separator, and sorting by a key
-/

namespace List

variable {α β : Type}

theorem flatten_toChunks_go (n : Nat) (rest : List α) (chunk : Array α)
    (chunks : Array (List α)) :
    (toChunks.go n rest chunk chunks).flatten =
      chunks.toList.flatten ++ chunk.toList ++ rest := by
  induction rest generalizing chunk chunks with
  | nil => simp [toChunks.go]
  | cons a rest ih =>
      rw [toChunks.go]
      split
      · rw [ih]
        simp
      · rw [ih]
        simp

/-- The chunks of a list are the list. -/
theorem flatten_toChunks (n : Nat) (l : List α) : (l.toChunks n).flatten = l := by
  cases l with
  | nil => simp [toChunks]
  | cons a l =>
      cases n with
      | zero => simp [toChunks]
      | succ n =>
          rw [toChunks, flatten_toChunks_go]
          · simp
          · exact fun h => nomatch h

/-- A partial map over a list gives the results of its items. -/
theorem mapM_eq_some_iff {f : α → Option β} {l : List α} {results : List β} :
    l.mapM f = some results ↔ Forall₂ (fun a b => f a = some b) l results := by
  induction l generalizing results with
  | nil => simp [eq_comm]
  | cons a l ih =>
      simp only [mapM_cons, bind, pure, Option.bind_eq_some_iff, Option.some.injEq,
        forall₂_cons_left_iff]
      constructor
      · rintro ⟨b, first, others, rest, rfl⟩
        exact ⟨b, others, first, ih.mp rest, rfl⟩
      · rintro ⟨b, others, first, rest, rfl⟩
        exact ⟨b, first, others, ih.mpr rest, rfl⟩

/-- Each item of the first list has a partner in the second. -/
theorem exists_of_forall₂ {R : α → β → Prop} {l : List α} {results : List β}
    (each : Forall₂ R l results) {a : α} (member : a ∈ l) : ∃ b ∈ results, R a b := by
  induction each with
  | nil => cases member
  | cons first _ ih =>
      obtain rfl | later := mem_cons.mp member
      · exact ⟨_, mem_cons_self, first⟩
      · obtain ⟨b, inside, related⟩ := ih later
        exact ⟨b, mem_cons_of_mem _ inside, related⟩

/-- A partial map that gives results is defined on every item. -/
theorem exists_of_mapM_eq_some {f : α → Option β} {l : List α} {results : List β}
    (mapped : l.mapM f = some results) {a : α} (member : a ∈ l) : ∃ b, f a = some b := by
  obtain ⟨b, -, first⟩ := exists_of_forall₂ (mapM_eq_some_iff.mp mapped) member
  exact ⟨b, first⟩

theorem exists_mapM_eq_some {f : α → Option β} {l : List α} (each : ∀ a ∈ l, ∃ b, f a = some b) :
    ∃ results, l.mapM f = some results := by
  induction l with
  | nil => exact ⟨[], rfl⟩
  | cons a l ih =>
      obtain ⟨b, first⟩ := each a mem_cons_self
      obtain ⟨results, rest⟩ := ih fun other member => each other (mem_cons_of_mem a member)
      exact ⟨b :: results, by rw [mapM_cons, first, rest]; rfl⟩

/-- A check over a list passes just if it passes for every item. -/
theorem forM_eq_ok_iff {ε : Type} {f : α → Except ε PUnit} {l : List α} :
    l.forM f = .ok ⟨⟩ ↔ ∀ a ∈ l, f a = .ok ⟨⟩ := by
  induction l with
  | nil => simp [pure, Except.pure]
  | cons a l ih =>
      change (f a >>= fun _ => l.forM f) = _ ↔ _
      rw [List.forall_mem_cons, ← ih]
      cases f a with
      | error error => simp [bind, Except.bind]
      | ok => simp [bind, Except.bind]

/-- A fold whose steps all pass passes. -/
theorem exists_foldlM_eq_ok {ε : Type} {f : β → α → Except ε β} {l : List α}
    (each : ∀ b, ∀ a ∈ l, ∃ b', f b a = .ok b') (b : β) : ∃ b', l.foldlM f b = .ok b' := by
  induction l generalizing b with
  | nil => exact ⟨b, rfl⟩
  | cons a l ih =>
      obtain ⟨next, first⟩ := each b a mem_cons_self
      obtain ⟨b', rest⟩ := ih (fun b other member => each b other (mem_cons_of_mem a member)) next
      refine ⟨b', ?_⟩
      rw [foldlM_cons, first]
      exact rest

/-- A fold over the parts of each item is one over all parts. -/
theorem foldlM_flatMap {γ : Type} {m : Type → Type} [Monad m] [LawfulMonad m] (l : List α)
    (parts : α → List β) (f : γ → β → m γ) (c : γ) :
    (l.flatMap parts).foldlM f c = l.foldlM (fun c a => (parts a).foldlM f c) c := by
  induction l generalizing c with
  | nil => rfl
  | cons a l ih =>
      rw [flatMap_cons, foldlM_append, foldlM_cons]
      exact congrArg _ (funext ih)

/-- A change of the last item and a change of all items that do not interfere. -/
theorem map_modifyLast {f g : α → α} (commutes : ∀ a, g (f a) = f (g a)) (l : List α) :
    (l.modifyLast f).map g = (l.map g).modifyLast f := by
  cases l using List.reverseRecOn with
  | nil => rfl
  | append_singleton l a =>
      rw [modifyLast_concat, map_append, map_append, map_singleton, map_singleton,
        modifyLast_concat, commutes]

/-- A list whose items equal themselves equals itself. -/
theorem beq_self [BEq α] {l : List α} (each : ∀ a ∈ l, (a == a) = true) : (l == l) = true := by
  induction l with
  | nil => rfl
  | cons a l ih =>
      obtain ⟨first, rest⟩ := forall_mem_cons.mp each
      rw [cons_beq_cons, first, ih rest]
      rfl

/-- Where what an item equals is equal to itself, so is a list that a list equals. -/
theorem right_beq_self [BEq α] (each : ∀ a b : α, (a == b) = true → (b == b) = true)
    {l l' : List α} (equal : (l == l') = true) : (l' == l') = true := by
  induction l generalizing l' with
  | nil =>
      cases l' with
      | nil => rfl
      | cons b l' => cases equal
  | cons a l ih =>
      cases l' with
      | nil => cases equal
      | cons b l' =>
          rw [cons_beq_cons, Bool.and_eq_true] at equal ⊢
          exact ⟨each a b equal.1, ih equal.2⟩

/-- Two lists of one length, each increasing, are related by a map that keeps the order. -/
theorem exists_map_eq_of_pairwise [DecidableEq α] {r : α → α → Prop} {r' : β → β → Prop}
    (asymm : ∀ a b, r a b → ¬ r b a) (any : α → β) {l : List α} {l' : List β}
    (sorted : l.Pairwise r) (sorted' : l'.Pairwise r') (length : l.length = l'.length) :
    ∃ f : α → β, l.map f = l' ∧ ∀ a ∈ l, ∀ b ∈ l, r a b → r' (f a) (f b) := by
  induction l generalizing l' with
  | nil =>
      obtain rfl := length_eq_zero_iff.mp length.symm
      exact ⟨any, rfl, by simp⟩
  | cons a l ih =>
      cases l' with
      | nil => cases length
      | cons b l' =>
          obtain ⟨least, rest⟩ := pairwise_cons.mp sorted
          obtain ⟨least', rest'⟩ := pairwise_cons.mp sorted'
          obtain ⟨f, mapped, order⟩ := ih rest rest' (Nat.succ.inj length)
          have other : ∀ c ∈ l, Function.update f a b c = f c := by
            intro c member
            refine Function.update_of_ne (fun same => ?_) b f
            have less := least c member
            rw [same] at less
            exact asymm _ _ less less
          refine ⟨Function.update f a b, ?_, fun c member d member' less => ?_⟩
          · rw [map_cons, Function.update_self, map_congr_left other, mapped]
          · obtain rfl | inside := mem_cons.mp member
            · obtain rfl | inside' := mem_cons.mp member'
              · exact absurd less (asymm _ _ less)
              · rw [Function.update_self, other d inside']
                refine least' _ ?_
                rw [← mapped]
                exact mem_map_of_mem inside'
            · obtain rfl | inside' := mem_cons.mp member'
              · exact absurd less (asymm _ _ (least c inside))
              · rw [other c inside, other d inside']
                exact order c inside d inside' less

/-- Two splits of a list at a separator are one, or the separator stands again between them. -/
theorem append_cons_cases {l l' r r' : List α} {a : α} (h : l ++ a :: r = l' ++ a :: r') :
    (l = l' ∧ r = r') ∨ (∃ between, l' = l ++ a :: between ∧ r = between ++ a :: r') ∨
      ∃ between, l = l' ++ a :: between ∧ r' = between ++ a :: r := by
  obtain ⟨between, left, right⟩ | ⟨between, left, right⟩ := append_eq_append_iff.mp h
  · cases between with
    | nil => exact .inl ⟨by rw [left, append_nil], (cons.inj right).2⟩
    | cons b between =>
        obtain ⟨rfl, rest⟩ := cons.inj right
        exact .inr (.inl ⟨between, left, rest⟩)
  · cases between with
    | nil => exact .inl ⟨by rw [left, append_nil], (cons.inj right).2.symm⟩
    | cons b between =>
        obtain ⟨rfl, rest⟩ := cons.inj right
        exact .inr (.inr ⟨between, left, rest⟩)

/-- A list is split in one way at the last place of a separator. -/
theorem eq_of_append_cons {l l' r r' : List α} {a : α} (h : l ++ a :: r = l' ++ a :: r')
    (absent : a ∉ r) (absent' : a ∉ r') : l = l' ∧ r = r' := by
  obtain same | ⟨between, -, right⟩ | ⟨between, -, right⟩ := append_cons_cases h
  · exact same
  · exact absurd (right ▸ mem_append_right _ mem_cons_self) absent
  · exact absurd (right ▸ mem_append_right _ mem_cons_self) absent'

section Key

variable {r : α → α → Prop} [DecidableRel r] {key : α → Int}

/-- Insertion keeps a list sorted by a key that the relation does not go against; the
relation may leave open which of two items with one key comes first. -/
theorem Pairwise.orderedInsert_key (before : ∀ a b, r a b → key a ≤ key b)
    (after : ∀ a b, ¬ r a b → key b ≤ key a) (a : α) {l : List α}
    (sorted : l.Pairwise fun a b => key a ≤ key b) :
    (l.orderedInsert r a).Pairwise fun a b => key a ≤ key b := by
  induction l with
  | nil => exact pairwise_singleton _ a
  | cons b l ih =>
      obtain ⟨least, rest⟩ := pairwise_cons.mp sorted
      rw [orderedInsert_cons]
      split
      next first =>
        refine pairwise_cons.mpr ⟨fun c member => ?_, sorted⟩
        obtain rfl | later := mem_cons.mp member
        · exact before a c first
        · exact (before a b first).trans (least c later)
      next last =>
        refine pairwise_cons.mpr ⟨fun c member => ?_, ih rest⟩
        obtain rfl | later := (mem_orderedInsert r).mp member
        · exact after c b last
        · exact least c later

theorem pairwise_insertionSort_key (before : ∀ a b, r a b → key a ≤ key b)
    (after : ∀ a b, ¬ r a b → key b ≤ key a) (l : List α) :
    (l.insertionSort r).Pairwise fun a b => key a ≤ key b := by
  induction l with
  | nil => exact .nil
  | cons a l ih =>
      rw [insertionSort_cons]
      exact ih.orderedInsert_key before after a

end Key

end List
