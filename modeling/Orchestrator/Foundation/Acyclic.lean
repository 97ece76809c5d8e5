import Mathlib.Data.Fintype.Card
import Mathlib.Data.List.Perm.Basic
import Mathlib.Data.Set.Finite.Basic
import Mathlib.Logic.Relation
import Mathlib.Order.WellFounded

/-!
# Orders of an acyclic relation

A relation has no cycle when nothing is related to itself by a chain of steps. On
finitely many items this is the same as an order of the items in which each comes
after those that it is related to.
-/

namespace Acyclic

variable {α : Type} {R : α → α → Prop}

/-- Among finitely many items, one is related to none of them. -/
theorem exists_sink (acyclic : ∀ a, ¬ Relation.TransGen R a a) {items : List α}
    (nonempty : items ≠ []) : ∃ a ∈ items, ∀ b ∈ items, ¬ R a b := by
  let S (x y : {a // a ∈ items}) : Prop := Relation.TransGen R y.1 x.1
  have irrefl : Std.Irrefl S := ⟨fun x => acyclic x.1⟩
  have trans : IsTrans _ S := ⟨fun _ _ _ first second => second.trans first⟩
  have finite : Finite {a // a ∈ items} := items.finite_toSet
  obtain ⟨first, member⟩ := List.exists_mem_of_ne_nil items nonempty
  obtain ⟨⟨a, inside⟩, -, last⟩ :=
    (Finite.wellFounded_of_trans_of_irrefl S).has_min Set.univ ⟨⟨first, member⟩, trivial⟩
  exact ⟨a, inside, fun b other step => last ⟨b, other⟩ trivial (.single step)⟩

/-- Finitely many items can be put in an order in which each comes after those that it
is related to. -/
theorem exists_order [DecidableEq α] (acyclic : ∀ a, ¬ Relation.TransGen R a a)
    (items : List α) (distinct : items.Nodup) :
    ∃ order, order.Perm items ∧ ∀ before a after, order = before ++ a :: after →
      ∀ b ∈ items, R a b → b ∈ before := by
  induction count : items.length generalizing items with
  | zero =>
      obtain rfl := List.eq_nil_of_length_eq_zero count
      exact ⟨[], .refl _, fun before a after split => by simp at split⟩
  | succ n ih =>
      have nonempty : items ≠ [] := by
        rintro rfl
        cases count
      obtain ⟨sink, member, last⟩ := exists_sink acyclic nonempty
      obtain ⟨order, perm, sorted⟩ := ih (items.erase sink) (distinct.erase sink)
        (by rw [List.length_erase_of_mem member, count, Nat.add_sub_cancel])
      refine ⟨sink :: order, (perm.cons sink).trans (List.perm_cons_erase member).symm, ?_⟩
      rintro (_ | ⟨first, before⟩) a after split b inside step
      · obtain ⟨rfl, rfl⟩ := List.cons.inj split
        exact absurd step (last b inside)
      · rw [List.cons_append, List.cons.injEq] at split
        obtain ⟨rfl, split⟩ := split
        by_cases same : b = sink
        · exact same ▸ List.mem_cons_self
        · exact List.mem_cons_of_mem _
            (sorted before a after split b ((List.mem_erase_of_ne same).mpr inside) step)

/-- Items in an order in which each comes after those that it is related to have no
cycle. -/
theorem of_order [DecidableEq α] {order : List α} (distinct : order.Nodup)
    (inside : ∀ a b, R a b → a ∈ order)
    (sorted : ∀ before a after, order = before ++ a :: after → ∀ b, R a b → b ∈ before) (a : α) :
    ¬ Relation.TransGen R a a := by
  have earlier : ∀ a b, R a b → order.idxOf b < order.idxOf a := by
    intro a b step
    obtain ⟨before, after, split⟩ := List.append_of_mem (inside a b step)
    have first := sorted before a after split b step
    have fresh : a ∉ before := by
      rw [split, List.nodup_append] at distinct
      exact fun old => distinct.2.2 a old a List.mem_cons_self rfl
    rw [split, List.idxOf_append_of_mem first, List.idxOf_append_of_notMem fresh,
      List.idxOf_cons_self, Nat.add_zero]
    exact List.idxOf_lt_length_of_mem first
  have chain : ∀ {a b}, Relation.TransGen R a b → order.idxOf b < order.idxOf a := by
    intro a b steps
    induction steps with
    | single step => exact earlier _ _ step
    | tail _ step ih => exact Nat.lt_trans (earlier _ _ step) ih
  exact fun cycle => Nat.lt_irrefl _ (chain cycle)

end Acyclic
