import Mathlib.Tactic.Common

/-!
# Unique indexes

A table holds rows under keys, and some rows have a field by which they can be
found as well. An index of the table gives the key of the row with each value of
the field. It is exact when it lists a key for a value just if the row under that
key has the value; then no two rows share a value.
-/

variable {κ ι α : Type}

/-- The index gives exactly the keys of the rows that have the field. -/
def Indexes (index : ι → Option κ) (rows : κ → Option α) (field : α → Option ι) : Prop :=
  ∀ i k, index i = some k ↔ ∃ row, rows k = some row ∧ field row = some i

namespace Indexes

variable {index index' : ι → Option κ} {rows rows' : κ → Option α} {field : α → Option ι}

/-- Rows with the same field are one row. -/
theorem unique (h : Indexes index rows field) {k k' : κ} {row row' : α} {i : ι}
    (found : rows k = some row) (found' : rows k' = some row') (has : field row = some i)
    (has' : field row' = some i) : k = k' := by
  have first := (h i k).mpr ⟨row, found, has⟩
  have second := (h i k').mpr ⟨row', found', has'⟩
  exact Option.some.inj (first.symm.trans second)

/-- An index depends on the fields of the rows only. -/
theorem congr (h : Indexes index rows field) (same : ∀ i, index' i = index i)
    (fields : ∀ k i, (∃ row, rows' k = some row ∧ field row = some i) ↔
      ∃ row, rows k = some row ∧ field row = some i) : Indexes index' rows' field := by
  intro i k
  rw [same, fields]
  exact h i k

variable [DecidableEq κ] [DecidableEq ι]

/-- Writing a row moves its key from the old value of the field to the new one,
which no other row may have. -/
theorem put (h : Indexes index rows field) (k : κ) (row : α)
    (free : ∀ i k', field row = some i → index i = some k' → k' = k)
    (written : ∀ k', rows' k' = if k = k' then some row else rows k')
    (moved : ∀ i, index' i = if field row = some i then some k
      else if rows k >>= field = some i then none else index i) :
    Indexes index' rows' field := by
  intro i k'
  rw [written, moved]
  by_cases new : field row = some i
  · rw [if_pos new]
    constructor
    · rintro ⟨⟩
      exact ⟨row, if_pos rfl, new⟩
    · rintro ⟨other, found, has⟩
      split at found
      next same => rw [same]
      next apart => rw [free i k' new ((h i k').mpr ⟨other, found, has⟩)]
  · rw [if_neg new]
    constructor
    · intro listed
      split at listed
      · cases listed
      next still =>
        obtain ⟨other, found, has⟩ := (h i k').mp listed
        have apart : k ≠ k' := by
          rintro rfl
          refine still ?_
          rw [found]
          exact has
        exact ⟨other, (if_neg apart).trans found, has⟩
    · rintro ⟨other, found, has⟩
      split at found
      · obtain rfl := Option.some.inj found
        exact absurd has new
      next apart =>
        rw [if_neg]
        · exact (h i k').mpr ⟨other, found, has⟩
        · intro old
          obtain ⟨previous, stored, same⟩ := Option.bind_eq_some_iff.mp old
          exact apart (h.unique stored found same has)

end Indexes
