import Mathlib.Tactic.Common

/-!
# Ordered maps

`BTreeMap κ α` is the standard library's extensional tree map under the key
type's own order. Lookups determine a map, and iteration is in key order. The
lemmas below restate lookups after an insertion with an equation of keys, and
give the meaning of tests over all values.
-/

/-- An ordered map. -/
abbrev BTreeMap (κ : Type) [Ord κ] (α : Type) : Type := Std.ExtTreeMap κ α

/-- An ordered set. -/
abbrev BTreeSet (κ : Type) [Ord κ] : Type := Std.ExtTreeSet κ

namespace BTreeMap

variable {κ α β : Type} [Ord κ] [Std.TransOrd κ] [Std.LawfulEqOrd κ]

/-- Some value of the map passes the test. -/
def anyValue (m : BTreeMap κ α) (p : α → Bool) : Bool :=
  m.toList.any (fun entry => p entry.2)

/-- Every value of the map passes the test. -/
def allValues (m : BTreeMap κ α) (p : α → Bool) : Bool :=
  m.toList.all (fun entry => p entry.2)

@[simp] theorem anyValue_iff {m : BTreeMap κ α} {p : α → Bool} :
    anyValue m p = true ↔ ∃ (k : κ) (v : α), m[k]? = some v ∧ p v = true := by
  simp only [anyValue, List.any_eq_true, Prod.exists,
    Std.ExtTreeMap.mem_toList_iff_getElem?_eq_some]

@[simp] theorem allValues_iff {m : BTreeMap κ α} {p : α → Bool} :
    allValues m p = true ↔ ∀ (k : κ) (v : α), m[k]? = some v → p v = true := by
  simp only [allValues, List.all_eq_true, Prod.forall,
    Std.ExtTreeMap.mem_toList_iff_getElem?_eq_some]

theorem getElem?_insert (m : BTreeMap κ α) (k a : κ) (v : α) [DecidableEq κ] :
    (m.insert k v)[a]? = if k = a then some v else m[a]? := by
  simp only [Std.ExtTreeMap.getElem?_insert, Std.compare_eq_iff_eq]

@[simp] theorem getElem?_insert_ne {m : BTreeMap κ α} {k a : κ} {v : α} (h : k ≠ a) :
    (m.insert k v)[a]? = m[a]? := by
  simp only [Std.ExtTreeMap.getElem?_insert, Std.compare_eq_iff_eq, h, if_false]

theorem getElem?_erase (m : BTreeMap κ α) (k a : κ) [DecidableEq κ] :
    (m.erase k)[a]? = if k = a then none else m[a]? := by
  simp only [Std.ExtTreeMap.getElem?_erase, Std.compare_eq_iff_eq]

theorem map_insert [DecidableEq κ] (m : BTreeMap κ α) (k : κ) (v : α) (f : κ → α → β) :
    (m.insert k v).map f = (m.map f).insert k (f k v) := by
  apply Std.ExtTreeMap.ext_getElem?
  intro a
  rw [Std.ExtTreeMap.getElem?_map, getElem?_insert, getElem?_insert, Std.ExtTreeMap.getElem?_map]
  split
  next same =>
    subst same
    rfl
  · rfl

/-- Of two values written under a key, the last one stays. -/
theorem insert_insert [DecidableEq κ] (m : BTreeMap κ α) (k : κ) (v w : α) :
    (m.insert k v).insert k w = m.insert k w := by
  apply Std.ExtTreeMap.ext_getElem?
  intro a
  rw [getElem?_insert, getElem?_insert, getElem?_insert]
  split <;> rfl

omit [Std.LawfulEqOrd κ] in
/-- Writing back a value under a present key keeps the number of entries. -/
theorem size_insert_of_getElem? {m : BTreeMap κ α} {k : κ} {v w : α} (h : m[k]? = some w) :
    (m.insert k v).size = m.size := by
  have hk : k ∈ m := by
    rw [Std.ExtTreeMap.mem_iff_isSome_getElem?, h]
    rfl
  rw [Std.ExtTreeMap.size_insert, if_pos (Std.ExtTreeMap.contains_iff_mem.mpr hk)]

omit [Std.LawfulEqOrd κ] in
theorem contains_iff {m : BTreeMap κ α} {k : κ} : m.contains k = true ↔ ∃ v, m[k]? = some v := by
  rw [Std.ExtTreeMap.contains_iff_mem, Std.ExtTreeMap.mem_iff_isSome_getElem?,
    Option.isSome_iff_exists]

/-- Keys with a value are the listed keys. -/
theorem mem_keys_iff {m : BTreeMap κ α} {k : κ} : k ∈ m.keys ↔ ∃ v, m[k]? = some v := by
  rw [Std.ExtTreeMap.mem_keys, Std.ExtTreeMap.mem_iff_isSome_getElem?, Option.isSome_iff_exists]

/-- Inserting values under distinct keys, one after the other. -/
theorem getElem?_foldl_insert [DecidableEq κ] {key : α → κ} {values : List α}
    (distinct : (values.map key).Nodup) {m : BTreeMap κ α} {k : κ} {v : α} :
    (values.foldl (fun m value => m.insert (key value) value) m)[k]? = some v ↔
      (v ∈ values ∧ key v = k) ∨ (k ∉ values.map key ∧ m[k]? = some v) := by
  induction values generalizing m with
  | nil => simp
  | cons value values ih =>
      rw [List.map_cons, List.nodup_cons] at distinct
      rw [List.foldl_cons, ih distinct.2, getElem?_insert, List.mem_cons, List.map_cons,
        List.mem_cons]
      by_cases same : key value = k
      · subst same
        simp only [distinct.1, not_false_eq_true, if_true, Option.some.injEq, true_and,
          not_true, false_and, or_false]
        constructor
        · rintro (⟨member, same⟩ | rfl)
          · exact ⟨.inr member, same⟩
          · exact ⟨.inl rfl, rfl⟩
        · rintro ⟨rfl | member, same⟩
          · exact .inr rfl
          · exact absurd (same ▸ List.mem_map_of_mem member) distinct.1
      · rw [if_neg same]
        constructor
        · rintro (⟨member, own⟩ | ⟨other, found⟩)
          · exact .inl ⟨.inr member, own⟩
          · exact .inr ⟨fun either => either.elim (fun new => same new.symm) other, found⟩
        · rintro (⟨rfl | member, own⟩ | ⟨other, found⟩)
          · exact absurd own same
          · exact .inl ⟨member, own⟩
          · exact .inr ⟨fun old => other (.inr old), found⟩

omit [Std.LawfulEqOrd κ] in
/-- The keys of the entries are distinct. -/
theorem keys_nodup (m : BTreeMap κ α) : (m.toList.map Prod.fst).Nodup := by
  rw [Std.ExtTreeMap.map_fst_toList_eq_keys]
  exact Std.ExtTreeMap.nodup_keys

/-- A map built from entries with distinct keys has just these entries. -/
theorem getElem?_ofList {entries : List (κ × α)} (distinct : (entries.map Prod.fst).Nodup) {k : κ}
    {v : α} : (Std.ExtTreeMap.ofList entries compare)[k]? = some v ↔ (k, v) ∈ entries := by
  have apart : entries.Pairwise fun a b => ¬ compare a.1 b.1 = .eq := by
    refine (List.pairwise_map.mp distinct).imp fun different same => ?_
    exact different (Std.LawfulEqOrd.eq_of_compare same)
  have stored : ∀ w : α, (k, w) ∈ entries →
      (Std.ExtTreeMap.ofList entries compare)[k]? = some w := fun w member =>
    Std.ExtTreeMap.getElem?_ofList_of_mem Std.ReflOrd.compare_self apart member
  constructor
  · intro found
    classical
    by_cases listed : k ∈ entries.map Prod.fst
    · obtain ⟨⟨_, w⟩, member, rfl⟩ := List.mem_map.mp listed
      rw [stored w member, Option.some.injEq] at found
      exact found ▸ member
    · rw [Std.ExtTreeMap.getElem?_ofList_of_contains_eq_false] at found
      · cases found
      · rw [← Bool.not_eq_true, List.contains_iff_mem]
        exact listed
  · exact stored v

/-- A map is the one built from its entries. -/
theorem ofList_toList (m : BTreeMap κ α) : Std.ExtTreeMap.ofList m.toList compare = m := by
  refine Std.ExtTreeMap.ext_getElem? fun k => Option.ext fun v => ?_
  rw [getElem?_ofList m.keys_nodup, Std.ExtTreeMap.mem_toList_iff_getElem?_eq_some]

end BTreeMap
