import Mathlib.Logic.Relation
import Orchestrator.Foundation.Transaction

/-!
# Rows under locks

`Reaches` tells what the statements of a transaction have found so far, on the table as it
now stands. Rows that it locked are as it read them; that a row was missing is known of a
moment since its start. `Consistent` is what the locks are for: no two sessions hold one
row, and no two rows clash that are committed or written. Statements and commits keep it,
provided that an update leaves the index entry of its row as it was.
-/

variable {κ ρ ι γ α : Type}

section Apart

variable [DecidableEq κ] [DecidableEq ι]

namespace Protocol

variable {protocol : Protocol κ ρ ι γ α} {a b : κ × ρ}

theorem clash_iff : protocol.clash a b = true ↔
    a.1 = b.1 ∨ ∃ entry, protocol.index a.2 = some entry ∧ protocol.index b.2 = some entry := by
  simp [clash, Option.any_eq_true]

theorem clash_comm : protocol.clash a b = protocol.clash b a := by
  rw [Bool.eq_iff_iff, clash_iff, clash_iff]
  exact or_congr eq_comm (exists_congr fun _ => and_comm)

/-- Rows under other keys clash just as other rows with these index entries do. -/
theorem clash_congr {k k' : κ} {row row' : ρ} {other : κ × ρ} (apart : k ≠ other.1)
    (same : protocol.index row = protocol.index row')
    (free : protocol.clash (k', row') other = false) : protocol.clash (k, row) other = false := by
  rw [← Bool.not_eq_true, clash_iff, not_or] at free ⊢
  exact ⟨apart, same ▸ free.2⟩

end Protocol

namespace Session

variable {protocol : Protocol κ ρ ι γ α} {held held' : List κ} {writes writes' : List (κ × ρ)}

/-- What two sessions lock and write does not meet. -/
structure Apart (protocol : Protocol κ ρ ι γ α) (held : List κ) (writes : List (κ × ρ))
    (held' : List κ) (writes' : List (κ × ρ)) : Prop where
  locked : ∀ k ∈ held, k ∉ held'
  unclashing : ∀ entry ∈ writes, ∀ other ∈ writes', protocol.clash entry other = false

theorem Apart.symm (apart : Apart protocol held writes held' writes') :
    Apart protocol held' writes' held writes :=
  ⟨fun k member own => apart.locked k own member,
    fun entry member other own =>
      Protocol.clash_comm.trans (apart.unclashing other own entry member)⟩

theorem Apart.lock (apart : Apart protocol held writes held' writes') {ks : List κ}
    (free : ∀ k ∈ ks, k ∉ held') : Apart protocol (ks ++ held) writes held' writes' :=
  ⟨List.forall_mem_append.mpr ⟨free, apart.locked⟩, apart.unclashing⟩

theorem Apart.write (apart : Apart protocol held writes held' writes') {entry : κ × ρ}
    (free : ∀ other ∈ writes', protocol.clash entry other = false) :
    Apart protocol held (writes ++ [entry]) held' writes' :=
  ⟨apart.locked, List.forall_mem_append.mpr ⟨apart.unclashing, List.forall_mem_singleton.mpr free⟩⟩

end Session

namespace Database

variable [Ord κ] {protocol : Protocol κ ρ ι γ α} {m : Database κ ρ γ α} {i : Nat}

/-- No other session has locked the row. -/
def Free (m : Database κ ρ γ α) (i : Nat) (k : κ) : Prop :=
  ∀ j other, m.sessions[j]? = some other → j ≠ i → k ∉ other.held

theorem lockedElsewhere_iff {k : κ} : m.lockedElsewhere i k = false ↔ m.Free i k := by
  rw [← Bool.not_eq_true, lockedElsewhere, List.any_eq_true]
  constructor
  · intro none j other stored apart locked
    refine none ⟨(j, other), Std.ExtTreeMap.mem_toList_iff_getElem?_eq_some.mpr stored, ?_⟩
    simp [apart, locked]
  · rintro free ⟨⟨j, other⟩, member, locked⟩
    simp only [Bool.and_eq_true, bne_iff_ne, List.contains_iff_mem] at locked
    exact free j other (Std.ExtTreeMap.mem_toList_iff_getElem?_eq_some.mp member) locked.1 locked.2

theorem clashesElsewhere_iff {entry : κ × ρ} : m.clashesElsewhere protocol i entry = false ↔
    ∀ j other, m.sessions[j]? = some other → j ≠ i → ∀ written ∈ other.writes,
      protocol.clash entry written = false := by
  rw [← Bool.not_eq_true, clashesElsewhere, List.any_eq_true]
  constructor
  · intro none j other stored apart written member
    rw [← Bool.not_eq_true]
    intro clashes
    refine none ⟨(j, other), Std.ExtTreeMap.mem_toList_iff_getElem?_eq_some.mpr stored, ?_⟩
    simp only [Bool.and_eq_true, bne_iff_ne, List.any_eq_true]
    exact ⟨apart, written, member, clashes⟩
  · rintro free ⟨⟨j, other⟩, member, clashing⟩
    simp only [Bool.and_eq_true, bne_iff_ne, List.any_eq_true] at clashing
    obtain ⟨apart, written, own, clashes⟩ := clashing
    have stored := Std.ExtTreeMap.mem_toList_iff_getElem?_eq_some.mp member
    rw [free j other stored apart written own] at clashes
    cases clashes

end Database

end Apart

variable [Ord κ] [Std.TransOrd κ]

namespace BTreeMap

@[simp] theorem overlay_nil (table : BTreeMap κ ρ) : table.overlay [] = table := rfl

@[simp] theorem overlay_concat (table : BTreeMap κ ρ) (writes : List (κ × ρ)) (entry : κ × ρ) :
    table.overlay (writes ++ [entry]) = (table.overlay writes).insert entry.1 entry.2 := by
  simp [overlay, List.foldl_append]

variable [Std.LawfulEqOrd κ] {table : BTreeMap κ ρ} {writes : List (κ × ρ)} {k : κ} {row : ρ}

/-- What was written is seen. -/
theorem mem_overlay_of_written (member : k ∈ writes.map Prod.fst) :
    k ∈ table.overlay writes := by
  induction writes using List.reverseRecOn with
  | nil => exact (List.not_mem_nil member).elim
  | append_singleton writes entry ih =>
      rw [overlay_concat, Std.ExtTreeMap.mem_insert]
      rw [List.map_append, List.mem_append] at member
      obtain earlier | last := member
      · exact .inr (ih earlier)
      · exact .inl (List.mem_singleton.mp last ▸ Std.ReflOrd.compare_self)

variable [DecidableEq κ]

/-- A row that was not written is that of the table. -/
theorem getElem?_overlay_of_notMem (other : k ∉ writes.map Prod.fst) :
    (table.overlay writes)[k]? = table[k]? := by
  induction writes using List.reverseRecOn with
  | nil => rfl
  | append_singleton writes entry ih =>
      rw [List.map_append, List.mem_append, not_or] at other
      rw [overlay_concat, getElem?_insert, if_neg, ih other.1]
      rintro rfl
      exact other.2 List.mem_cons_self

/-- What is seen was written, or is what the table has under a key that was not. -/
theorem overlay_cases (seen : (table.overlay writes)[k]? = some row) :
    (k, row) ∈ writes ∨ k ∉ writes.map Prod.fst ∧ table[k]? = some row := by
  induction writes using List.reverseRecOn with
  | nil => exact .inr ⟨List.not_mem_nil, seen⟩
  | append_singleton writes entry ih =>
      rw [overlay_concat, getElem?_insert] at seen
      split at seen
      next same =>
        obtain rfl := Option.some.inj seen
        subst same
        exact .inl (List.mem_append_right _ List.mem_cons_self)
      next other =>
        obtain own | ⟨unwritten, stored⟩ := ih seen
        · exact .inl (List.mem_append_left _ own)
        · refine .inr ⟨?_, stored⟩
          rw [List.map_append, List.mem_append, not_or]
          exact ⟨unwritten, fun last => other (List.mem_singleton.mp last).symm⟩

/-- Under a key that was written, what is seen does not depend on the table. -/
theorem overlay_congr_of_mem {table' : BTreeMap κ ρ} (member : k ∈ writes.map Prod.fst) :
    (table.overlay writes)[k]? = (table'.overlay writes)[k]? := by
  induction writes using List.reverseRecOn with
  | nil => exact (List.not_mem_nil member).elim
  | append_singleton writes entry ih =>
      rw [overlay_concat, overlay_concat, getElem?_insert, getElem?_insert]
      split
      · rfl
      next other =>
        rw [List.map_append, List.mem_append] at member
        exact ih (member.resolve_right fun last => other (List.mem_singleton.mp last).symm)

theorem overlay_congr {table' : BTreeMap κ ρ} (same : table[k]? = table'[k]?) :
    (table.overlay writes)[k]? = (table'.overlay writes)[k]? := by
  by_cases written : k ∈ writes.map Prod.fst
  · exact overlay_congr_of_mem written
  · rw [getElem?_overlay_of_notMem written, getElem?_overlay_of_notMem written, same]

theorem mem_overlay_iff : k ∈ table.overlay writes ↔ k ∈ writes.map Prod.fst ∨ k ∈ table := by
  by_cases written : k ∈ writes.map Prod.fst
  · exact ⟨fun _ => .inl written, fun _ => mem_overlay_of_written written⟩
  · rw [Std.ExtTreeMap.mem_iff_isSome_getElem?, getElem?_overlay_of_notMem written,
      ← Std.ExtTreeMap.mem_iff_isSome_getElem?]
    exact ⟨.inr, fun either => either.resolve_left written⟩

end BTreeMap

variable [DecidableEq κ] [DecidableEq ι]

namespace Protocol

variable {protocol : Protocol κ ρ ι γ α}

/-- What a statement does on the table as it now stands: a row that it finds is seen in the
table, and one that it misses was missing at the moment of the statement, which has been. -/
inductive Moves (protocol : Protocol κ ρ ι γ α) (table : BTreeMap κ ρ)
    (past : Nat → BTreeMap κ ρ → Prop) (stage : Stage κ ρ α) : Stage κ ρ α → Prop where
  | found {n : Nat} {p : κ → ρ → Bool} {next : Option (κ × ρ) → Transaction κ ρ α} {k : κ} {row : ρ}
      (rest : stage.rest = .lock p next) (seen : (stage.view table)[k]? = some row)
      (passes : p k row = true) (since : stage.clock ≤ n) :
      Moves protocol table past stage ⟨next (some (k, row)), k :: stage.held, stage.writes, n⟩
  | missing {n : Nat} {p : κ → ρ → Bool} {next : Option (κ × ρ) → Transaction κ ρ α}
      {moment : BTreeMap κ ρ} (rest : stage.rest = .lock p next) (been : past n moment)
      (absent : ∀ k row, (stage.view moment)[k]? = some row → p k row = false)
      (since : stage.clock ≤ n) :
      Moves protocol table past stage ⟨next none, stage.held, stage.writes, n⟩
  | chosen {n : Nat} {choose : List (κ × ρ) → List (κ × ρ)} {among : ∀ rows, choose rows ⊆ rows}
      {next : List (κ × ρ) → Transaction κ ρ α} {free : List (κ × ρ)}
      (rest : stage.rest = .lockFree choose among next) (distinct : (free.map Prod.fst).Nodup)
      (seen : ∀ entry ∈ choose free, (stage.view table)[entry.1]? = some entry.2)
      (since : stage.clock ≤ n) :
      Moves protocol table past stage
        ⟨next (choose free), (choose free).map Prod.fst ++ stage.held, stage.writes, n⟩
  | updated {n : Nat} {k : κ} {guard : ρ → Bool} {row old : ρ} {next : Bool → Transaction κ ρ α}
      (rest : stage.rest = .update k guard row next) (seen : (stage.view table)[k]? = some old)
      (passes : guard old = true) (since : stage.clock ≤ n) :
      Moves protocol table past stage
        ⟨next true, k :: stage.held, stage.writes ++ [(k, row)], n⟩
  | refused {n : Nat} {k : κ} {guard : ρ → Bool} {row : ρ} {next : Bool → Transaction κ ρ α}
      {moment : BTreeMap κ ρ} (rest : stage.rest = .update k guard row next)
      (been : past n moment) (fails : ∀ old, (stage.view moment)[k]? = some old → guard old = false)
      (same : k ∈ stage.held → (stage.view table)[k]? = (stage.view moment)[k]?)
      (since : stage.clock ≤ n) :
      Moves protocol table past stage ⟨next false, stage.held, stage.writes, n⟩
  | inserted {n : Nat} {k : κ} {row : ρ} {next : Bool → Transaction κ ρ α}
      (rest : stage.rest = .insert k row next)
      (fits : ∀ k' row', (stage.view table)[k']? = some row' →
        protocol.clash (k, row) (k', row') = false)
      (since : stage.clock ≤ n) :
      Moves protocol table past stage ⟨next true, stage.held, stage.writes ++ [(k, row)], n⟩
  | present {n : Nat} {k k' : κ} {row row' : ρ} {next : Bool → Transaction κ ρ α}
      {moment : BTreeMap κ ρ}
      (rest : stage.rest = .insert k row next) (been : past n moment)
      (there : (stage.view moment)[k']? = some row')
      (clashes : protocol.clash (k, row) (k', row') = true) (since : stage.clock ≤ n) :
      Moves protocol table past stage ⟨next false, stage.held, stage.writes, n⟩

/-- What leads from one stage to another. -/
def Reaches (protocol : Protocol κ ρ ι γ α) (table : BTreeMap κ ρ)
    (past : Nat → BTreeMap κ ρ → Prop) :
    Stage κ ρ α → Stage κ ρ α → Prop :=
  Relation.ReflTransGen (protocol.Moves table past)

/-- The stage at which a call starts. -/
def start (protocol : Protocol κ ρ ι γ α) (call : γ) (began : Nat) : Stage κ ρ α :=
  ⟨protocol.program call, [], [], began⟩

section Stable

variable {table table' : BTreeMap κ ρ} {past past' : Nat → BTreeMap κ ρ → Prop}
variable {first stage stage' : Stage κ ρ α}

/-- Locks and writes stay until the end. -/
theorem Moves.grows (h : protocol.Moves table past stage stage') :
    stage.held ⊆ stage'.held ∧ stage.writes ⊆ stage'.writes := by
  cases h with
  | found | updated =>
      exact ⟨List.subset_cons_self _ _, by simp⟩
  | chosen => exact ⟨List.subset_append_right _ _, List.Subset.refl _⟩
  | inserted => exact ⟨List.Subset.refl _, List.subset_append_left _ _⟩
  | missing | refused | present => exact ⟨List.Subset.refl _, List.Subset.refl _⟩

variable [Std.LawfulEqOrd κ]

/-- Other sessions may change the table where neither locked rows nor the places of inserted
rows are touched. -/
theorem Moves.stable (h : protocol.Moves table past stage stage')
    (locked : ∀ k ∈ stage'.held, table'[k]? = table[k]?)
    (free : ∀ entry ∈ stage'.writes, ∀ k row, table'[k]? = some row →
      table[k]? = some row ∨ protocol.clash entry (k, row) = false)
    (later : ∀ n t, past n t → past' n t) : protocol.Moves table' past' stage stage' := by
  cases h with
  | found rest seen passes since =>
      have own := (List.forall_mem_cons.mp locked).1
      exact .found rest ((BTreeMap.overlay_congr own).trans seen) passes since
  | missing rest been absent since => exact .missing rest (later _ _ been) absent since
  | chosen rest distinct seen since =>
      have own := (List.forall_mem_append.mp locked).1
      refine .chosen rest distinct (fun entry member => ?_) since
      exact (BTreeMap.overlay_congr (own entry.1 (List.mem_map_of_mem member))).trans
        (seen entry member)
  | updated rest seen passes since =>
      have own := (List.forall_mem_cons.mp locked).1
      exact .updated rest ((BTreeMap.overlay_congr own).trans seen) passes since
  | refused rest been fails same since =>
      refine .refused rest (later _ _ been) fails (fun member => ?_) since
      exact (BTreeMap.overlay_congr (locked _ member)).trans (same member)
  | inserted rest fits since =>
      have own := (List.forall_mem_append.mp free).2 _ List.mem_cons_self
      refine .inserted rest (fun k' row' seen => ?_) since
      by_cases written : k' ∈ stage.writes.map Prod.fst
      · exact fits k' row' ((BTreeMap.overlay_congr_of_mem written).trans seen)
      · rw [Stage.view, BTreeMap.getElem?_overlay_of_notMem written] at seen
        obtain old | apart := own k' row' seen
        · exact fits k' row' ((BTreeMap.getElem?_overlay_of_notMem written).trans old)
        · exact apart
  | present rest been there clashes since =>
      exact .present rest (later _ _ been) there clashes since

theorem Reaches.stable (h : protocol.Reaches table past first stage)
    (locked : ∀ k ∈ stage.held, table'[k]? = table[k]?)
    (free : ∀ entry ∈ stage.writes, ∀ k row, table'[k]? = some row →
      table[k]? = some row ∨ protocol.clash entry (k, row) = false)
    (later : ∀ n t, past n t → past' n t) : protocol.Reaches table' past' first stage := by
  induction h with
  | refl => exact .refl
  | tail before move ih =>
      obtain ⟨held, writes⟩ := move.grows
      exact (ih (fun k member => locked k (held member))
        fun entry member => free entry (writes member)).tail (move.stable locked free later)

end Stable

/-! What follows on a statement, by its form. -/

section Forward

variable {table : BTreeMap κ ρ} {past : Nat → BTreeMap κ ρ → Prop} {held : List κ}
variable {writes : List (κ × ρ)} {clock : Nat} {stage : Stage κ ρ α}

theorem Reaches.commit {answer : α}
    (h : protocol.Reaches table past ⟨.commit answer, held, writes, clock⟩ stage) :
    stage = ⟨.commit answer, held, writes, clock⟩ := by
  obtain same | ⟨next, move, -⟩ := Relation.ReflTransGen.cases_head h
  · exact same.symm
  · cases move <;> contradiction

theorem Reaches.rollback {answer : α}
    (h : protocol.Reaches table past ⟨.rollback answer, held, writes, clock⟩ stage) :
    stage = ⟨.rollback answer, held, writes, clock⟩ := by
  obtain same | ⟨next, move, -⟩ := Relation.ReflTransGen.cases_head h
  · exact same.symm
  · cases move <;> contradiction

theorem Reaches.lock {p : κ → ρ → Bool} {next : Option (κ × ρ) → Transaction κ ρ α}
    (h : protocol.Reaches table past ⟨.lock p next, held, writes, clock⟩ stage) :
    stage = ⟨.lock p next, held, writes, clock⟩ ∨
      (∃ n k row, clock ≤ n ∧ (table.overlay writes)[k]? = some row ∧ p k row = true ∧
        protocol.Reaches table past ⟨next (some (k, row)), k :: held, writes, n⟩ stage) ∨
      ∃ n moment, clock ≤ n ∧ past n moment ∧
        (∀ k row, (moment.overlay writes)[k]? = some row → p k row = false) ∧
        protocol.Reaches table past ⟨next none, held, writes, n⟩ stage := by
  obtain same | ⟨middle, move, after⟩ := Relation.ReflTransGen.cases_head h
  · exact .inl same.symm
  · cases move with
    | found rest seen passes since =>
        obtain ⟨rfl, rfl⟩ := Transaction.lock.inj rest
        exact .inr (.inl ⟨_, _, _, since, seen, passes, after⟩)
    | missing rest been absent since =>
        obtain ⟨rfl, rfl⟩ := Transaction.lock.inj rest
        exact .inr (.inr ⟨_, _, since, been, absent, after⟩)
    | _ => contradiction

theorem Reaches.lockFree {choose : List (κ × ρ) → List (κ × ρ)}
    {among : ∀ rows, choose rows ⊆ rows} {next : List (κ × ρ) → Transaction κ ρ α}
    (h : protocol.Reaches table past ⟨.lockFree choose among next, held, writes, clock⟩ stage) :
    stage = ⟨.lockFree choose among next, held, writes, clock⟩ ∨
      ∃ (n : Nat) (free : List (κ × ρ)), clock ≤ n ∧ (free.map Prod.fst).Nodup ∧
        (∀ entry ∈ choose free, (table.overlay writes)[entry.1]? = some entry.2) ∧
        protocol.Reaches table past
          ⟨next (choose free), (choose free).map Prod.fst ++ held, writes, n⟩ stage := by
  obtain same | ⟨middle, move, after⟩ := Relation.ReflTransGen.cases_head h
  · exact .inl same.symm
  · cases move with
    | chosen rest distinct seen since =>
        obtain ⟨rfl, rfl⟩ := Transaction.lockFree.inj rest
        exact .inr ⟨_, _, since, distinct, seen, after⟩
    | _ => contradiction

theorem Reaches.update {k : κ} {guard : ρ → Bool} {row : ρ} {next : Bool → Transaction κ ρ α}
    (h : protocol.Reaches table past ⟨.update k guard row next, held, writes, clock⟩ stage) :
    stage = ⟨.update k guard row next, held, writes, clock⟩ ∨
      (∃ n old, clock ≤ n ∧ (table.overlay writes)[k]? = some old ∧ guard old = true ∧
        protocol.Reaches table past ⟨next true, k :: held, writes ++ [(k, row)], n⟩ stage) ∨
      (∃ n moment, clock ≤ n ∧ past n moment ∧
        (∀ old, (moment.overlay writes)[k]? = some old → guard old = false) ∧
        (k ∈ held → (table.overlay writes)[k]? = (moment.overlay writes)[k]?) ∧
        protocol.Reaches table past ⟨next false, held, writes, n⟩ stage) := by
  obtain same | ⟨middle, move, after⟩ := Relation.ReflTransGen.cases_head h
  · exact .inl same.symm
  · cases move with
    | updated rest seen passes since =>
        obtain ⟨rfl, rfl, rfl, rfl⟩ := Transaction.update.inj rest
        exact .inr (.inl ⟨_, _, since, seen, passes, after⟩)
    | refused rest been fails same since =>
        obtain ⟨rfl, rfl, rfl, rfl⟩ := Transaction.update.inj rest
        exact .inr (.inr ⟨_, _, since, been, fails, same, after⟩)
    | _ => contradiction

theorem Reaches.insert {k : κ} {row : ρ} {next : Bool → Transaction κ ρ α}
    (h : protocol.Reaches table past ⟨.insert k row next, held, writes, clock⟩ stage) :
    stage = ⟨.insert k row next, held, writes, clock⟩ ∨
      (∃ n, clock ≤ n ∧ (∀ k' row', (table.overlay writes)[k']? = some row' →
          protocol.clash (k, row) (k', row') = false) ∧
        protocol.Reaches table past ⟨next true, held, writes ++ [(k, row)], n⟩ stage) ∨
      ∃ n moment k' row', clock ≤ n ∧ past n moment ∧ (moment.overlay writes)[k']? = some row' ∧
        protocol.clash (k, row) (k', row') = true ∧
        protocol.Reaches table past ⟨next false, held, writes, n⟩ stage := by
  obtain same | ⟨middle, move, after⟩ := Relation.ReflTransGen.cases_head h
  · exact .inl same.symm
  · cases move with
    | inserted rest fits since =>
        obtain ⟨rfl, rfl, rfl⟩ := Transaction.insert.inj rest
        exact .inr (.inl ⟨_, since, fits, after⟩)
    | present rest been there clashes since =>
        obtain ⟨rfl, rfl, rfl⟩ := Transaction.insert.inj rest
        exact .inr (.inr ⟨_, _, _, _, since, been, there, clashes, after⟩)
    | _ => contradiction

end Forward

end Protocol

namespace Session

variable {protocol : Protocol κ ρ ι γ α} {table : BTreeMap κ ρ} {held held' : List κ}
variable {writes writes' : List (κ × ρ)}

/-- The locks and the writes of one session on a table. -/
structure Keeps (protocol : Protocol κ ρ ι γ α) (table : BTreeMap κ ρ) (held : List κ)
    (writes : List (κ × ρ)) : Prop where
  locked : ∀ k ∈ held, k ∈ table ∨ k ∈ writes.map Prod.fst
  placed : ∀ entry ∈ writes, entry.1 ∈ held ∨ entry.1 ∉ table
  fits : ∀ entry ∈ writes, ∀ k row, table[k]? = some row → entry.1 ≠ k →
    protocol.clash entry (k, row) = false
  indexed : ∀ entry ∈ writes, ∀ row, table[entry.1]? = some row →
    protocol.index entry.2 = protocol.index row
  apart : ∀ entry ∈ writes, ∀ other ∈ writes, entry.1 ≠ other.1 →
    protocol.clash entry other = false
  same : ∀ entry ∈ writes, ∀ other ∈ writes, entry.1 = other.1 →
    protocol.index entry.2 = protocol.index other.2

theorem Keeps.start : Keeps protocol table [] [] := by
  constructor <;> exact fun _ member => (List.not_mem_nil member).elim

/-- Rows that are there are locked. -/
theorem Keeps.lock (keeps : Keeps protocol table held writes) (ks : List κ)
    (there : ∀ k ∈ ks, k ∈ table ∨ k ∈ writes.map Prod.fst) :
    Keeps protocol table (ks ++ held) writes where
  __ := keeps
  locked := List.forall_mem_append.mpr ⟨there, keeps.locked⟩
  placed entry member := (keeps.placed entry member).imp_left (List.mem_append_right _)

/-- A row is written that fits into the table and to the rows written before. -/
theorem Keeps.write (keeps : Keeps protocol table held writes) {k : κ} {row : ρ}
    (place : k ∈ held ∨ k ∉ table)
    (fits : ∀ k' row', table[k']? = some row' → k ≠ k' → protocol.clash (k, row) (k', row') = false)
    (indexed : ∀ row', table[k]? = some row' → protocol.index row = protocol.index row')
    (apart : ∀ entry ∈ writes, k ≠ entry.1 → protocol.clash (k, row) entry = false)
    (same : ∀ entry ∈ writes, k = entry.1 → protocol.index row = protocol.index entry.2) :
    Keeps protocol table held (writes ++ [(k, row)]) where
  locked k' member := (keeps.locked k' member).imp_right fun own => by
    rw [List.map_append]
    exact List.mem_append_left _ own
  placed := List.forall_mem_append.mpr ⟨keeps.placed, List.forall_mem_singleton.mpr place⟩
  fits := List.forall_mem_append.mpr ⟨keeps.fits, List.forall_mem_singleton.mpr fits⟩
  indexed := List.forall_mem_append.mpr ⟨keeps.indexed, List.forall_mem_singleton.mpr indexed⟩
  apart := by
    simp only [List.forall_mem_append, List.forall_mem_singleton]
    refine ⟨fun entry member => ⟨keeps.apart entry member, fun different => ?_⟩, apart,
      fun self => ?_⟩
    · exact Protocol.clash_comm.trans (apart entry member different.symm)
    · exact absurd rfl self
  same := by
    simp only [List.forall_mem_append, List.forall_mem_singleton]
    exact ⟨fun entry member => ⟨keeps.same entry member,
      fun equal => (same entry member equal.symm).symm⟩, same, fun _ => trivial⟩

end Session

namespace Database

variable {protocol : Protocol κ ρ ι γ α} {m : Database κ ρ γ α} {i : Nat}
variable {session session' : Session κ ρ γ α}

/-- What the next statement of a session may do. -/
inductive Advances (protocol : Protocol κ ρ ι γ α) (m : Database κ ρ γ α) (i : Nat)
    (session : Session κ ρ γ α) : Session κ ρ γ α → Prop where
  | found {p : κ → ρ → Bool} {next : Option (κ × ρ) → Transaction κ ρ α} {k : κ} {row : ρ}
      (rest : session.rest = .lock p next) (seen : (session.view m.table)[k]? = some row)
      (passes : p k row = true) (free : m.Free i k) :
      Advances protocol m i session
        { session with
          rest := next (some (k, row)), held := k :: session.held, clock := m.events }
  | missing {p : κ → ρ → Bool} {next : Option (κ × ρ) → Transaction κ ρ α}
      (rest : session.rest = .lock p next)
      (absent : ∀ k row, (session.view m.table)[k]? = some row → p k row = false) :
      Advances protocol m i session { session with rest := next none, clock := m.events }
  | chosen {choose : List (κ × ρ) → List (κ × ρ)} {among : ∀ rows, choose rows ⊆ rows}
      {next : List (κ × ρ) → Transaction κ ρ α} {free : List (κ × ρ)}
      (rest : session.rest = .lockFree choose among next) (distinct : (free.map Prod.fst).Nodup)
      (seen : ∀ entry ∈ choose free, (session.view m.table)[entry.1]? = some entry.2)
      (unlocked : ∀ entry ∈ choose free, m.Free i entry.1) :
      Advances protocol m i session { session with
        rest := next (choose free), held := (choose free).map Prod.fst ++ session.held
        clock := m.events }
  | updated {k : κ} {guard : ρ → Bool} {row old : ρ} {next : Bool → Transaction κ ρ α}
      (rest : session.rest = .update k guard row next)
      (seen : (session.view m.table)[k]? = some old) (passes : guard old = true)
      (free : m.Free i k) :
      Advances protocol m i session { session with
        rest := next true, held := k :: session.held, writes := session.writes ++ [(k, row)]
        clock := m.events }
  | refused {k : κ} {guard : ρ → Bool} {row : ρ} {next : Bool → Transaction κ ρ α}
      (rest : session.rest = .update k guard row next)
      (fails : ∀ old, (session.view m.table)[k]? = some old → guard old = false) :
      Advances protocol m i session { session with rest := next false, clock := m.events }
  | inserted {k : κ} {row : ρ} {next : Bool → Transaction κ ρ α}
      (rest : session.rest = .insert k row next)
      (fits : ∀ k' row', (session.view m.table)[k']? = some row' →
        protocol.clash (k, row) (k', row') = false)
      (pending : ∀ j other, m.sessions[j]? = some other → j ≠ i → ∀ written ∈ other.writes,
        protocol.clash (k, row) written = false) :
      Advances protocol m i session { session with
        rest := next true, writes := session.writes ++ [(k, row)], clock := m.events }
  | present {k k' : κ} {row row' : ρ} {next : Bool → Transaction κ ρ α}
      (rest : session.rest = .insert k row next)
      (there : (session.view m.table)[k']? = some row')
      (clashes : protocol.clash (k, row) (k', row') = true) :
      Advances protocol m i session { session with rest := next false, clock := m.events }

/-- The locks of the sessions exclude each other, and nothing that is committed or written
clashes. -/
structure Consistent (protocol : Protocol κ ρ ι γ α) (m : Database κ ρ γ α) : Prop where
  keeps : ∀ {j : Nat} {other : Session κ ρ γ α}, m.sessions[j]? = some other →
    Session.Keeps protocol m.table other.held other.writes
  apart : ∀ {j j' : Nat} {a b : Session κ ρ γ α}, m.sessions[j]? = some a →
    m.sessions[j']? = some b → j ≠ j' → Session.Apart protocol a.held a.writes b.held b.writes
  unique : ∀ {k k' : κ} {row row' : ρ}, m.table[k]? = some row → m.table[k']? = some row' →
    k ≠ k' → protocol.clash (k, row) (k', row') = false

theorem consistent_start : Consistent protocol (⟨∅, ∅, 0⟩ : Database κ ρ γ α) := by
  constructor <;> simp

theorem Consistent.remove (consistent : m.Consistent protocol) (i events : Nat) :
    Consistent protocol ⟨m.table, m.sessions.erase i, events⟩ where
  keeps stored := by
    rw [BTreeMap.getElem?_erase] at stored
    split at stored
    · cases stored
    · exact consistent.keeps stored
  apart storedA storedB different := by
    rw [BTreeMap.getElem?_erase] at storedA storedB
    split at storedA
    · cases storedA
    · split at storedB
      · cases storedB
      · exact consistent.apart storedA storedB different
  unique := consistent.unique

theorem Consistent.put (consistent : m.Consistent protocol) (events : Nat)
    (kept : Session.Keeps protocol m.table session.held session.writes)
    (fits : ∀ {j : Nat} {other : Session κ ρ γ α}, m.sessions[j]? = some other → j ≠ i →
      Session.Apart protocol session.held session.writes other.held other.writes) :
    Consistent protocol ⟨m.table, m.sessions.insert i session, events⟩ where
  keeps stored := by
    rw [BTreeMap.getElem?_insert] at stored
    split at stored
    · obtain rfl := Option.some.inj stored
      exact kept
    · exact consistent.keeps stored
  apart storedA storedB different := by
    rw [BTreeMap.getElem?_insert] at storedA storedB
    split at storedA
    next ownA =>
      obtain rfl := Option.some.inj storedA
      split at storedB
      next ownB => exact absurd (ownA.symm.trans ownB) different
      next => exact fits storedB (ownA ▸ different.symm)
    next =>
      split at storedB
      next ownB =>
        obtain rfl := Option.some.inj storedB
        exact (fits storedA (ownB ▸ different)).symm
      · exact consistent.apart storedA storedB different
  unique := consistent.unique

variable [Std.LawfulEqOrd κ]

theorem advances_of_advance (h : m.advance protocol i session = some session') :
    m.Advances protocol i session session' := by
  have listed : ∀ {k : κ} {row : ρ}, (k, row) ∈ (session.view m.table).toList ↔
      (session.view m.table)[k]? = some row := Std.ExtTreeMap.mem_toList_iff_getElem?_eq_some
  unfold advance at h
  split at h
  · cases h
  · cases h
  next p next rest =>
    split at h
    next absent =>
      obtain rfl := Option.some.inj h
      refine .missing rest fun k row seen => ?_
      simpa using List.find?_eq_none.mp absent (k, row) (listed.mpr seen)
    next k row found =>
      split at h
      · cases h
      next unlocked =>
        obtain rfl := Option.some.inj h
        refine .found rest (listed.mp (List.mem_of_find?_eq_some found)) ?_
          (lockedElsewhere_iff.mp (Bool.eq_false_iff.mpr unlocked))
        have passes := List.find?_some found
        simpa using passes
  next choose among next rest =>
    obtain rfl := Option.some.inj h
    refine .chosen rest ?_ (fun entry member => ?_) fun entry member => ?_
    · exact (BTreeMap.keys_nodup _).sublist (List.filter_sublist.map Prod.fst)
    · exact listed.mp (List.mem_filter.mp (among _ member) |>.1)
    · have free := (List.mem_filter.mp (among _ member)).2
      exact lockedElsewhere_iff.mp (by simpa using free)
  next k guard row next rest =>
    split at h
    next absent =>
      obtain rfl := Option.some.inj h
      exact .refused rest fun old seen => by rw [absent] at seen; cases seen
    next old seen =>
      split at h
      next fails =>
        obtain rfl := Option.some.inj h
        refine .refused rest fun other stored => ?_
        obtain rfl := Option.some.inj (seen.symm.trans stored)
        simpa using fails
      next passes =>
        split at h
        · cases h
        next unlocked =>
          obtain rfl := Option.some.inj h
          exact .updated rest seen (by simpa using passes)
            (lockedElsewhere_iff.mp (Bool.eq_false_iff.mpr unlocked))
  next k row next rest =>
    split at h
    · cases h
    next pending =>
      split at h
      next there =>
        obtain rfl := Option.some.inj h
        obtain ⟨⟨k', row'⟩, member, clashes⟩ := List.any_eq_true.mp there
        exact .present rest (listed.mp member) clashes
      next fits =>
        obtain rfl := Option.some.inj h
        refine .inserted rest (fun k' row' seen => ?_)
          (clashesElsewhere_iff.mp (Bool.eq_false_iff.mpr pending))
        rw [← Bool.not_eq_true]
        exact fun clashes => fits (List.any_eq_true.mpr ⟨_, listed.mpr seen, clashes⟩)

/-- What a session may write over a row that it sees: a row with the same index entry. -/
theorem Consistent.write (consistent : m.Consistent protocol)
    (stored : m.sessions[i]? = some session) {k : κ} {row old : ρ}
    (seen : (session.view m.table)[k]? = some old)
    (index : protocol.index row = protocol.index old) (free : m.Free i k) :
    Session.Keeps protocol m.table (k :: session.held) (session.writes ++ [(k, row)]) ∧
      ∀ {j : Nat} {other : Session κ ρ γ α}, m.sessions[j]? = some other → j ≠ i →
        ∀ written ∈ other.writes, protocol.clash (k, row) written = false := by
  have keeps := consistent.keeps stored
  obtain own | ⟨unwritten, old'⟩ := BTreeMap.overlay_cases seen
  · refine ⟨(keeps.lock [k] ?_).write (.inl List.mem_cons_self) ?_ ?_ ?_ ?_, ?_⟩
    · exact List.forall_mem_singleton.mpr (.inr (List.mem_map_of_mem own))
    · exact fun k' row' there apart =>
        Protocol.clash_congr apart index (keeps.fits _ own k' row' there apart)
    · exact fun row' there => index.trans (keeps.indexed _ own row' there)
    · exact fun entry member apart =>
        Protocol.clash_congr apart index (keeps.apart _ own entry member apart)
    · exact fun entry member equal => index.trans (keeps.same _ own entry member equal)
    · intro j other stored' different written member
      have fits := (consistent.apart stored stored' different.symm).unclashing _ own written member
      exact Protocol.clash_congr (fun equal => by simp [Protocol.clash, equal] at fits) index fits
  · have there : k ∈ m.table :=
      Std.ExtTreeMap.mem_iff_isSome_getElem?.mpr (Option.isSome_of_eq_some old')
    refine ⟨(keeps.lock [k] ?_).write (.inl List.mem_cons_self) ?_ ?_ ?_ ?_, ?_⟩
    · exact List.forall_mem_singleton.mpr (.inl there)
    · exact fun k' row' there' apart =>
        Protocol.clash_congr apart index (consistent.unique old' there' apart)
    · intro row' there'
      obtain rfl := Option.some.inj (old'.symm.trans there')
      exact index
    · exact fun entry member apart => Protocol.clash_congr apart index
        (Protocol.clash_comm.trans (keeps.fits entry member k old old' apart.symm))
    · exact fun entry member equal => absurd (equal ▸ List.mem_map_of_mem member) unwritten
    · intro j other stored' different written member
      have apart : k ≠ written.1 := by
        rintro rfl
        obtain locked | absent := (consistent.keeps stored').placed written member
        · exact free j other stored' different locked
        · exact absent there
      exact Protocol.clash_congr apart index (Protocol.clash_comm.trans
        ((consistent.keeps stored').fits written member k old old' apart.symm))

/-- A statement keeps the session in order and apart from the others. -/
theorem Advances.keeps (h : m.Advances protocol i session session')
    (consistent : m.Consistent protocol) (stored : m.sessions[i]? = some session)
    (steady : ∀ {k : κ} {guard : ρ → Bool} {row old : ρ} {next : Bool → Transaction κ ρ α},
      session.rest = .update k guard row next → (session.view m.table)[k]? = some old →
        guard old = true → protocol.index row = protocol.index old) :
    Session.Keeps protocol m.table session'.held session'.writes ∧
      ∀ {j : Nat} {other : Session κ ρ γ α}, m.sessions[j]? = some other → j ≠ i →
        Session.Apart protocol session'.held session'.writes other.held other.writes := by
  have keeps := consistent.keeps stored
  have apart : ∀ {j : Nat} {other : Session κ ρ γ α}, m.sessions[j]? = some other → j ≠ i →
      Session.Apart protocol session.held session.writes other.held other.writes :=
    fun stored' different => consistent.apart stored stored' different.symm
  have there : ∀ {k : κ} {row : ρ}, (session.view m.table)[k]? = some row →
      k ∈ m.table ∨ k ∈ session.writes.map Prod.fst := fun seen =>
    (BTreeMap.mem_overlay_iff.mp
      (Std.ExtTreeMap.mem_iff_isSome_getElem?.mpr (Option.isSome_of_eq_some seen))).symm
  cases h with
  | missing | refused | present => exact ⟨keeps, apart⟩
  | @found p next k row rest seen passes free =>
      refine ⟨keeps.lock [k] (List.forall_mem_singleton.mpr (there seen)), ?_⟩
      exact fun {j other} stored' different => (apart stored' different).lock
        (List.forall_mem_singleton.mpr (free j other stored' different))
  | @chosen choose among next rows rest distinct seen unlocked =>
      refine ⟨keeps.lock _ (List.forall_mem_map.mpr fun entry member => ?_), ?_⟩
      · exact there (seen entry member)
      · exact fun {j other} stored' different => (apart stored' different).lock
          (List.forall_mem_map.mpr fun entry member =>
            unlocked entry member j other stored' different)
  | @updated k guard row old next rest seen passes free =>
      obtain ⟨kept, fits⟩ := consistent.write stored seen (steady rest seen passes) free
      refine ⟨kept, fun {j other} stored' different => ?_⟩
      exact ((apart stored' different).lock
        (List.forall_mem_singleton.mpr (free j other stored' different))).write
          (fits stored' different)
  | @inserted k row next rest fits pending =>
      have unwritten : ∀ entry ∈ session.writes, k ≠ entry.1 := by
        rintro entry member rfl
        have own : entry.1 ∈ m.table.overlay session.writes :=
          BTreeMap.mem_overlay_of_written (List.mem_map_of_mem member)
        obtain ⟨row', seen⟩ := Option.isSome_iff_exists.mp
          (Std.ExtTreeMap.mem_iff_isSome_getElem?.mp own)
        have apart := fits entry.1 row' seen
        simp [Protocol.clash] at apart
      have absent : k ∉ m.table := by
        intro there
        obtain ⟨row', old⟩ := Option.isSome_iff_exists.mp
          (Std.ExtTreeMap.mem_iff_isSome_getElem?.mp there)
        rw [← BTreeMap.getElem?_overlay_of_notMem (fun written => by
          obtain ⟨entry, member, rfl⟩ := List.mem_map.mp written
          exact unwritten entry member rfl)] at old
        have apart := fits k row' old
        simp [Protocol.clash] at apart
      -- Whatever is written or stored under a key has the index entry that is seen there.
      have seen : ∀ {k' : κ} {row' : ρ}, k ≠ k' →
          (k', row') ∈ session.writes ∨ m.table[k']? = some row' →
            protocol.clash (k, row) (k', row') = false := by
        intro k' row' different origin
        have there : k' ∈ m.table.overlay session.writes := by
          refine BTreeMap.mem_overlay_iff.mpr (origin.imp List.mem_map_of_mem fun old => ?_)
          exact Std.ExtTreeMap.mem_iff_isSome_getElem?.mpr (Option.isSome_of_eq_some old)
        obtain ⟨last, shown⟩ := Option.isSome_iff_exists.mp
          (Std.ExtTreeMap.mem_iff_isSome_getElem?.mp there)
        have index : protocol.index row' = protocol.index last := by
          obtain own | ⟨other, stored'⟩ := BTreeMap.overlay_cases shown <;>
            obtain own' | old := origin
          · exact keeps.same _ own' _ own rfl
          · exact (keeps.indexed _ own row' old).symm
          · exact absurd (List.mem_map_of_mem own') other
          · rw [Option.some.inj (old.symm.trans stored')]
        have free : protocol.clash (k', last) (k, row) = false :=
          Protocol.clash_comm.trans (fits k' last shown)
        exact Protocol.clash_comm.trans (Protocol.clash_congr (Ne.symm different) index free)
      refine ⟨keeps.write (.inr absent) ?_ ?_ ?_ ?_, fun {j other} stored' different =>
        (apart stored' different).write (pending j other stored' different)⟩
      · exact fun k' row' old different => seen different (.inr old)
      · intro row' old
        exact absurd (Std.ExtTreeMap.mem_iff_isSome_getElem?.mpr (Option.isSome_of_eq_some old))
          absent
      · exact fun entry member different => seen different (.inl member)
      · exact fun entry member equal => absurd equal (unwritten entry member)

/-- Rows that a commit changes are locked by no other session, and clash with nothing that
another one has written. -/
theorem Consistent.committed (consistent : m.Consistent protocol)
    (stored : m.sessions[i]? = some session) {j : Nat} {other : Session κ ρ γ α}
    (stored' : m.sessions[j]? = some other) (different : j ≠ i) :
    (∀ k ∈ other.held, (session.view m.table)[k]? = m.table[k]?) ∧
      ∀ entry ∈ other.writes, ∀ k row, (session.view m.table)[k]? = some row →
        m.table[k]? = some row ∨ protocol.clash entry (k, row) = false := by
  have apart := consistent.apart stored' stored different
  constructor
  · intro k locked
    refine BTreeMap.getElem?_overlay_of_notMem fun written => ?_
    obtain ⟨entry, member, rfl⟩ := List.mem_map.mp written
    obtain own | absent := (consistent.keeps stored).placed entry member
    · exact apart.locked _ locked own
    · obtain there | written := (consistent.keeps stored').locked _ locked
      · exact absent there
      · obtain ⟨mine, listed, same⟩ := List.mem_map.mp written
        have clash := apart.unclashing mine listed entry member
        simp [Protocol.clash, same] at clash
  · intro entry member k row seen
    obtain own | ⟨-, old⟩ := BTreeMap.overlay_cases seen
    · exact .inr (apart.unclashing entry member _ own)
    · exact .inl old

theorem Consistent.commit (consistent : m.Consistent protocol)
    (stored : m.sessions[i]? = some session) (events : Nat) :
    Consistent protocol ⟨session.view m.table, m.sessions.erase i, events⟩ where
  keeps {j other} stored' := by
    rw [BTreeMap.getElem?_erase] at stored'
    split at stored'
    · cases stored'
    next different =>
      have kept := consistent.keeps stored'
      have apart := consistent.apart stored' stored (Ne.symm different)
      refine ⟨fun k member => ?_, fun entry member => ?_, fun entry member k row seen other => ?_,
        fun entry member row seen => ?_, kept.apart, kept.same⟩
      · exact (kept.locked k member).imp_left fun there => BTreeMap.mem_overlay_iff.mpr (.inr there)
      · refine (kept.placed entry member).imp_right fun absent there => ?_
        obtain written | old := BTreeMap.mem_overlay_iff.mp there
        · obtain ⟨mine, listed, same⟩ := List.mem_map.mp written
          have clash := apart.unclashing entry member mine listed
          simp [Protocol.clash, same] at clash
        · exact absent old
      · obtain own | ⟨-, old⟩ := BTreeMap.overlay_cases seen
        · exact apart.unclashing entry member _ own
        · exact kept.fits entry member k row old other
      · obtain own | ⟨-, old⟩ := BTreeMap.overlay_cases seen
        · have clash := apart.unclashing entry member _ own
          simp [Protocol.clash] at clash
        · exact kept.indexed entry member row old
  apart := (consistent.remove i events).apart
  unique {k k' row row'} seen seen' different := by
    have kept := consistent.keeps stored
    obtain own | ⟨-, old⟩ := BTreeMap.overlay_cases seen <;>
      obtain own' | ⟨-, old'⟩ := BTreeMap.overlay_cases seen'
    · exact kept.apart _ own _ own' different
    · exact kept.fits _ own k' row' old' different
    · exact Protocol.clash_comm.trans (kept.fits _ own' k row old different.symm)
    · exact consistent.unique old old' different

end Database
