import Orchestrator.Foundation.Interleaving

/-!
# Transactions alone

What a transaction does where no other session is in progress: each statement sees the
committed table with its own writes, and none waits.
-/

variable {κ ρ ι γ α : Type} [Ord κ]

namespace Database

variable {table : BTreeMap κ ρ} {i : Nat} {session : Session κ ρ γ α}

/-- Only this session is in progress. -/
def solo (table : BTreeMap κ ρ) (i : Nat) (session : Session κ ρ γ α) (events : Nat) :
    Database κ ρ γ α :=
  ⟨table, (∅ : BTreeMap Nat (Session κ ρ γ α)).insert i session, events⟩

theorem solo_there (table : BTreeMap κ ρ) (i : Nat) (session : Session κ ρ γ α) (events : Nat) :
    (solo table i session events).sessions[i]? = some session := by
  rw [solo, BTreeMap.getElem?_insert, if_pos rfl]

theorem solo_erase (table : BTreeMap κ ρ) (i : Nat) (session : Session κ ρ γ α) (events : Nat) :
    (solo table i session events).sessions.erase i = ∅ := by
  apply Std.ExtTreeMap.ext_getElem?
  intro j
  rw [solo, BTreeMap.getElem?_erase, BTreeMap.getElem?_insert]
  split <;> simp

variable [DecidableEq κ] [DecidableEq ι] {protocol : Protocol κ ρ ι γ α}

theorem solo_free (events : Nat) (k : κ) :
    (solo table i session events).lockedElsewhere i k = false := by
  refine lockedElsewhere_iff.mpr fun j other stored different => ?_
  rw [solo, BTreeMap.getElem?_insert_ne different.symm] at stored
  simp at stored

theorem solo_fits (events : Nat) (entry : κ × ρ) :
    (solo table i session events).clashesElsewhere protocol i entry = false := by
  refine clashesElsewhere_iff.mpr fun j other stored different => ?_
  rw [solo, BTreeMap.getElem?_insert_ne different.symm] at stored
  simp at stored

end Database

variable [Std.TransOrd κ] [DecidableEq κ] [DecidableEq ι]

/-- The answer of a transaction that runs alone on a table, with the table that it leaves. -/
def Transaction.alone (protocol : Protocol κ ρ ι γ α) (table : BTreeMap κ ρ) :
    Transaction κ ρ α → List (κ × ρ) → α × BTreeMap κ ρ
  | .commit answer, writes => (answer, table.overlay writes)
  | .rollback answer, _ => (answer, table)
  | .lock p next, writes =>
    (next ((table.overlay writes).toList.find? fun entry => p entry.1 entry.2)).alone protocol
      table writes
  | .lockFree choose _ next, writes =>
    (next (choose (table.overlay writes).toList)).alone protocol table writes
  | .update k guard row next, writes =>
    if (table.overlay writes)[k]?.any guard then
      (next true).alone protocol table (writes ++ [(k, row)])
    else (next false).alone protocol table writes
  | .insert k row next, writes =>
    if (table.overlay writes).toList.any (protocol.clash (k, row)) then
      (next false).alone protocol table writes
    else (next true).alone protocol table (writes ++ [(k, row)])

namespace Database

variable {protocol : Protocol κ ρ ι γ α} {table : BTreeMap κ ρ} {i : Nat}
variable {session : Session κ ρ γ α}

/-- A statement of the one session is carried out. -/
theorem solo_next {events : Nat} {session' : Session κ ρ γ α}
    (unended : ∀ answer, session.rest ≠ .commit answer ∧ session.rest ≠ .rollback answer)
    (advances : (solo table i session events).advance protocol i session = some session') :
    (database protocol).next (solo table i session events) (.proceed i) =
      solo table i session' (events + 1) := by
  change (step protocol (solo table i session events) (.proceed i)).2 = _
  simp only [step, solo_there]
  split
  next answer rest => exact absurd rest (unended answer).1
  next answer rest => exact absurd rest (unended answer).2
  · rw [advances]
    refine congrArg (fun sessions => Database.mk table sessions (events + 1)) ?_
    apply Std.ExtTreeMap.ext_getElem?
    intro j
    simp only [solo, BTreeMap.getElem?_insert]
    split <;> rfl

/-- The one session ends with the answer, and leaves the table. -/
def Ends (protocol : Protocol κ ρ ι γ α) (table : BTreeMap κ ρ) (i : Nat)
    (session : Session κ ρ γ α) (events : Nat) (result : α × BTreeMap κ ρ) : Prop :=
  ∃ n, (database protocol).answer ((database protocol).run (solo table i session events)
      (List.replicate n (.proceed i))) (.proceed i) = some result.1 ∧
    (database protocol).next ((database protocol).run (solo table i session events)
      (List.replicate n (.proceed i))) (.proceed i) = ⟨result.2, ∅, events + n + 1⟩

theorem Ends.step {events : Nat} {session' : Session κ ρ γ α} {result : α × BTreeMap κ ρ}
    (ends : Ends protocol table i session' (events + 1) result)
    (unended : ∀ answer, session.rest ≠ .commit answer ∧ session.rest ≠ .rollback answer)
    (advances : (solo table i session events).advance protocol i session = some session') :
    Ends protocol table i session events result := by
  obtain ⟨n, answer, next⟩ := ends
  refine ⟨n + 1, ?_⟩
  rw [List.replicate_succ, Machine.run_cons, solo_next unended advances, answer, next]
  refine ⟨rfl, ?_⟩
  rw [show events + 1 + n + 1 = events + (n + 1) + 1 by omega]

/-- A session that is alone ends as its transaction does alone. -/
theorem solo_ends (t : Transaction κ ρ α) (session : Session κ ρ γ α) (rest : session.rest = t)
    (events : Nat) :
    Ends protocol table i session events (t.alone protocol table session.writes) := by
  induction t generalizing session events with
  | commit answer =>
      refine ⟨0, ?_⟩
      change (step protocol (solo table i session events) (.proceed i)).1 = _ ∧
        (step protocol (solo table i session events) (.proceed i)).2 = _
      simp only [step, solo_there, solo_erase, rest]
      exact ⟨rfl, rfl⟩
  | rollback answer =>
      refine ⟨0, ?_⟩
      change (step protocol (solo table i session events) (.proceed i)).1 = _ ∧
        (step protocol (solo table i session events) (.proceed i)).2 = _
      simp only [step, solo_there, solo_erase, rest]
      exact ⟨rfl, rfl⟩
  | lock p next ih =>
      rw [Transaction.alone]
      cases found : (table.overlay session.writes).toList.find? fun entry => p entry.1 entry.2 with
      | none =>
          have located : ((session.view (solo table i session events).table).toList.find?
              fun entry => p entry.1 entry.2) = none := found
          apply Ends.step (ih none { session with rest := next none, clock := events } rfl _)
          · simp [rest]
          · simp only [advance, rest, located]
            rfl
      | some entry =>
          obtain ⟨k, row⟩ := entry
          have located : ((session.view (solo table i session events).table).toList.find?
              fun entry => p entry.1 entry.2) = some (k, row) := found
          apply Ends.step (ih (some (k, row)) { session with
            rest := next (some (k, row)), held := k :: session.held, clock := events } rfl _)
          · simp [rest]
          · simp only [advance, rest, located, solo_free]
            rfl
  | lockFree choose among next ih =>
      have free : ((session.view (solo table i session events).table).toList.filter fun entry =>
          !(solo table i session events).lockedElsewhere i entry.1) =
            (table.overlay session.writes).toList := by
        refine List.filter_eq_self.mpr fun entry _ => ?_
        rw [solo_free]
        rfl
      rw [Transaction.alone]
      apply Ends.step (ih (choose (table.overlay session.writes).toList) { session with
        rest := next (choose (table.overlay session.writes).toList)
        held := (choose (table.overlay session.writes).toList).map Prod.fst ++ session.held
        clock := events } rfl _)
      · simp [rest]
      · simp only [advance, rest, free]
        rfl
  | update k guard row next ih =>
      rw [Transaction.alone]
      cases found : (table.overlay session.writes)[k]? with
      | none =>
          have located : (session.view (solo table i session events).table)[k]? = none := found
          apply Ends.step (ih false { session with rest := next false, clock := events } rfl _)
          · simp [rest]
          · simp only [advance, rest, located]
            rfl
      | some old =>
          have located : (session.view (solo table i session events).table)[k]? = some old := found
          cases passes : guard old with
          | false =>
              rw [Option.any_some, passes]
              apply Ends.step (ih false { session with rest := next false, clock := events } rfl _)
              · simp [rest]
              · simp only [advance, rest, located, passes]
                rfl
          | true =>
              rw [Option.any_some, passes]
              apply Ends.step (ih true { session with
                rest := next true, held := k :: session.held
                writes := session.writes ++ [(k, row)], clock := events } rfl _)
              · simp [rest]
              · simp only [advance, rest, located, passes, solo_free]
                rfl
  | insert k row next ih =>
      rw [Transaction.alone]
      cases clashes : (table.overlay session.writes).toList.any (protocol.clash (k, row)) with
      | true =>
          have there : (session.view (solo table i session events).table).toList.any
              (protocol.clash (k, row)) = true := clashes
          apply Ends.step (ih false { session with rest := next false, clock := events } rfl _)
          · simp [rest]
          · simp only [advance, rest, solo_fits, there]
            rfl
      | false =>
          have fits : (session.view (solo table i session events).table).toList.any
              (protocol.clash (k, row)) = false := clashes
          apply Ends.step (ih true { session with
            rest := next true, writes := session.writes ++ [(k, row)], clock := events } rfl _)
          · simp [rest]
          · simp only [advance, rest, solo_fits, fits]
            rfl

/-- A call that starts where no session is in progress runs alone. -/
theorem ends_alone (protocol : Protocol κ ρ ι γ α) {acts : List (SessionEvent γ)} (call : γ)
    (idle : ((database protocol).after acts).sessions = ∅) : ∃ n,
    (database protocol).answer
        ((database protocol).after (acts ++ .start i call :: List.replicate n (.proceed i)))
        (.proceed i) =
      some ((protocol.program call).alone protocol ((database protocol).after acts).table []).1 ∧
    ((database protocol).after
        (acts ++ .start i call :: List.replicate (n + 1) (.proceed i))).table =
      ((protocol.program call).alone protocol ((database protocol).after acts).table []).2 ∧
    ((database protocol).after
        (acts ++ .start i call :: List.replicate (n + 1) (.proceed i))).sessions = ∅ := by
  generalize now : (database protocol).after acts = m at idle
  have started : (database protocol).next m (.start i call) =
      solo m.table i ⟨⟨protocol.program call, [], [], m.events⟩, call, m.events⟩ (m.events + 1) := by
    change (step protocol m (.start i call)).2 = _
    simp only [step, idle]
    rfl
  have ends : Ends protocol m.table i ⟨⟨protocol.program call, [], [], m.events⟩, call, m.events⟩
      (m.events + 1) ((protocol.program call).alone protocol m.table []) := solo_ends _ _ rfl _
  obtain ⟨n, answer, next⟩ := ends
  refine ⟨n, ?_⟩
  rw [Machine.after_append, Machine.after_append, now, Machine.run_cons, Machine.run_cons, started,
    List.replicate_succ', Machine.run_append]
  refine ⟨answer, ?_, ?_⟩
  · exact congrArg Database.table next
  · exact congrArg Database.sessions next

end Database
