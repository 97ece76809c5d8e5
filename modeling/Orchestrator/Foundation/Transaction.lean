import Orchestrator.Foundation.Machine
import Orchestrator.Foundation.OrderedMap

/-!
# Transactions that lock rows

A database runs the transactions of several sessions, one statement at a time and in
any order. A row that is read for an update stays locked until the transaction ends;
another session that wants the row waits, or leaves it out. Writes become visible when
their transaction commits. An insertion waits for the uncommitted rows that it would
clash with. A session may be lost at any moment, which rolls its transaction back.
-/

/-- A transaction: its next statement, and what follows on each result of it. -/
inductive Transaction (κ ρ α : Type) where
  | commit (answer : α)
  | rollback (answer : α)
  /-- Locks a row that passes the test. -/
  | lock (p : κ → ρ → Bool) (next : Option (κ × ρ) → Transaction κ ρ α)
  /-- Locks rows that are chosen among those nobody else has locked. -/
  | lockFree (choose : List (κ × ρ) → List (κ × ρ)) (among : ∀ rows, choose rows ⊆ rows)
      (next : List (κ × ρ) → Transaction κ ρ α)
  /-- Writes a row that passes the guard, and tells whether there was one. -/
  | update (k : κ) (guard : ρ → Bool) (row : ρ) (next : Bool → Transaction κ ρ α)
  /-- Inserts a row unless it clashes with one that is there, and tells whether it did. -/
  | insert (k : κ) (row : ρ) (next : Bool → Transaction κ ρ α)

/-- The calls that sessions make, each a transaction, and the unique index of the table,
in which a row has at most one entry. -/
structure Protocol (κ ρ ι γ α : Type) where
  program : γ → Transaction κ ρ α
  index : ρ → Option ι

/-- Where a transaction stands: the statements that are left, the rows it has locked, what it
has written, in order, and the count of events at its last statement. -/
structure Stage (κ ρ α : Type) where
  rest : Transaction κ ρ α
  held : List κ
  writes : List (κ × ρ)
  clock : Nat

/-- A session within the transaction of its call, with the count of events at its start. -/
structure Session (κ ρ γ α : Type) extends Stage κ ρ α where
  call : γ
  began : Nat

/-- The committed table, the sessions within a transaction, and the count of events. -/
structure Database (κ ρ γ α : Type) [Ord κ] where
  table : BTreeMap κ ρ
  sessions : BTreeMap Nat (Session κ ρ γ α)
  events : Nat

/-- What may happen: a session starts a call, it goes on with its next statement, or it is
lost with all that it has written. A commit and its answer are one event. -/
inductive SessionEvent (γ : Type) where
  | start (i : Nat) (call : γ)
  | proceed (i : Nat)
  | abort (i : Nat)

variable {κ ρ ι γ α : Type} [Ord κ] [Std.TransOrd κ] [DecidableEq κ] [DecidableEq ι]

/-- Two rows that no table holds together: they have one key, or one entry in the index. -/
def Protocol.clash (protocol : Protocol κ ρ ι γ α) (a b : κ × ρ) : Bool :=
  a.1 == b.1 || (protocol.index a.2).any fun entry => protocol.index b.2 == some entry

/-- The table with the rows that were written. -/
def BTreeMap.overlay (table : BTreeMap κ ρ) (writes : List (κ × ρ)) : BTreeMap κ ρ :=
  writes.foldl (fun table entry => table.insert entry.1 entry.2) table

/-- The table as the transaction sees it. -/
def Stage.view (stage : Stage κ ρ α) (table : BTreeMap κ ρ) : BTreeMap κ ρ :=
  table.overlay stage.writes

namespace Database

variable (m : Database κ ρ γ α)

/-- Another session has locked the row. -/
def lockedElsewhere (i : Nat) (k : κ) : Bool :=
  m.sessions.toList.any fun entry => entry.1 != i && entry.2.held.contains k

/-- Another session has written a row that clashes with this one. -/
def clashesElsewhere (protocol : Protocol κ ρ ι γ α) (i : Nat) (entry : κ × ρ) : Bool :=
  m.sessions.toList.any fun other =>
    other.1 != i && other.2.writes.any (protocol.clash entry)

/-- The session after its next statement; absent where the statement waits, and at the end
of the transaction. -/
def advance (protocol : Protocol κ ρ ι γ α) (i : Nat) (session : Session κ ρ γ α) :
    Option (Session κ ρ γ α) :=
  match session.rest with
  | .commit _ | .rollback _ => none
  | .lock p next =>
    match (session.view m.table).toList.find? fun entry => p entry.1 entry.2 with
    | none => some { session with rest := next none, clock := m.events }
    | some (k, row) =>
      if m.lockedElsewhere i k then none
      else
        some { session with
          rest := next (some (k, row)), held := k :: session.held, clock := m.events }
  | .lockFree choose _ next =>
    let rows := choose ((session.view m.table).toList.filter fun entry =>
      !m.lockedElsewhere i entry.1)
    some { session with
      rest := next rows, held := rows.map Prod.fst ++ session.held, clock := m.events }
  | .update k guard row next =>
    match (session.view m.table)[k]? with
    | none => some { session with rest := next false, clock := m.events }
    | some old =>
      if !guard old then some { session with rest := next false, clock := m.events }
      else if m.lockedElsewhere i k then none
      else
        some { session with
          rest := next true, held := k :: session.held
          writes := session.writes ++ [(k, row)], clock := m.events }
  | .insert k row next =>
    if m.clashesElsewhere protocol i (k, row) then none
    else if (session.view m.table).toList.any (protocol.clash (k, row)) then
      some { session with rest := next false, clock := m.events }
    else
      some { session with
        rest := next true, writes := session.writes ++ [(k, row)], clock := m.events }

/-- One event, with the answer of the call that it ends. -/
def step (protocol : Protocol κ ρ ι γ α) (m : Database κ ρ γ α) :
    SessionEvent γ → Option α × Database κ ρ γ α
  | .start i call =>
    let sessions :=
      if m.sessions.contains i then m.sessions
      else m.sessions.insert i ⟨⟨protocol.program call, [], [], m.events⟩, call, m.events⟩
    (none, { m with sessions, events := m.events + 1 })
  | .proceed i =>
    match m.sessions[i]? with
    | none => (none, { m with events := m.events + 1 })
    | some session =>
      match session.rest with
      | .commit answer =>
        (some answer, ⟨session.view m.table, m.sessions.erase i, m.events + 1⟩)
      | .rollback answer => (some answer, ⟨m.table, m.sessions.erase i, m.events + 1⟩)
      | _ =>
        match m.advance protocol i session with
        | none => (none, { m with events := m.events + 1 })
        | some session =>
          (none, ⟨m.table, m.sessions.insert i session, m.events + 1⟩)
  | .abort i => (none, ⟨m.table, m.sessions.erase i, m.events + 1⟩)

end Database

/-- The database, starting with an empty table and no sessions. -/
def database (protocol : Protocol κ ρ ι γ α) :
    Machine (Database κ ρ γ α) (SessionEvent γ) (Option α) :=
  ⟨⟨∅, ∅, 0⟩, Database.step protocol⟩
