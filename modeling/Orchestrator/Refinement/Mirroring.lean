import Orchestrator.Refinement.Tracking

/-!
# Records that mirror each other
-/

namespace Orchestrator

/-- The runs are equal up to revisions and the times of next attempts, under renamings that
keep the order of the tokens and of the sequences. -/
def RunRecord.Mirrors (m p : RunRecord) : Prop :=
  ∃ ρ σ : UInt64 → UInt64, m.renamed ρ σ = p.renamed keep keep ∧ m.SameMetrics p ∧
    (∀ a b, m.Issued a → m.Issued b → a < b → ρ a < ρ b) ∧
    ∀ e ∈ m.eventLog, ∀ e' ∈ m.eventLog, e.sequence < e'.sequence → σ e.sequence < σ e'.sequence

/-- Both repositories know the same runs, and their records mirror each other. -/
def Refines (store : PostgresRunStore) (s : Repository) (t : Table) : Prop :=
  ∀ k : RunId, s.runs[k]? = none ∧ t[k]? = none ∨
    ∃ (m : RunRecord) (row : Row) (p : RunRecord), s.runs[k]? = some m ∧ t[k]? = some row ∧
      store.readPayload row.payload = .ok p ∧ m.Mirrors p

namespace RunRecord

variable {m p : RunRecord} {ρ : UInt64 → UInt64} {top : UInt64}

/-- Matching runs are equal under every renaming of the sequences that makes them equal. -/
theorem Matches.renamed_eq (same : m.Matches ρ p) {σ : UInt64 → UInt64}
    (sequences : m.eventLog.map (fun envelope => σ envelope.sequence) =
      p.eventLog.map EventEnvelope.sequence) : m.renamed ρ σ = p.renamed keep keep := by
  have logs := congrArg RunRecord.eventLog same
  have log : m.eventLog.map (EventEnvelope.renamed σ) =
      p.eventLog.map (EventEnvelope.renamed keep) := by
    simp only [renamed] at logs
    have length : m.eventLog.length = p.eventLog.length := by
      simpa using congrArg List.length logs
    refine List.ext_getElem (by simpa using length) fun i bound bound' => ?_
    rw [List.length_map] at bound bound'
    have numbers := List.getElem_of_eq sequences (by simpa using bound)
    have rest := List.getElem_of_eq logs (by simpa using bound)
    rw [List.getElem_map, List.getElem_map] at numbers rest ⊢
    simp only [EventEnvelope.renamed, EventEnvelope.mk.injEq] at rest ⊢
    exact ⟨rest.1, trivial, numbers, rest.2.2.2⟩
  have whole : ∀ (run : RunRecord) ρ σ, run.renamed ρ σ =
      { run.renamed ρ (fun _ => 0) with eventLog := run.eventLog.map (EventEnvelope.renamed σ) } :=
    fun _ _ _ => rfl
  rw [whole m, whole p, same, log]

/-- Matching runs with numbered logs mirror each other. -/
theorem Matches.mirrors (same : m.Matches ρ p) (metrics : m.SameMetrics p)
    (increasing : ∀ a b, m.Issued a → m.Issued b → a < b → ρ a < ρ b)
    (numbered : Cursor.Numbered EventEnvelope.sequence 0 m.eventLog)
    (numbered' : Cursor.Numbered EventEnvelope.sequence 0 p.eventLog) : m.Mirrors p := by
  have logs := congrArg (fun run : RunRecord => run.eventLog.length) same
  simp only [renamed, List.length_map] at logs
  have ordered : (m.eventLog.map EventEnvelope.sequence).Pairwise (· < ·) :=
    List.pairwise_map.mpr numbered.1
  have ordered' : (p.eventLog.map EventEnvelope.sequence).Pairwise (· < ·) :=
    List.pairwise_map.mpr numbered'.1
  obtain ⟨σ, mapped, order⟩ := List.exists_map_eq_of_pairwise
    (fun _ _ less => UInt64.not_lt.mpr (UInt64.le_of_lt less)) keep ordered ordered'
    (by simpa using logs)
  refine ⟨ρ, σ, same.renamed_eq ?_, metrics, increasing, ?_⟩
  · rw [← mapped, List.map_map]
    rfl
  · exact fun e member e' member' =>
      order _ (List.mem_map_of_mem member) _ (List.mem_map_of_mem member')

/-- Reading a record back does not lose its log. -/
theorem Streamed.read {run run' : RunRecord} (streamed : run.Streamed)
    (read : Json.fromValue (Json.toValue run) = some run') : run'.Streamed := by
  rw [eq_of_fromValue_runRecord read]
  exact ⟨streamed.payloads, streamed.own, streamed.built, streamed.consecutive⟩

end RunRecord

section Tracked

variable {store : PostgresRunStore} {F : RunId → UInt64 → UInt64} {ops : List Op} {ops' : List PgOp}

/-- The logs of a tracked row and of its run are numbered as long as the events of the
repository can be. -/
theorem Tracks.numbered {k : RunId} {m p : RunRecord} {row : Row}
    (room : (repository.after ops).events.length ≤ UInt64.maxNat)
    (found : (repository.after ops).runs[k]? = some m)
    (there : ((postgres store).after ops')[k]? = some row) (read : store.ReadAs row p)
    (same : m.Matches (F k) p) : Cursor.Numbered EventEnvelope.sequence 0 m.eventLog ∧
      Cursor.Numbered EventEnvelope.sequence 0 p.eventLog := by
  have counted := Repository.counted_after ops room
  have each : Table.Each RunRecord.Streamed ((postgres store).after ops') :=
    PostgresRunStore.each_after (fun request now eventNow _ => .created request now eventNow)
      (fun back streamed => streamed.read back) (fun turn streamed => turn.streamed streamed) ops'
  obtain ⟨-, -, streamed⟩ := PostgresRunStore.each_decoded each (fun back streamed =>
    streamed.read back) there read.decoded
  refine ⟨counted.streams.numbered k m found, (streamed.consecutive ?_).numbered⟩
  have logs := congrArg (fun run : RunRecord => run.eventLog.length) same
  simp only [RunRecord.renamed, List.length_map] at logs
  have logged := counted.log k
  rw [Repository.log, found, Option.elim_some] at logged
  rw [← logs, logged]
  exact (List.length_filter_le _ _).trans room

/-- A tracked row mirrors its run. -/
theorem Tracks.refines
    (tracks : Tracks store F (repository.after ops) ((postgres store).after ops'))
    (room : (repository.after ops).events.length ≤ UInt64.maxNat) :
    Refines store (repository.after ops) ((postgres store).after ops') := by
  intro k
  obtain missing | ⟨m, row, p, found, there, read, alike⟩ := tracks k
  · exact .inl missing
  · obtain ⟨numbered, numbered'⟩ := Tracks.numbered room found there read alike.same
    exact .inr ⟨m, row, p, found, there, read.decoded,
      alike.same.mirrors alike.metrics alike.increasing numbered numbered'⟩

/-- Runs that are answered together mirror each other. -/
theorem Answered.mirrors {a b : RunRecord}
    (answered : Answered store F (repository.after ops) ((postgres store).after ops') a b)
    (tracks : Tracks store F (repository.after ops) ((postgres store).after ops'))
    (room : (repository.after ops).events.length ≤ UInt64.maxNat) : a.Mirrors b := by
  obtain ⟨k, m, row, q, found, there, read, rfl, log, same, metrics⟩ := answered
  obtain ⟨row', p, there', read', alike⟩ := tracks.present found
  obtain rfl := Option.some.inj (there.symm.trans there')
  obtain rfl := Except.ok.inj (read.decoded.symm.trans read'.decoded)
  obtain ⟨numbered, numbered'⟩ := Tracks.numbered room found there read alike.same
  exact same.mirrors metrics alike.increasing numbered (log ▸ numbered')

end Tracked

end Orchestrator
