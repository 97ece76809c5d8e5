import Orchestrator.Foundation.Locking

/-!
# Interleaved transactions

A lawful protocol keeps its rows good and leaves the index entry of a row alone when it
updates it. In every history of such a protocol each transaction reads as if it ran at once,
at the moment of its commit, and no two committed rows clash. Where no transaction waits
while it holds a lock or has written a row, the sessions never wait for each other in a
circle.
-/

variable {κ ρ ι γ α : Type}

namespace Transaction

/-- The next statement waits where another session is in the way. -/
def Waits (held : List κ) : Transaction κ ρ α → Prop
  | .lock _ _ | .insert _ _ _ => True
  | .update k _ _ _ => k ∉ held
  | _ => False

/-- What may be left of a transaction after its next statement. -/
inductive Next : Transaction κ ρ α → Transaction κ ρ α → Prop where
  | lock {p : κ → ρ → Bool} (next : Option (κ × ρ) → Transaction κ ρ α)
      (found : Option (κ × ρ)) : Next (.lock p next) (next found)
  | lockFree {choose : List (κ × ρ) → List (κ × ρ)} {among : ∀ rows, choose rows ⊆ rows}
      (next : List (κ × ρ) → Transaction κ ρ α) (rows : List (κ × ρ)) :
      Next (.lockFree choose among next) (next rows)
  | update {k : κ} {guard : ρ → Bool} {row : ρ} (next : Bool → Transaction κ ρ α)
      (written : Bool) : Next (.update k guard row next) (next written)
  | insert {k : κ} {row : ρ} (next : Bool → Transaction κ ρ α) (written : Bool) :
      Next (.insert k row next) (next written)

/-- A transaction ends after finitely many statements. -/
theorem acc (t : Transaction κ ρ α) : Acc (fun rest t : Transaction κ ρ α => t.Next rest) t := by
  induction t with
  | commit | rollback => exact ⟨_, fun _ next => by cases next⟩
  | lock p next ih | lockFree choose among next ih | update k guard row next ih
  | insert k row next ih =>
      refine ⟨_, fun rest next => ?_⟩
      cases next
      exact ih _

end Transaction

namespace Database

variable [Ord κ] {m : Database κ ρ γ α} {i : Nat} {session : Session κ ρ γ α}

/-- The session holds a lock or has written a row, or none of the others does. -/
def Foremost (m : Database κ ρ γ α) (i : Nat) (session : Session κ ρ γ α) : Prop :=
  session.held = [] ∧ session.writes = [] → ∀ (j : Nat) (other : Session κ ρ γ α),
    m.sessions[j]? = some other → j ≠ i → other.held = [] ∧ other.writes = []

/-- Where there are sessions, one of them is foremost. -/
theorem exists_foremost (busy : m.sessions ≠ ∅) :
    ∃ i session, m.sessions[i]? = some session ∧ m.Foremost i session := by
  by_cases holding : ∃ (i : Nat) (session : Session κ ρ γ α), m.sessions[i]? = some session ∧
      ¬ (session.held = [] ∧ session.writes = [])
  · obtain ⟨i, session, stored, holds⟩ := holding
    exact ⟨i, session, stored, fun empty => absurd empty holds⟩
  · have idle : ∀ (j : Nat) (other : Session κ ρ γ α), m.sessions[j]? = some other →
        other.held = [] ∧ other.writes = [] :=
      fun j other stored => by_contra fun holds => holding ⟨j, other, stored, holds⟩
    rw [ne_eq, Std.ExtTreeMap.eq_empty_iff_forall_not_mem, not_forall] at busy
    obtain ⟨i, there⟩ := busy
    obtain ⟨session, stored⟩ := Option.isSome_iff_exists.mp
      (Std.ExtTreeMap.mem_iff_isSome_getElem?.mp (not_not.mp there))
    exact ⟨i, session, stored, fun _ j other stored' _ => idle j other stored'⟩

end Database

variable [Ord κ] [Std.TransOrd κ] [DecidableEq κ] [DecidableEq ι]

namespace Database

variable {protocol : Protocol κ ρ ι γ α} {m : Database κ ρ γ α} {acts : List (SessionEvent γ)}
variable {act : SessionEvent γ} {i : Nat} {session session' : Session κ ρ γ α}

/-- This was the committed table after so many events, of which the session began after the
first ones. -/
def Been (protocol : Protocol κ ρ ι γ α) (acts : List (SessionEvent γ)) (began n : Nat)
    (table : BTreeMap κ ρ) : Prop :=
  began ≤ n ∧ n ≤ acts.length ∧ ((database protocol).after (acts.take n)).table = table

theorem Been.later {began n : Nat} {table : BTreeMap κ ρ}
    (been : Been protocol acts began n table) (act : SessionEvent γ) :
    Been protocol (acts ++ [act]) began n table := by
  obtain ⟨since, before, same⟩ := been
  refine ⟨since, ?_, ?_⟩
  · rw [List.length_append]
    omega
  · rwa [List.take_append_of_le_length before]

theorem been_now {began : Nat} (since : began ≤ acts.length) :
    Been protocol acts began acts.length ((database protocol).after acts).table :=
  ⟨since, Nat.le_refl _, by rw [List.take_length]⟩

/-- A statement finds what it finds in the table as it is. -/
theorem Advances.moves (h : m.Advances protocol i session session')
    {past : Nat → BTreeMap κ ρ → Prop} (now : past m.events m.table)
    (since : session.clock ≤ m.events) :
    protocol.Moves m.table past session.toStage session'.toStage := by
  cases h with
  | found rest seen passes free => exact .found rest seen passes since
  | missing rest absent => exact .missing rest now absent since
  | chosen rest distinct seen unlocked => exact .chosen rest distinct seen since
  | updated rest seen passes free => exact .updated rest seen passes since
  | refused rest fails => exact .refused rest now fails (fun _ => rfl) since
  | inserted rest fits pending => exact .inserted rest fits since
  | present rest there clashes => exact .present rest now there clashes since

theorem Advances.same (h : m.Advances protocol i session session') :
    session'.call = session.call ∧ session'.began = session.began ∧ session'.clock = m.events := by
  cases h <;> exact ⟨rfl, rfl, rfl⟩

theorem started_later {n : Nat} {first : SessionEvent γ} (h : acts[n]? = some first) :
    (acts ++ [act])[n]? = some first :=
  (List.getElem?_append_left (List.getElem?_eq_some_iff.mp h).1).trans h

theorem Foremost.advance (foremost : m.Foremost i session) (events : Nat)
    (advances : m.Advances protocol i session session') :
    Foremost ⟨m.table, m.sessions.insert i session', events⟩ i session' := by
  intro empty j other stored different
  rw [BTreeMap.getElem?_insert_ne different.symm] at stored
  refine foremost ?_ j other stored different
  cases advances <;> simp_all

/-- What an event does to the committed table: nothing, unless it answers a call. A call
that is answered commits what it wrote, or has left the table alone. -/
theorem answer_cases (protocol : Protocol κ ρ ι γ α) (m : Database κ ρ γ α) (act : SessionEvent γ) :
    ((database protocol).answer m act = none ∧ ((database protocol).next m act).table = m.table) ∨
      ∃ i session answer, act = .proceed i ∧ m.sessions[i]? = some session ∧
        (database protocol).answer m act = some answer ∧
        (session.rest = .commit answer ∧
            ((database protocol).next m act).table = session.view m.table ∨
          session.rest = .rollback answer ∧ ((database protocol).next m act).table = m.table) := by
  change ((step protocol m act).1 = none ∧ (step protocol m act).2.table = m.table) ∨
    ∃ i session answer, act = .proceed i ∧ m.sessions[i]? = some session ∧
      (step protocol m act).1 = some answer ∧
      (session.rest = .commit answer ∧ (step protocol m act).2.table = session.view m.table ∨
        session.rest = .rollback answer ∧ (step protocol m act).2.table = m.table)
  cases act with
  | start i call => exact .inl ⟨rfl, rfl⟩
  | abort i => exact .inl ⟨rfl, rfl⟩
  | proceed i =>
      simp only [step]
      split
      · exact .inl ⟨rfl, rfl⟩
      next session stored =>
        split
        next answer rest =>
          exact .inr ⟨i, session, answer, rfl, stored, rfl, .inl ⟨rest, rfl⟩⟩
        next answer rest =>
          exact .inr ⟨i, session, answer, rfl, stored, rfl, .inr ⟨rest, rfl⟩⟩
        · split <;> exact .inl ⟨rfl, rfl⟩

end Database

/-- A protocol whose transactions keep the rows good, and leave the index entry of a row as it
is when they update it. -/
structure Protocol.Lawful (protocol : Protocol κ ρ ι γ α) (Good : κ → ρ → Prop) : Prop where
  update : ∀ {table : BTreeMap κ ρ} {past : Nat → BTreeMap κ ρ → Prop} {call : γ} {began : Nat}
    {stage : Stage κ ρ α} {k : κ} {guard : ρ → Bool} {row old : ρ}
    {next : Bool → Transaction κ ρ α}, (∀ k row, table[k]? = some row → Good k row) →
      protocol.Reaches table past (protocol.start call began) stage →
      stage.rest = .update k guard row next → (stage.view table)[k]? = some old →
      guard old = true → Good k row ∧ protocol.index row = protocol.index old
  insert : ∀ {table : BTreeMap κ ρ} {past : Nat → BTreeMap κ ρ → Prop} {call : γ} {began : Nat}
    {stage : Stage κ ρ α} {k : κ} {row : ρ} {next : Bool → Transaction κ ρ α},
      (∀ k row, table[k]? = some row → Good k row) →
      protocol.Reaches table past (protocol.start call began) stage →
      stage.rest = .insert k row next → Good k row

/-- On good rows, no transaction waits while it holds a lock or has written a row. -/
def Protocol.Patient (protocol : Protocol κ ρ ι γ α) (Good : κ → ρ → Prop) : Prop :=
  ∀ {table : BTreeMap κ ρ} {past : Nat → BTreeMap κ ρ → Prop} {call : γ} {began : Nat}
    {stage : Stage κ ρ α}, (∀ k row, table[k]? = some row → Good k row) →
      protocol.Reaches table past (protocol.start call began) stage →
      stage.rest.Waits stage.held → stage.held = [] ∧ stage.writes = []

namespace Database

variable {protocol : Protocol κ ρ ι γ α} {Good : κ → ρ → Prop}
variable {m : Database κ ρ γ α} {acts : List (SessionEvent γ)} {act : SessionEvent γ}
variable {i : Nat} {session session' : Session κ ρ γ α}

/-- What holds after a history: the locks are in order, and each transaction has read rows
that are still as it read them. -/
structure Sound (protocol : Protocol κ ρ ι γ α) (Good : κ → ρ → Prop)
    (acts : List (SessionEvent γ)) (m : Database κ ρ γ α) : Prop where
  consistent : m.Consistent protocol
  counted : m.events = acts.length
  good : ∀ k row, m.table[k]? = some row → Good k row
  written : ∀ {j : Nat} {other : Session κ ρ γ α}, m.sessions[j]? = some other →
    ∀ entry ∈ other.writes, Good entry.1 entry.2
  began : ∀ {j : Nat} {other : Session κ ρ γ α}, m.sessions[j]? = some other →
    other.began ≤ acts.length ∧ other.clock ≤ acts.length
  started : ∀ {j : Nat} {other : Session κ ρ γ α}, m.sessions[j]? = some other →
    acts[other.began]? = some (.start j other.call)
  reaches : ∀ {j : Nat} {other : Session κ ρ γ α}, m.sessions[j]? = some other →
    protocol.Reaches m.table (Been protocol acts other.began)
      (protocol.start other.call other.began)
      other.toStage

/-- The next statement of the session waits for what another session holds or has written. -/
def Waiting (protocol : Protocol κ ρ ι γ α) (m : Database κ ρ γ α) (i : Nat)
    (session : Session κ ρ γ α) : Prop :=
  m.advance protocol i session = none ∧
    ∀ answer, session.rest ≠ .commit answer ∧ session.rest ≠ .rollback answer

/-- A session waits only where it may. -/
theorem Waiting.waits (waiting : m.Waiting protocol i session) (sound : m.Sound protocol Good acts)
    (stored : m.sessions[i]? = some session) : session.rest.Waits session.held := by
  obtain ⟨stopped, unended⟩ := waiting
  unfold Database.advance at stopped
  split at stopped
  next answer rest => exact absurd rest (unended answer).1
  next answer rest => exact absurd rest (unended answer).2
  next p next rest =>
    rw [rest]
    trivial
  next => cases stopped
  next k guard row next rest =>
    rw [rest]
    intro own
    have unlocked : m.lockedElsewhere i k = false :=
      lockedElsewhere_iff.mpr fun j other stored' different =>
        (sound.consistent.apart stored stored' different.symm).locked k own
    rw [unlocked] at stopped
    split at stopped
    · cases stopped
    · split at stopped <;> cases stopped
  next k row next rest =>
    rw [rest]
    trivial

/-- A session that waits holds nothing. -/
theorem Waiting.idle (waiting : m.Waiting protocol i session) (patient : protocol.Patient Good)
    (sound : m.Sound protocol Good acts) (stored : m.sessions[i]? = some session) :
    session.held = [] ∧ session.writes = [] :=
  patient sound.good (sound.reaches stored) (waiting.waits sound stored)

/-- The foremost session need not wait. -/
theorem Foremost.advances (foremost : m.Foremost i session) (patient : protocol.Patient Good)
    (sound : m.Sound protocol Good acts) (stored : m.sessions[i]? = some session)
    (unended : ∀ answer, session.rest ≠ .commit answer ∧ session.rest ≠ .rollback answer) :
    ∃ session', m.advance protocol i session = some session' := by
  rw [← Option.ne_none_iff_exists']
  intro stopped
  -- If it waited, it would hold nothing, and so would everybody: nobody would be in its way.
  have waiting : m.Waiting protocol i session := ⟨stopped, unended⟩
  have idle := foremost (waiting.idle patient sound stored)
  have unlocked : ∀ k, m.lockedElsewhere i k = false := by
    intro k
    refine lockedElsewhere_iff.mpr fun j other stored' different locked => ?_
    rw [(idle j other stored' different).1] at locked
    exact List.not_mem_nil locked
  have unclashing : ∀ entry, m.clashesElsewhere protocol i entry = false := by
    intro entry
    refine clashesElsewhere_iff.mpr fun j other stored' different written member => ?_
    rw [(idle j other stored' different).2] at member
    exact (List.not_mem_nil member).elim
  unfold Database.advance at stopped
  split at stopped
  next answer rest => exact (unended answer).1 rest
  next answer rest => exact (unended answer).2 rest
  next p next rest =>
    split at stopped
    · cases stopped
    next k row found =>
      rw [unlocked k] at stopped
      cases stopped
  next => cases stopped
  next k guard row next rest =>
    rw [unlocked k] at stopped
    split at stopped
    · cases stopped
    · split at stopped <;> cases stopped
  next k row next rest =>
    rw [unclashing] at stopped
    split at stopped
    · contradiction
    · split at stopped <;> cases stopped

end Database

variable [Std.LawfulEqOrd κ]

namespace Database

variable {protocol : Protocol κ ρ ι γ α} {Good : κ → ρ → Prop} {m : Database κ ρ γ α}
variable {acts : List (SessionEvent γ)} {act : SessionEvent γ} {i : Nat}
variable {session session' : Session κ ρ γ α}

namespace Sound

/-- Nothing happens but that an event is counted. -/
theorem idle (sound : m.Sound protocol Good acts) (act : SessionEvent γ) :
    Sound protocol Good (acts ++ [act]) { m with events := m.events + 1 } where
  consistent := ⟨sound.consistent.keeps, sound.consistent.apart, sound.consistent.unique⟩
  counted := by simp [sound.counted]
  good := sound.good
  written := sound.written
  began stored := by
    have before := sound.began stored
    rw [List.length_append]
    omega
  started stored := started_later (sound.started stored)
  reaches stored := (sound.reaches stored).stable (fun _ _ => rfl) (fun _ _ _ _ => .inl)
    fun _ _ been => been.later act

/-- A session is gone. -/
theorem remove (sound : m.Sound protocol Good acts) (act : SessionEvent γ) (i : Nat) :
    Sound protocol Good (acts ++ [act]) ⟨m.table, m.sessions.erase i, m.events + 1⟩ := by
  have idle := sound.idle act
  have stays : ∀ {j : Nat} {other : Session κ ρ γ α}, (m.sessions.erase i)[j]? = some other →
      m.sessions[j]? = some other := by
    intro j other stored
    rw [BTreeMap.getElem?_erase] at stored
    split at stored
    · cases stored
    · exact stored
  exact ⟨sound.consistent.remove i _, idle.counted, sound.good,
    fun stored => sound.written (stays stored), fun stored => idle.began (stays stored),
    fun stored => idle.started (stays stored), fun stored => idle.reaches (stays stored)⟩

/-- A session starts, or goes on. -/
theorem put (sound : m.Sound protocol Good acts) (act : SessionEvent γ)
    (kept : Session.Keeps protocol m.table session.held session.writes)
    (fits : ∀ {j : Nat} {other : Session κ ρ γ α}, m.sessions[j]? = some other → j ≠ i →
      Session.Apart protocol session.held session.writes other.held other.writes)
    (written : ∀ entry ∈ session.writes, Good entry.1 entry.2)
    (began : session.began ≤ acts.length ∧ session.clock ≤ acts.length)
    (started : (acts ++ [act])[session.began]? = some (.start i session.call))
    (reaches : protocol.Reaches m.table (Been protocol acts session.began)
      (protocol.start session.call session.began) session.toStage) :
    Sound protocol Good (acts ++ [act]) ⟨m.table, m.sessions.insert i session, m.events + 1⟩ where
  consistent := sound.consistent.put _ kept fits
  counted := (sound.idle act).counted
  good := sound.good
  written stored := by
    rw [BTreeMap.getElem?_insert] at stored
    split at stored
    · obtain rfl := Option.some.inj stored
      exact written
    · exact sound.written stored
  began stored := by
    rw [BTreeMap.getElem?_insert] at stored
    split at stored
    · obtain rfl := Option.some.inj stored
      rw [List.length_append]
      omega
    · exact (sound.idle act).began stored
  started stored := by
    rw [BTreeMap.getElem?_insert] at stored
    split at stored
    next same =>
      obtain rfl := Option.some.inj stored
      exact same ▸ started
    · exact (sound.idle act).started stored
  reaches stored := by
    rw [BTreeMap.getElem?_insert] at stored
    split at stored
    · obtain rfl := Option.some.inj stored
      exact reaches.stable (fun _ _ => rfl) (fun _ _ _ _ => .inl) fun _ _ been => been.later act
    · exact (sound.idle act).reaches stored

/-- A session commits. -/
theorem commit (sound : m.Sound protocol Good acts) (act : SessionEvent γ)
    (stored : m.sessions[i]? = some session) :
    Sound protocol Good (acts ++ [act])
      ⟨session.view m.table, m.sessions.erase i, m.events + 1⟩ := by
  have gone := sound.remove act i
  refine ⟨sound.consistent.commit stored _, gone.counted, fun k row seen => ?_, gone.written,
    gone.began, gone.started, fun {j other} stored' => ?_⟩
  · obtain own | ⟨-, old⟩ := BTreeMap.overlay_cases seen
    · exact sound.written stored _ own
    · exact sound.good k row old
  · have there := stored'
    rw [BTreeMap.getElem?_erase] at there
    split at there
    · cases there
    next different =>
      obtain ⟨locked, free⟩ := sound.consistent.committed stored there (Ne.symm different)
      exact (gone.reaches stored').stable locked free fun _ _ been => been

/-- A statement of a lawful protocol is carried out. -/
theorem advance (sound : m.Sound protocol Good acts) (lawful : protocol.Lawful Good)
    (now : m = (database protocol).after acts)
    (act : SessionEvent γ) (stored : m.sessions[i]? = some session)
    (advances : m.Advances protocol i session session') :
    Sound protocol Good (acts ++ [act])
      ⟨m.table, m.sessions.insert i session', m.events + 1⟩ := by
  have reaches := sound.reaches stored
  have began := sound.began stored
  have written := sound.written stored
  obtain ⟨call, since, clock⟩ := advances.same
  obtain ⟨kept, fits⟩ := advances.keeps sound.consistent stored fun rest seen passes =>
    (lawful.update sound.good reaches rest seen passes).2
  refine sound.put act kept fits ?_ ⟨since ▸ began.1, clock ▸ Nat.le_of_eq sound.counted⟩ ?_ ?_
  · cases advances with
    | updated rest seen passes free =>
        exact List.forall_mem_append.mpr ⟨written, List.forall_mem_singleton.mpr
          (lawful.update sound.good reaches rest seen passes).1⟩
    | inserted rest fits pending =>
        exact List.forall_mem_append.mpr ⟨written, List.forall_mem_singleton.mpr
          (lawful.insert sound.good reaches rest)⟩
    | _ => exact written
  · rw [call, since]
    exact started_later (sound.started stored)
  · rw [call, since]
    have been : Been protocol acts session.began m.events m.table := by
      rw [sound.counted, now]
      exact been_now began.1
    exact reaches.tail (advances.moves been (sound.counted ▸ began.2))

end Sound

/-- Under a lawful protocol every history leaves the locks in order. -/
theorem sound_after (lawful : protocol.Lawful Good) (acts : List (SessionEvent γ)) :
    Sound protocol Good acts ((database protocol).after acts) := by
  induction acts using Machine.history_induction with
  | nil => exact ⟨consistent_start, rfl, by simp [database], by simp [database],
      by simp [database], by simp [database], by simp [database]⟩
  | concat acts act sound =>
      rw [Machine.after_concat]
      generalize now : (database protocol).after acts = m at sound
      change Sound protocol Good _ (step protocol m act).2
      cases act with
      | start i call =>
          simp only [step]
          split
          · exact sound.idle _
          · refine sound.put _ .start (fun _ _ => ⟨?_, ?_⟩) ?_
              ⟨Nat.le_of_eq sound.counted, Nat.le_of_eq sound.counted⟩ ?_ .refl
            · exact fun _ member => (List.not_mem_nil member).elim
            · exact fun _ member => (List.not_mem_nil member).elim
            · exact fun _ member => (List.not_mem_nil member).elim
            · simp [sound.counted]
      | proceed i =>
          simp only [step]
          split
          · exact sound.idle _
          next session stored =>
            split
            · exact sound.commit _ stored
            · exact sound.remove _ i
            · split
              · exact sound.idle _
              next session' advanced =>
                exact sound.advance lawful now.symm _ stored (advances_of_advance advanced)
      | abort i => exact sound.remove _ i

/-- No row goes away, and no row gets another index entry. -/
theorem row_stays (lawful : protocol.Lawful Good) (acts more : List (SessionEvent γ)) {k : κ}
    {row : ρ} (stored : ((database protocol).after acts).table[k]? = some row) :
    ∃ row', ((database protocol).after (acts ++ more)).table[k]? = some row' ∧
      protocol.index row' = protocol.index row := by
  induction more using Machine.history_induction with
  | nil => exact ⟨row, by rwa [List.append_nil], rfl⟩
  | concat more act ih =>
      obtain ⟨old, there, same⟩ := ih
      rw [← List.append_assoc, Machine.after_concat]
      have sound := sound_after lawful (acts ++ more)
      obtain ⟨-, kept⟩ | ⟨i, session, answer, -, within, -, ⟨-, commits⟩ | ⟨-, kept⟩⟩ :=
        answer_cases protocol ((database protocol).after (acts ++ more)) act
      · exact ⟨old, by rwa [kept], same⟩
      · have seen : k ∈ session.view ((database protocol).after (acts ++ more)).table :=
          BTreeMap.mem_overlay_iff.mpr
            (.inr (Std.ExtTreeMap.mem_iff_isSome_getElem?.mpr (Option.isSome_of_eq_some there)))
        obtain ⟨row', shown⟩ := Option.isSome_iff_exists.mp
          (Std.ExtTreeMap.mem_iff_isSome_getElem?.mp seen)
        refine ⟨row', by rwa [commits], ?_⟩
        obtain own | ⟨-, unwritten⟩ := BTreeMap.overlay_cases shown
        · exact ((sound.consistent.keeps within).indexed _ own old there).trans same
        · obtain rfl := Option.some.inj (there.symm.trans unwritten)
          exact same
      · exact ⟨old, by rwa [kept], same⟩

theorem Been.row_stays (lawful : protocol.Lawful Good) {began n n' : Nat}
    {table table' : BTreeMap κ ρ}
    (been : Been protocol acts began n table) (been' : Been protocol acts began n' table')
    (earlier : n ≤ n') {k : κ} {row : ρ} (stored : table[k]? = some row) :
    ∃ row', table'[k]? = some row' ∧ protocol.index row' = protocol.index row := by
  obtain ⟨-, -, rfl⟩ := been
  obtain ⟨-, -, rfl⟩ := been'
  have split : acts.take n' = acts.take n ++ (acts.take n').drop n := by
    conv_lhs => rw [← List.take_append_drop n (acts.take n')]
    rw [List.take_take, Nat.min_eq_left earlier]
  rw [split]
  exact Database.row_stays lawful _ _ stored

theorem next_of_advance (advanced : m.advance protocol i session = some session') :
    session.rest.Next session'.rest := by
  obtain advances := advances_of_advance advanced
  cases advances with
  | found rest | missing rest => rw [rest]; exact .lock _ _
  | chosen rest => rw [rest]; exact .lockFree _ _
  | updated rest | refused rest => rw [rest]; exact .update _ _
  | inserted rest | present rest => rw [rest]; exact .insert _ _

/-- A foremost session that goes on ends its call. -/
theorem Foremost.ends (lawful : protocol.Lawful Good) (patient : protocol.Patient Good)
    (stored : ((database protocol).after acts).sessions[i]? = some session)
    (foremost : ((database protocol).after acts).Foremost i session) :
    ∃ n, ((database protocol).after (acts ++ List.replicate n (.proceed i))).sessions =
      ((database protocol).after acts).sessions.erase i := by
  generalize kept : session.rest = rest
  induction rest.acc generalizing acts session with
  | intro rest _ ih =>
    generalize now : (database protocol).after acts = m at stored foremost
    have sound : m.Sound protocol Good acts := now ▸ sound_after lawful acts
    by_cases ended : ∃ answer, session.rest = .commit answer ∨ session.rest = .rollback answer
    · refine ⟨1, ?_⟩
      change ((database protocol).after (acts ++ [.proceed i])).sessions = _
      rw [Machine.after_concat, now]
      change (step protocol m (.proceed i)).2.sessions = _
      obtain ⟨answer, committed | rolled⟩ := ended
      · simp [step, stored, committed]
      · simp [step, stored, rolled]
    · simp only [not_exists, not_or] at ended
      obtain ⟨session', advanced⟩ := foremost.advances patient sound stored ended
      have goes : (database protocol).after (acts ++ [.proceed i]) =
          ⟨m.table, m.sessions.insert i session', m.events + 1⟩ := by
        rw [Machine.after_concat, now]
        change (step protocol m (.proceed i)).2 = _
        simp only [step, stored]
        split
        next answer rest => exact absurd rest (ended answer).1
        next answer rest => exact absurd rest (ended answer).2
        · rw [advanced]
      have stored' : ((database protocol).after (acts ++ [.proceed i])).sessions[i]? =
          some session' := by
        rw [goes]
        exact BTreeMap.getElem?_insert .. |>.trans (if_pos rfl)
      have foremost' : ((database protocol).after (acts ++ [.proceed i])).Foremost i session' := by
        rw [goes]
        exact foremost.advance _ (advances_of_advance advanced)
      obtain ⟨n, reached⟩ := ih session'.rest (kept ▸ next_of_advance advanced) stored'
        foremost' rfl
      refine ⟨n + 1, ?_⟩
      rw [List.replicate_succ, List.append_cons, reached, goes]
      apply Std.ExtTreeMap.ext_getElem?
      intro j
      simp only [BTreeMap.getElem?_erase, BTreeMap.getElem?_insert]
      split <;> rfl

/-- Nobody is stuck: where all sessions go on, every call that is in progress ends. -/
theorem exists_all_ended (lawful : protocol.Lawful Good) (patient : protocol.Patient Good)
    (acts : List (SessionEvent γ)) : ∃ more : List Nat,
      ((database protocol).after (acts ++ more.map .proceed)).sessions = ∅ := by
  generalize count : ((database protocol).after acts).sessions.size = n
  induction n generalizing acts with
  | zero =>
      refine ⟨[], ?_⟩
      rw [List.map_nil, List.append_nil]
      exact Std.ExtTreeMap.eq_empty_iff_size_eq_zero.mpr count
  | succ n ih =>
      obtain ⟨i, session, stored, foremost⟩ := exists_foremost
        (m := (database protocol).after acts) fun empty => by
          rw [Std.ExtTreeMap.eq_empty_iff_size_eq_zero, count] at empty
          cases empty
      obtain ⟨steps, ended⟩ := foremost.ends lawful patient stored
      have fewer : ((database protocol).after
          (acts ++ List.replicate steps (.proceed i))).sessions.size = n := by
        rw [ended, Std.ExtTreeMap.size_erase, if_pos, count]
        · rfl
        · exact Std.ExtTreeMap.mem_iff_isSome_getElem?.mpr (Option.isSome_of_eq_some stored)
      obtain ⟨more, all⟩ := ih _ fewer
      refine ⟨List.replicate steps i ++ more, ?_⟩
      rw [List.map_append, List.map_replicate, ← List.append_assoc]
      exact all

end Database
