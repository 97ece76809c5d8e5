import Std.Data.String.ToNat
import Orchestrator.Foundation.Cursor
import Orchestrator.Foundation.Lists
import Orchestrator.Repository.Log

/-!
# The events of a run as a stream

`Streams` is what a reader of event logs relies on: payloads and envelopes agree,
the numbers of a log increase from one, each event names its run, and no two events
of any runs share an id. An id is put together from the run's id and the number, and
the number can be read back from it, so the last part needs nothing of run ids.
-/

namespace Orchestrator

theorem dash_notMem_toDigits (n : Nat) : '-' ∉ Nat.toDigits 10 n := by
  intro member
  have digit := Nat.isDigit_of_mem_toDigits (by decide) (by decide) member
  exact absurd digit (by decide)

/-- The id of an event determines the run and the number that it was built from. -/
theorem generatedEventId_inj {k k' : RunId} {sequence sequence' : UInt64}
    (h : generatedEventId k sequence = generatedEventId k' sequence') :
    k = k' ∧ sequence = sequence' := by
  have texts : k.value.toList ++ "-event".toList ++ '-' :: Nat.toDigits 10 sequence.toNat =
      k'.value.toList ++ "-event".toList ++ '-' :: Nat.toDigits 10 sequence'.toNat := by
    simpa [generatedEventId, toString] using congrArg (fun id => id.value.toList) h
  obtain ⟨ids, digits⟩ :=
    List.eq_of_append_cons texts (dash_notMem_toDigits _) (dash_notMem_toDigits _)
  have values : k.value = k'.value := String.toList_inj.mp (List.append_cancel_right ids)
  have numbers : sequence.toNat.repr = sequence'.toNat.repr := by rw [Nat.repr, digits, Nat.repr]
  exact ⟨Id.ext values, UInt64.toNat_inj.mp (Nat.repr_injective numbers)⟩

/-- The events of the stored runs, found by their ids, form streams. -/
structure Streams (find : RunId → Option RunRecord) : Prop where
  payloads : ∀ k run, find k = some run → run.events = run.eventLog.map EventEnvelope.event
  numbered : ∀ k run, find k = some run → Cursor.Numbered EventEnvelope.sequence 0 run.eventLog
  own : ∀ k run, find k = some run → ∀ envelope ∈ run.eventLog, envelope.event.runId = k
  unique : ∀ k run k' run', find k = some run → find k' = some run' →
    ∀ (i j : Nat) (envelope envelope' : EventEnvelope), run.eventLog[i]? = some envelope →
      run'.eventLog[j]? = some envelope' → envelope.eventId = envelope'.eventId → k = k' ∧ i = j

/-- An envelope as the repositories build it. -/
def EventEnvelope.Built (envelope : EventEnvelope) : Prop :=
  ∃ now, envelope =
    eventEnvelope envelope.event.runId envelope.sequence envelope.event now

/-- Numbers that increase from one make the ids unique. -/
theorem Streams.of_numbered {find : RunId → Option RunRecord}
    (payloads : ∀ k run, find k = some run → run.events = run.eventLog.map EventEnvelope.event)
    (numbered : ∀ k run, find k = some run →
      Cursor.Numbered EventEnvelope.sequence 0 run.eventLog)
    (own : ∀ k run, find k = some run → ∀ envelope ∈ run.eventLog, envelope.event.runId = k)
    (built : ∀ k run, find k = some run → ∀ envelope ∈ run.eventLog, envelope.Built) :
    Streams find := by
  refine ⟨payloads, numbered, own, ?_⟩
  intro k run k' run' found found' i j envelope envelope' at_i at_j same
  have member := List.mem_of_getElem? at_i
  have member' := List.mem_of_getElem? at_j
  obtain ⟨now, issued⟩ := built k run found envelope member
  obtain ⟨now', issued'⟩ := built k' run' found' envelope' member'
  rw [issued, issued', eventEnvelope, eventEnvelope, own k run found envelope member,
    own k' run' found' envelope' member'] at same
  obtain ⟨rfl, sequences⟩ := generatedEventId_inj same
  obtain rfl := Option.some.inj (found.symm.trans found')
  refine ⟨rfl, ?_⟩
  exact Cursor.eq_of_number_eq (numbered k run found) at_i at_j sequences

/-- The numbers of the envelopes count from one. -/
def Consecutive (log : List EventEnvelope) : Prop :=
  log.map (fun envelope => envelope.sequence.toNat) = List.range' 1 log.length

namespace Consecutive

variable {log : List EventEnvelope}

theorem nil : Consecutive [] := rfl

theorem concat (consecutive : Consecutive log) {envelope : EventEnvelope}
    (next : envelope.sequence.toNat = log.length + 1) : Consecutive (log ++ [envelope]) := by
  unfold Consecutive at consecutive ⊢
  rw [List.map_append, consecutive, List.length_append, List.length_singleton,
    List.range'_concat, List.map_singleton, next, Nat.one_mul, Nat.add_comm 1]

/-- The last number is the number of envelopes. -/
theorem last (consecutive : Consecutive log) :
    (log.getLast?.elim 0 EventEnvelope.sequence).toNat = log.length := by
  cases log using List.reverseRecOn with
  | nil => rfl
  | append_singleton before final =>
      have ends := congrArg List.getLast? consecutive
      rw [List.map_append, List.length_append, List.length_singleton, List.range'_concat,
        List.map_singleton, List.getLast?_concat, List.getLast?_concat] at ends
      have number := Option.some.inj ends
      rw [List.getLast?_concat, Option.elim_some, List.length_append, List.length_singleton]
      omega

theorem numbered (consecutive : Consecutive log) :
    Cursor.Numbered EventEnvelope.sequence 0 log := by
  constructor
  · have ordered : (log.map fun envelope => envelope.sequence.toNat).Pairwise (· < ·) := by
      rw [consecutive]
      exact List.pairwise_lt_range'
    refine (List.pairwise_map.mp ordered).imp ?_
    exact fun less => UInt64.lt_iff_toNat_lt.mpr less
  · intro envelope member
    have counted := List.mem_map_of_mem (f := fun envelope => envelope.sequence.toNat) member
    rw [consecutive, List.mem_range'_1] at counted
    exact UInt64.lt_iff_toNat_lt.mpr counted.1

end Consecutive

namespace Repository

/-- What a call keeps as long as the sequence counter has not reached its end: all
events are counted from one, and the log of a run lists those that name it. -/
structure Counted (s : Repository) : Prop where
  next : s.nextEventSequence.toNat = s.events.length
  consecutive : Consecutive s.events
  built : ∀ envelope ∈ s.events, envelope.Built
  log : ∀ k, s.log k = s.events.filter fun envelope => envelope.event.runId = k
  payloads : ∀ k, s.payloads k = (s.log k).map EventEnvelope.event

variable {s s' : Repository}

theorem Silent.counted (quiet : s.Silent s') (counted : s.Counted) : s'.Counted := by
  refine ⟨?_, ?_, ?_, fun k => ?_, fun k => ?_⟩
  · rw [quiet.sequence, quiet.events, counted.next]
  · rw [quiet.events]
    exact counted.consecutive
  · rw [quiet.events]
    exact counted.built
  · rw [quiet.log, quiet.events, counted.log]
  · rw [quiet.payloads, quiet.log, counted.payloads]

theorem Logs.counted {envelope : EventEnvelope} (logs : s.Logs envelope s')
    (room : s.events.length < UInt64.maxNat) (counted : s.Counted) : s'.Counted := by
  have number : (s.nextEventSequence.saturatingAdd 1).toNat = s.events.length + 1 := by
    rw [← counted.next]
    exact UInt64.toNat_saturatingAdd_one (by rwa [counted.next])
  refine ⟨?_, ?_, ?_, fun k => ?_, fun k => ?_⟩
  · rw [logs.sequence, logs.events, number, List.length_append, List.length_singleton]
  · rw [logs.events]
    exact counted.consecutive.concat (by rw [logs.sequence_eq, number])
  · rw [logs.events]
    intro other member
    obtain old | new := List.mem_append.mp member
    · exact counted.built other old
    · obtain rfl := List.mem_singleton.mp new
      rw [EventEnvelope.Built, logs.sequence_eq]
      exact logs.issued
  · rw [logs.log, logs.events, counted.log, List.filter_append, List.filter_cons,
      List.filter_nil]
    simp only [decide_eq_true_eq]
  · rw [logs.log, logs.payloads, counted.payloads, List.map_append]
    split <;> rfl

theorem Logging.counted {envelopes : List EventEnvelope} (h : s.Logging envelopes s')
    (room : s'.events.length ≤ UInt64.maxNat) (counted : s.Counted) : s'.Counted := by
  induction h with
  | silent quiet => exact quiet.counted counted
  | event logs others ih =>
      refine ih room (logs.counted ?_ counted)
      rw [others.events, logs.events, List.length_append, List.length_append] at room
      simp only [List.length_singleton] at room
      omega

end Repository

theorem Repository.counted_after (ops : List Op)
    (room : (repository.after ops).events.length ≤ UInt64.maxNat) :
    (repository.after ops).Counted := by
  induction ops using Machine.history_induction with
  | nil =>
      refine ⟨rfl, .nil, ?_, fun k => ?_, fun k => ?_⟩
      · exact fun _ member => absurd member List.not_mem_nil
      · simp [repository, empty, log]
      · simp [repository, empty, log, payloads]
  | concat ops op ih =>
      rw [Machine.after_concat] at room ⊢
      obtain ⟨envelopes, logging⟩ := step_logging (keyed_after ops) op
      refine logging.counted room (ih ?_)
      rw [logging.events, List.length_append] at room
      omega

namespace Repository

variable {ops : List Op}

theorem events_le {s : Repository} (keyed : s.Keyed) (op : Op) :
    s.events.length ≤ (repository.next s op).events.length := by
  obtain ⟨envelopes, logging⟩ := step_logging keyed op
  rw [logging.events, List.length_append]
  exact Nat.le_add_right _ _

theorem Counted.streams {s : Repository} (counted : s.Counted) :
    Streams fun k => s.runs[k]? := by
  have logged : ∀ (k : RunId) (run : RunRecord), s.runs[k]? = some run →
      run.eventLog = s.events.filter fun envelope => envelope.event.runId = k := by
    intro k run found
    rw [← counted.log, Repository.log, found, Option.elim_some]
  refine .of_numbered ?_ ?_ ?_ ?_
  · intro k run found
    simpa [Repository.payloads, Repository.log, found] using counted.payloads k
  · intro k run found
    rw [logged k run found]
    exact counted.consecutive.numbered.sublist List.filter_sublist
  · intro k run found envelope member
    rw [logged k run found] at member
    simpa using List.of_mem_filter member
  · intro k run found envelope member
    rw [logged k run found] at member
    exact counted.built envelope (List.mem_of_mem_filter member)

/-- A request is answered from the log of the run. -/
theorem eventsSince_cases (s : Repository) (k : RunId) (after : UInt64) :
    s.eventsSince k after = .ok (Cursor.since EventEnvelope.sequence (s.log k) after) ∨
      s.log k = [] ∧ ∃ error, s.eventsSince k after = .error error := by
  unfold eventsSince log
  cases s.runs[k]? with
  | none => exact .inr ⟨rfl, _, rfl⟩
  | some run => exact .inl rfl

/-- What a reader of the events of a run receives when its requests come between calls. -/
def received (k : RunId) (acts : List (Option Op)) : List EventEnvelope :=
  Cursor.received repository (fun s after => s.eventsSince k after) EventEnvelope.sequence 0 acts

/-- A reader of a run receives its log, whatever calls come between its requests. -/
theorem received_log (k : RunId) (acts : List (Option Op))
    (room : (repository.after (Cursor.inputs acts)).events.length < UInt64.maxNat) :
    received k acts <+: (repository.after (Cursor.inputs acts)).log k ∧
      received k (acts ++ [none]) = (repository.after (Cursor.inputs acts)).log k := by
  have logging : ∀ ops op, ∃ envelopes,
      (repository.after ops).Logging envelopes (repository.after (ops ++ [op])) := by
    intro ops op
    rw [Machine.after_concat]
    exact step_logging (keyed_after ops) op
  refine Cursor.received_eq (fun ops => (repository.after ops).events.length < UInt64.maxNat)
    (fun s : Repository => s.log k) ?_ ?_ ?_ ?_ acts room
  · intro ops op room
    obtain ⟨envelopes, logs⟩ := logging ops op
    rw [logs.events, List.length_append] at room
    omega
  · intro ops op _
    obtain ⟨envelopes, logs⟩ := logging ops op
    rw [logs.log k]
    exact List.prefix_append _ _
  · intro ops room
    have counted := counted_after ops (Nat.le_of_lt room)
    rw [counted.log k]
    exact counted.consecutive.numbered.sublist List.filter_sublist
  · exact fun ops _ after => eventsSince_cases _ k after

end Repository

end Orchestrator
