import Orchestrator.Foundation.Machine

/-!
# Clients of a shared machine

A client uses a machine that others use too. Each of its moves makes one call and takes the
answer, or makes no call and may look at the state; any calls of others come between two
moves. What a client does is stated on the calls that the machine has served and on the log of
the client's own moves, and `Client.rule` proves it by one case for each kind of event.
-/

/-- A client of a machine with states `σ`, inputs `ι` and answers `ω`. -/
structure Client (σ ι ω κ μ : Type) where
  init : κ
  call : κ → μ → Option ι
  receive : κ → μ → ω → κ
  look : κ → μ → σ → κ

namespace Client

/-- Somebody else makes a call, or the client makes a move. -/
inductive Event (ι μ : Type) where
  | other (i : ι)
  | move (a : μ)

/-- A move of the client, with the number of calls served before it, the call that it made and
the answer. -/
structure Turn (ι ω μ : Type) where
  time : Nat
  move : μ
  exchange : Option (ι × ω)

/-- The machine and its client, and the number of calls served so far. -/
structure World (σ κ : Type) where
  shared : σ
  client : κ
  time : Nat

variable {σ ι ω κ μ : Type} (m : Machine σ ι ω) (c : Client σ ι ω κ μ)

/-- One event, with the call that the machine serves and what the client logs. -/
def step (w : World σ κ) : Event ι μ → (Option ι × Option (Turn ι ω μ)) × World σ κ
  | .other i => ((some i, none), ⟨m.next w.shared i, w.client, w.time + 1⟩)
  | .move a =>
    match c.call w.client a with
    | none => ((none, some ⟨w.time, a, none⟩), ⟨w.shared, c.look w.client a w.shared, w.time⟩)
    | some i =>
      let answer := m.answer w.shared i
      ((some i, some ⟨w.time, a, some (i, answer)⟩),
        ⟨m.next w.shared i, c.receive w.client a answer, w.time + 1⟩)

/-- The machine with its client. -/
def world : Machine (World σ κ) (Event ι μ) (Option ι × Option (Turn ι ω μ)) :=
  ⟨⟨m.init, c.init, 0⟩, c.step m⟩

/-- The calls that the machine has served, in order. -/
def served (events : List (Event ι μ)) : List ι :=
  ((c.world m).transcript events).filterMap Prod.fst

/-- The moves of the client, in order. -/
def log (events : List (Event ι μ)) : List (Turn ι ω μ) :=
  ((c.world m).transcript events).filterMap Prod.snd

/-- Where the client stands. -/
def stands (events : List (Event ι μ)) : κ := ((c.world m).after events).client

/-- What one event adds to the calls and to the log, and where the client then stands. -/
inductive Steps (is : List ι) (log : List (Turn ι ω μ)) (k : κ) :
    List ι → List (Turn ι ω μ) → κ → Prop where
  | other (i : ι) : Steps is log k (is ++ [i]) log k
  | called {a : μ} {i : ι} (call : c.call k a = some i) :
      Steps is log k (is ++ [i]) (log ++ [⟨is.length, a, some (i, m.answer (m.after is) i)⟩])
        (c.receive k a (m.answer (m.after is) i))
  | looked {a : μ} (silent : c.call k a = none) :
      Steps is log k is (log ++ [⟨is.length, a, none⟩]) (c.look k a (m.after is))

theorem served_concat (events : List (Event ι μ)) (event : Event ι μ) :
    c.served m (events ++ [event]) = c.served m events ++
      (c.step m ((c.world m).after events) event).1.1.toList := by
  rw [served, Machine.transcript_concat, List.filterMap_append]
  show _ ++ [(c.step m ((c.world m).after events) event).1].filterMap Prod.fst = _
  cases added : (c.step m ((c.world m).after events) event).1.1 <;> simp [served, added]

theorem log_concat (events : List (Event ι μ)) (event : Event ι μ) :
    c.log m (events ++ [event]) = c.log m events ++
      (c.step m ((c.world m).after events) event).1.2.toList := by
  rw [log, Machine.transcript_concat, List.filterMap_append]
  show _ ++ [(c.step m ((c.world m).after events) event).1].filterMap Prod.snd = _
  cases added : (c.step m ((c.world m).after events) event).1.2 <;> simp [log, added]

/-- The calls of others pass the client by. -/
theorem run_others (w : World σ κ) (is : List ι) : (c.world m).run w (is.map .other) =
    ⟨m.run w.shared is, w.client, w.time + is.length⟩ := by
  induction is generalizing w with
  | nil => rfl
  | cons i is ih =>
      rw [List.map_cons, Machine.run_cons, ih, List.length_cons, Nat.add_comm is.length,
        ← Nat.add_assoc]
      rfl

variable {m c}

/-- The machine is in the state that the calls served so far lead to, and they are counted. -/
theorem world_after (events : List (Event ι μ)) :
    ((c.world m).after events).shared = m.after (c.served m events) ∧
      ((c.world m).after events).time = (c.served m events).length := by
  induction events using Machine.history_induction with
  | nil => exact ⟨rfl, rfl⟩
  | concat events event ih =>
      obtain ⟨shared, time⟩ := ih
      rw [Machine.after_concat, served_concat, Machine.after_append, List.length_append, ← shared,
        ← time]
      show (c.step m ((c.world m).after events) event).2.shared = _ ∧
        (c.step m ((c.world m).after events) event).2.time = _
      cases event with
      | other i => exact ⟨rfl, rfl⟩
      | move a =>
          simp only [step]
          split <;> exact ⟨rfl, rfl⟩

theorem steps_concat (events : List (Event ι μ)) (event : Event ι μ) :
    c.Steps m (c.served m events) (c.log m events) (c.stands m events)
      (c.served m (events ++ [event])) (c.log m (events ++ [event]))
      (c.stands m (events ++ [event])) := by
  obtain ⟨shared, time⟩ := world_after (m := m) (c := c) events
  have stands : c.stands m (events ++ [event]) =
      (c.step m ((c.world m).after events) event).2.client := by
    rw [stands, Machine.after_concat]
    rfl
  rw [served_concat, log_concat, stands]
  cases event with
  | other i =>
      show c.Steps m _ _ _ _ (_ ++ []) _
      rw [List.append_nil]
      exact .other i
  | move a =>
      simp only [step, shared, time]
      split
      next silent =>
        show c.Steps m _ _ _ (_ ++ []) _ _
        rw [List.append_nil]
        exact .looked silent
      next i call => exact .called call

/-- What holds at the start, and after each kind of event where it held before and what is known
holds too, holds after all events. -/
theorem rule_with {P Q : List ι → List (Turn ι ω μ) → κ → Prop}
    (known : ∀ events, Q (c.served m events) (c.log m events) (c.stands m events))
    (init : P [] [] c.init)
    (step : ∀ {is log k is' log' k'}, c.Steps m is log k is' log' k' → Q is log k → P is log k →
      P is' log' k')
    (events : List (Event ι μ)) :
    P (c.served m events) (c.log m events) (c.stands m events) := by
  induction events using Machine.history_induction with
  | nil => exact init
  | concat events event ih => exact step (steps_concat events event) (known events) ih

/-- The same where nothing else is known. -/
theorem rule {P : List ι → List (Turn ι ω μ) → κ → Prop} (init : P [] [] c.init)
    (step : ∀ {is log k is' log' k'}, c.Steps m is log k is' log' k' → P is log k → P is' log' k')
    (events : List (Event ι μ)) :
    P (c.served m events) (c.log m events) (c.stands m events) :=
  rule_with (Q := fun _ _ _ => True) (fun _ => trivial) init (fun steps _ => step steps) events

namespace Steps

variable {is is' : List ι} {log log' : List (Turn ι ω μ)} {k k' : κ}

theorem served_extends (h : c.Steps m is log k is' log' k') : is <+: is' := by
  cases h with
  | other i => exact List.prefix_append is [i]
  | called => exact List.prefix_append is _
  | looked => exact List.prefix_rfl

end Steps

end Client
