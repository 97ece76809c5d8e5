import Orchestrator.Foundation.Machine

/-!
# Following a log by a cursor

A log lists entries under increasing numbers and grows at its end. A reader keeps
the entries it has received and asks for those after the number of the last one.
Between its requests the log may grow. After every request the reader has received
the whole log, each entry once and in order.
-/

namespace Cursor

section Log

variable {α β : Type}

/-- The number up to which entries were received. -/
def last (number : α → β) (zero : β) (seen : List α) : β := seen.getLast?.elim zero number

@[simp] theorem last_concat (number : α → β) (zero : β) (seen : List α) (final : α) :
    last number zero (seen ++ [final]) = number final := by
  simp [last]

variable [LT β] [DecidableLT β]

/-- The entries after a number. -/
def since (number : α → β) (log : List α) (after : β) : List α :=
  log.filter fun entry => decide (after < number entry)

omit [DecidableLT β] in
/-- The numbers increase along the log and are all above the number of nothing. -/
structure Numbered (number : α → β) (zero : β) (log : List α) : Prop where
  ordered : log.Pairwise fun a b => number a < number b
  positive : ∀ entry ∈ log, zero < number entry

omit [DecidableLT β] in
theorem Numbered.sublist {number : α → β} {zero : β} {log part : List α}
    (numbered : Numbered number zero log) (sub : part.Sublist log) : Numbered number zero part :=
  ⟨numbered.ordered.sublist sub, fun entry member => numbered.positive entry (sub.subset member)⟩

variable [Std.Asymm fun a b : β => a < b] {number : α → β} {zero : β} {log seen rest : List α}

/-- Nothing that was received comes after the last of it. -/
theorem since_last_self (ordered : seen.Pairwise fun a b => number a < number b) :
    since number seen (last number zero seen) = [] := by
  induction seen using List.reverseRecOn with
  | nil => rfl
  | append_singleton before final _ =>
      refine List.filter_eq_nil_iff.mpr fun entry member => ?_
      rw [last_concat, decide_eq_true_eq]
      intro later
      obtain old | final := List.mem_append.mp member
      · exact Std.Asymm.asymm _ _ later
          ((List.pairwise_append.mp ordered).2.2 entry old final List.mem_cons_self)
      · obtain rfl := List.mem_singleton.mp final
        exact Std.Asymm.asymm _ _ later later

omit [Std.Asymm fun a b : β => a < b] in
/-- All that follows what was received comes after the last of it. -/
theorem since_last_rest (numbered : Numbered number zero (seen ++ rest)) :
    since number rest (last number zero seen) = rest := by
  refine List.filter_eq_self.mpr fun entry member => decide_eq_true ?_
  cases seen using List.reverseRecOn with
  | nil => exact numbered.positive entry member
  | append_singleton before final =>
      rw [last_concat]
      exact (List.pairwise_append.mp numbered.ordered).2.2 final
        (List.mem_append_right _ List.mem_cons_self) entry member

omit [DecidableLT β] in
/-- An entry is at one place of the log only. -/
theorem eq_of_number_eq (numbered : Numbered number zero log) {i j : Nat} {a b : α}
    (at_i : log[i]? = some a) (at_j : log[j]? = some b) (same : number a = number b) : i = j := by
  obtain ⟨inside, rfl⟩ := List.getElem?_eq_some_iff.mp at_i
  obtain ⟨inside', rfl⟩ := List.getElem?_eq_some_iff.mp at_j
  have apart : ∀ (i j : Nat) (hi : i < log.length) (hj : j < log.length), i < j →
      number log[i] ≠ number log[j] := by
    intro i j hi hj less same
    have ordered := List.pairwise_iff_getElem.mp numbered.ordered i j hi hj less
    rw [same] at ordered
    exact Std.Asymm.asymm _ _ ordered ordered
  obtain less | rfl | more := Nat.lt_trichotomy i j
  · exact absurd same (apart i j inside inside' less)
  · rfl
  · exact absurd same.symm (apart j i inside' inside more)

/-- The entries after those received are the rest of the log. -/
theorem append_since (numbered : Numbered number zero log) (received : seen <+: log) :
    seen ++ since number log (last number zero seen) = log := by
  obtain ⟨rest, rfl⟩ := received
  have old : since number seen (last number zero seen) = [] :=
    since_last_self (List.pairwise_append.mp numbered.ordered).1
  have new := since_last_rest numbered
  rw [since, List.filter_append]
  rw [since] at old new
  rw [old, new, List.nil_append]

end Log

/-! A reader of a machine's log, whose requests come between the inputs. -/

section Reader

variable {σ ι ω α β ε : Type} (m : Machine σ ι ω)
  (answer : σ → β → Except ε (List α)) (number : α → β) (zero : β)

/-- An input of the machine, or a request of the reader: what has been received then. -/
def observe : σ × List α → Option ι → σ × List α
  | (s, seen), some i => (m.next s i, seen)
  | (s, seen), none =>
    match answer s (last number zero seen) with
    | .ok more => (s, seen ++ more)
    | .error _ => (s, seen)

/-- What the reader has received after inputs and requests in some order. -/
def received (acts : List (Option ι)) : List α :=
  (acts.foldl (observe m answer number zero) (m.init, [])).2

/-- The inputs among inputs and requests. -/
def inputs (acts : List (Option ι)) : List ι := acts.filterMap id

variable {m answer number zero}

@[simp] theorem inputs_input (acts : List (Option ι)) (i : ι) :
    inputs (acts ++ [some i]) = inputs acts ++ [i] := by
  simp [inputs]

@[simp] theorem inputs_request (acts : List (Option ι)) :
    inputs (acts ++ [none]) = inputs acts := by
  simp [inputs]

theorem foldl_observe (acts : List (Option ι)) :
    acts.foldl (observe m answer number zero) (m.init, []) =
      (m.after (inputs acts), received m answer number zero acts) := by
  refine Prod.ext ?_ rfl
  induction acts using List.reverseRecOn with
  | nil => rfl
  | append_singleton acts act ih =>
      rw [List.foldl_append, List.foldl_cons, List.foldl_nil]
      generalize acts.foldl (observe m answer number zero) (m.init, []) = state at ih
      obtain ⟨s, seen⟩ := state
      subst ih
      cases act with
      | some i => rw [inputs_input, m.after_concat, observe]
      | none =>
          rw [inputs_request, observe]
          split <;> rfl

@[simp] theorem received_input (acts : List (Option ι)) (i : ι) :
    received m answer number zero (acts ++ [some i]) = received m answer number zero acts := by
  rw [received, List.foldl_append, foldl_observe]
  rfl

theorem received_request (acts : List (Option ι)) :
    received m answer number zero (acts ++ [none]) =
      match answer (m.after (inputs acts)) (last number zero (received m answer number zero acts))
      with
      | .ok more => received m answer number zero acts ++ more
      | .error _ => received m answer number zero acts := by
  rw [received, List.foldl_append, foldl_observe, List.foldl_cons, List.foldl_nil, observe]
  split <;> rfl

variable [LT β] [DecidableLT β] [Std.Asymm fun a b : β => a < b]

/-- Where good histories only let the log grow, keep its numbers in order and have the
requests answered from it, the reader has received a beginning of the log at any time
and all of it after a request. -/
theorem received_eq (Good : List ι → Prop) (log : σ → List α)
    (earlier : ∀ is i, Good (is ++ [i]) → Good is)
    (grows : ∀ is i, Good (is ++ [i]) → log (m.after is) <+: log (m.after (is ++ [i])))
    (numbered : ∀ is, Good is → Numbered number zero (log (m.after is)))
    (answers : ∀ is, Good is → ∀ after,
      answer (m.after is) after = .ok (since number (log (m.after is)) after) ∨
        log (m.after is) = [] ∧ ∃ error, answer (m.after is) after = .error error)
    (acts : List (Option ι)) (good : Good (inputs acts)) :
    received m answer number zero acts <+: log (m.after (inputs acts)) ∧
      received m answer number zero (acts ++ [none]) = log (m.after (inputs acts)) := by
  have whole : ∀ acts : List (Option ι), Good (inputs acts) →
      received m answer number zero acts <+: log (m.after (inputs acts)) →
      received m answer number zero (acts ++ [none]) = log (m.after (inputs acts)) := by
    intro acts good begun
    rw [received_request]
    obtain answered | ⟨empty, error, refused⟩ :=
      answers _ good (last number zero (received m answer number zero acts))
    · rw [answered]
      exact append_since (numbered _ good) begun
    · rw [refused, empty]
      rw [empty] at begun
      exact List.prefix_nil.mp begun
  have begun : received m answer number zero acts <+: log (m.after (inputs acts)) := by
    induction acts using List.reverseRecOn with
    | nil => exact List.nil_prefix
    | append_singleton acts act ih =>
        cases act with
        | some i =>
            rw [inputs_input] at good ⊢
            rw [received_input]
            exact (ih (earlier _ _ good)).trans (grows _ _ good)
        | none =>
            rw [inputs_request] at good ⊢
            exact ⟨[], by rw [List.append_nil, whole acts good (ih good)]⟩
  exact ⟨begun, whole acts good begun⟩

end Reader

end Cursor
