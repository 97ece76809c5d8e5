/-!
# Leases in time

A resource is leased to one holder at a time, until a deadline that may be put off. What a
holder goes by is what it was told: it believes in its lease until the deadline it was told
last, unless it gave the lease back. The owner of the resource takes a lease away after its
deadline only, or withdraws the resource for good. Then at no time do two holders believe in
a lease, and one that does is right, unless the resource was withdrawn.
-/

namespace Leasing

variable {η τ : Type}

/-- What happens to the resource. -/
inductive Event (η τ : Type) where
  | grant (holder : η) (deadline : τ)
  | extend (holder : η) (deadline : τ)
  | release (holder : η)
  | lapse (now : τ)
  | revoke

/-- The resource as its owner has it. -/
inductive Slot (η τ : Type) where
  | free
  | held (holder : η) (deadline : τ)
  | revoked

section Told

variable [DecidableEq η]

/-- What a holder has been told, after one more event. -/
def tell (holder : η) (known : Option τ) : Event η τ → Option τ
  | .grant other deadline | .extend other deadline =>
    if other = holder then some deadline else known
  | .release other => if other = holder then none else known
  | .lapse _ | .revoke => known

/-- The deadline that a holder was told last, of a lease that it has not given back. -/
def told (holder : η) (events : List (Event η τ)) : Option τ := events.foldl (tell holder) none

theorem told_concat (holder : η) (events : List (Event η τ)) (event : Event η τ) :
    told holder (events ++ [event]) = tell holder (told holder events) event := by
  rw [told, List.foldl_append]
  rfl

/-- The holder takes the resource to be leased to it. -/
def Believes [LT τ] (events : List (Event η τ)) (now : τ) (holder : η) : Prop :=
  ∃ deadline, told holder events = some deadline ∧ now < deadline

instance [LT τ] [DecidableLT τ] (events : List (Event η τ)) (now : τ) (holder : η) :
    Decidable (Believes events now holder) :=
  decidable_of_iff ((told holder events).any fun deadline => decide (now < deadline)) (by
    simp only [Believes, Option.any_eq_true, decide_eq_true_eq])

end Told

section Run

variable [LE τ]

/-- The steps of the owner. -/
inductive Step : Slot η τ → Event η τ → Slot η τ → Prop where
  | grant (holder : η) (deadline : τ) :
      Step .free (.grant holder deadline) (.held holder deadline)
  | extend (holder : η) (deadline later : τ) :
      Step (.held holder deadline) (.extend holder later) (.held holder later)
  | release (holder : η) (deadline : τ) : Step (.held holder deadline) (.release holder) .free
  | lapse (holder : η) (deadline now : τ) (late : deadline ≤ now) :
      Step (.held holder deadline) (.lapse now) .free
  | revoke (slot : Slot η τ) : Step slot .revoke .revoked

/-- The events from the start, and the resource after them. -/
inductive Run : List (Event η τ) → Slot η τ → Prop where
  | start : Run [] .free
  | next {events : List (Event η τ)} {event : Event η τ} {slot slot' : Slot η τ}
      (run : Run events slot) (step : Step slot event slot') : Run (events ++ [event]) slot'

/-- A withdrawn resource was withdrawn by an event. -/
theorem Run.mem_of_revoked {events : List (Event η τ)} (run : Run events .revoked) :
    Event.revoke ∈ events := by
  cases run with
  | next run step =>
      cases step
      exact List.mem_append_right _ (List.mem_singleton_self _)

variable [LT τ] [DecidableEq η]

/-- The holders that believe in a lease: the one that has it, or at most one whose lease went
with the resource. -/
def Slot.Trusted (slot : Slot η τ) (events : List (Event η τ)) (now : τ) : Prop :=
  match slot with
  | .free => ∀ holder, ¬ Believes events now holder
  | .held holder deadline =>
    told holder events = some deadline ∧ ∀ other, Believes events now other → other = holder
  | .revoked =>
    ∀ holder other, Believes events now holder → Believes events now other → holder = other

variable [Std.LawfulOrderLT τ] [Std.IsPreorder τ] {events : List (Event η τ)} {slot : Slot η τ}
  {now : τ} {holder other : η}

/-- Up to a time after the sweeps that took leases away. -/
theorem Run.trusted (run : Run events slot)
    (past : ∀ swept, Event.lapse swept ∈ events → swept ≤ now) : slot.Trusted events now := by
  induction run with
  | start =>
      rintro holder ⟨deadline, known, -⟩
      cases known
  | @next events event slot slot' run step ih =>
      have before := ih fun swept member => past swept (List.mem_append_left _ member)
      cases step with
      | grant holder deadline =>
          refine ⟨by rw [told_concat, tell, if_pos rfl], ?_⟩
          rintro other ⟨known, heard, early⟩
          rw [told_concat, tell] at heard
          split at heard
          next same => exact same.symm
          · exact absurd ⟨known, heard, early⟩ (before other)
      | extend holder deadline later =>
          refine ⟨by rw [told_concat, tell, if_pos rfl], ?_⟩
          rintro other ⟨known, heard, early⟩
          rw [told_concat, tell] at heard
          split at heard
          next same => exact same.symm
          · exact before.2 other ⟨known, heard, early⟩
      | release holder deadline =>
          rintro other ⟨known, heard, early⟩
          rw [told_concat, tell] at heard
          split at heard
          · cases heard
          next apart => exact apart (before.2 other ⟨known, heard, early⟩).symm
      | lapse holder deadline swept late =>
          rintro other ⟨known, heard, early⟩
          rw [told_concat, tell] at heard
          obtain rfl := before.2 other ⟨known, heard, early⟩
          obtain rfl := Option.some.inj (before.1.symm.trans heard)
          have swept_now := past swept (List.mem_append_right _ (List.mem_singleton_self _))
          exact Std.not_lt_of_ge (Std.le_trans late swept_now) early
      | revoke slot =>
          have same : ∀ holder, Believes (events ++ [.revoke]) now holder →
              Believes events now holder := by
            rintro holder ⟨known, heard, early⟩
            rw [told_concat, tell] at heard
            exact ⟨known, heard, early⟩
          intro holder other first second
          cases slot with
          | free => exact absurd (same holder first) (before holder)
          | held =>
              rw [before.2 holder (same holder first), before.2 other (same other second)]
          | revoked => exact before holder other (same holder first) (same other second)

/-- No two holders believe in a lease at a time. -/
theorem Run.exclusive (run : Run events slot)
    (past : ∀ swept, Event.lapse swept ∈ events → swept ≤ now)
    (first : Believes events now holder) (second : Believes events now other) :
    holder = other := by
  have trusted := run.trusted past
  cases slot with
  | free => exact absurd first (trusted holder)
  | held => rw [trusted.2 holder first, trusted.2 other second]
  | revoked => exact trusted holder other first second

/-- A holder that believes in its lease has it, unless the resource was withdrawn. -/
theorem Run.honest (run : Run events slot)
    (past : ∀ swept, Event.lapse swept ∈ events → swept ≤ now)
    (believes : Believes events now holder) :
    slot = .revoked ∨ ∃ deadline, slot = .held holder deadline ∧ now < deadline := by
  have trusted := run.trusted past
  cases slot with
  | free => exact absurd believes (trusted holder)
  | held owner deadline =>
      obtain rfl := trusted.2 holder believes
      obtain ⟨known, heard, early⟩ := believes
      obtain rfl := Option.some.inj (trusted.1.symm.trans heard)
      exact .inr ⟨deadline, rfl, early⟩
  | revoked => exact .inl rfl

end Run

end Leasing
