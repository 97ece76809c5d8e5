import Mathlib.Data.List.Induction

/-!
# Histories of a deterministic machine

A machine answers each input and moves to a next state. A history is the list
of inputs given so far; any list is one. Properties of all reachable states
follow from one step, properties of histories from appending one input, and a
property that mentions a moment of the history splits the list at that moment.
-/

/-- A state machine with outputs. -/
structure Machine (σ ι ω : Type) where
  init : σ
  step : σ → ι → ω × σ

namespace Machine

variable {σ ι ω : Type} (m : Machine σ ι ω)

/-- The state after one input. -/
def next (s : σ) (i : ι) : σ := (m.step s i).2

/-- The answer to one input. -/
def answer (s : σ) (i : ι) : ω := (m.step s i).1

/-- The state after a list of inputs. -/
def run (s : σ) (is : List ι) : σ := is.foldl m.next s

/-- The state after a history from the initial state. -/
def after (is : List ι) : σ := m.run m.init is

/-- The answers to a list of inputs. -/
def answers (m : Machine σ ι ω) (s : σ) : List ι → List ω
  | [] => []
  | i :: is => m.answer s i :: answers m (m.next s i) is

@[simp] theorem run_nil (s : σ) : m.run s [] = s := rfl

@[simp] theorem run_cons (s : σ) (i : ι) (is : List ι) :
    m.run s (i :: is) = m.run (m.next s i) is := rfl

theorem run_append (s : σ) (is js : List ι) : m.run s (is ++ js) = m.run (m.run s is) js :=
  List.foldl_append

@[simp] theorem after_nil : m.after [] = m.init := rfl

theorem after_append (is js : List ι) : m.after (is ++ js) = m.run (m.after is) js :=
  m.run_append _ _ _

@[simp] theorem after_concat (is : List ι) (i : ι) :
    m.after (is ++ [i]) = m.next (m.after is) i := m.after_append is [i]

@[simp] theorem answers_nil (s : σ) : m.answers s [] = [] := rfl

theorem answers_append (s : σ) (is js : List ι) :
    m.answers s (is ++ js) = m.answers s is ++ m.answers (m.run s is) js := by
  induction is generalizing s with
  | nil => rfl
  | cons i is ih =>
      rw [List.cons_append, answers, answers, ih, List.cons_append, run_cons]

/-- The answers to a whole history. -/
def transcript (is : List ι) : List ω := m.answers m.init is

@[simp] theorem transcript_nil : m.transcript [] = [] := rfl

theorem transcript_append (is js : List ι) :
    m.transcript (is ++ js) = m.transcript is ++ m.answers (m.after is) js :=
  m.answers_append _ _ _

@[simp] theorem transcript_concat (is : List ι) (i : ι) :
    m.transcript (is ++ [i]) = m.transcript is ++ [m.answer (m.after is) i] :=
  m.transcript_append is [i]

@[simp] theorem length_transcript (is : List ι) : (m.transcript is).length = is.length := by
  rw [transcript]
  generalize m.init = s
  induction is generalizing s with
  | nil => rfl
  | cons i is ih => rw [answers, List.length_cons, List.length_cons, ih]

/-- What one step preserves, every run preserves. -/
theorem run_invariant {P : σ → Prop} (step : ∀ s i, P s → P (m.next s i)) {s : σ} (h : P s)
    (is : List ι) : P (m.run s is) := by
  induction is generalizing s with
  | nil => exact h
  | cons i is ih => exact ih (step s i h)

/-- What holds at the start and is preserved by one step holds after every history. -/
theorem after_invariant {P : σ → Prop} (init : P m.init) (step : ∀ s i, P s → P (m.next s i))
    (is : List ι) : P (m.after is) :=
  m.run_invariant step init is

/-- Induction on a history by its last input. -/
theorem history_induction {P : List ι → Prop} (nil : P []) (concat : ∀ is i, P is → P (is ++ [i]))
    (is : List ι) : P is :=
  List.reverseRecOn is nil concat

/-- Every input of the history meets a condition on the state that it is given in. -/
def Along (P : σ → ι → Prop) (is : List ι) : Prop :=
  ∀ before i, before ++ [i] <+: is → P (m.after before) i

variable {m} {P : σ → ι → Prop} {is : List ι} {i : ι}

theorem along_nil : m.Along P [] := by
  intro before i within
  simp at within

theorem Along.init (along : m.Along P (is ++ [i])) : m.Along P is :=
  fun before i within => along before i (within.trans (List.prefix_append _ _))

theorem Along.last (along : m.Along P (is ++ [i])) : P (m.after is) i :=
  along is i (List.prefix_refl _)

theorem Along.concat (along : m.Along P is) (last : P (m.after is) i) : m.Along P (is ++ [i]) := by
  intro before j within
  obtain same | earlier := List.prefix_concat_iff.mp within
  · obtain ⟨rfl, rfl⟩ := List.append_singleton_inj.mp same
    exact last
  · exact along before j earlier

/-- What steps under the condition preserve holds after the history. -/
theorem Along.after {I : σ → Prop} (along : m.Along P is) (init : I m.init)
    (step : ∀ s i, P s i → I s → I (m.next s i)) : I (m.after is) := by
  induction is using List.reverseRecOn with
  | nil => exact init
  | append_singleton is i ih =>
      rw [after_concat]
      exact step _ i along.last (ih along.init)

/-! Two machines side by side. -/

section Both

variable {σ' ι' ω' : Type}

/-- Both machines get their part of each input. -/
def both (m : Machine σ ι ω) (m' : Machine σ' ι' ω') : Machine (σ × σ') (ι × ι') (ω × ω') where
  init := (m.init, m'.init)
  step s i := ((m.answer s.1 i.1, m'.answer s.2 i.2), (m.next s.1 i.1, m'.next s.2 i.2))

theorem after_both (m : Machine σ ι ω) (m' : Machine σ' ι' ω') (is : List (ι × ι')) :
    (m.both m').after is = (m.after (is.map Prod.fst), m'.after (is.map Prod.snd)) := by
  induction is using history_induction with
  | nil => rfl
  | concat is i ih =>
      rw [after_concat, ih, List.map_append, List.map_append, List.map_singleton,
        List.map_singleton, after_concat, after_concat]
      rfl

end Both

end Machine
