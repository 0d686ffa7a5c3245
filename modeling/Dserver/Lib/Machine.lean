import Mathlib.Logic.Relation

/-!
# Machines with labelled steps

A label names one atomic step of some thread together with every choice its environment makes.
A step is not enabled (`none`), aborts the process (an error), or gives the next state. Runs may be
restricted to steps that meet a `guard` on the state before the step and its label.
-/

namespace Dserver.Lib

theorem ok_bind {ε α β : Type} (a : α) (f : α → Except ε β) : (Except.ok a >>= f) = f a := rfl

theorem bind_ok {ε α β : Type} {x : Except ε α} {f : α → Except ε β} {b : β} (h : x >>= f = .ok b) :
    ∃ a, x = .ok a ∧ f a = .ok b := by
  cases x with
  | error fault => cases h
  | ok a => exact ⟨a, rfl, h⟩

theorem map_ok {ε α β : Type} {x : Except ε α} {f : α → β} {b : β} (h : x.map f = .ok b) :
    ∃ a, x = .ok a ∧ f a = b := by
  cases x with
  | error fault => cases h
  | ok a => exact ⟨a, rfl, Except.ok.inj h⟩

theorem bind_error {ε α β : Type} {x : Except ε α} {f : α → Except ε β} {fault : ε}
    (h : x >>= f = .error fault) : x = .error fault ∨ ∃ a, x = .ok a ∧ f a = .error fault := by
  cases x with
  | error other =>
    obtain rfl := Except.error.inj h
    exact .inl rfl
  | ok a => exact .inr ⟨a, rfl, h⟩

theorem ok_inj_triple {ε α β γ : Type} {a a' : α} {b b' : β} {c c' : γ}
    (h : (Except.ok (a, b, c) : Except ε (α × β × γ)) = .ok (a', b', c')) :
    a = a' ∧ b = b' ∧ c = c' := by
  obtain ⟨first, rest⟩ := Prod.mk.inj (Except.ok.inj h)
  exact ⟨first, Prod.mk.inj rest⟩

structure Machine (State Label Fault : Type) where
  init : State → Prop
  step : State → Label → Option (Except Fault State)

namespace Machine

variable {State Label Fault : Type} {m : Machine State Label Fault}
  {guard : State → Label → Prop} {s t : State}

def anyStep : State → Label → Prop := fun _ _ => True

instance (s : State) (label : Label) : Decidable (anyStep s label) := inferInstanceAs (Decidable True)

/-- One step that meets the guard and does not abort. -/
def Next (m : Machine State Label Fault) (guard : State → Label → Prop) (s t : State) : Prop :=
  ∃ label, guard s label ∧ m.step s label = some (.ok t)

/-- Zero or more steps, each meeting the guard. -/
def Steps (m : Machine State Label Fault) (guard : State → Label → Prop) : State → State → Prop :=
  Relation.ReflTransGen (m.Next guard)

/-- A state of a run from an initial state in which every step meets the guard. -/
def Reachable (m : Machine State Label Fault) (guard : State → Label → Prop) (s : State) : Prop :=
  ∃ start, m.init start ∧ m.Steps guard start s

theorem Reachable.initial (h : m.init s) : m.Reachable guard s := ⟨s, h, .refl⟩

theorem Reachable.next {label : Label} (h : m.Reachable guard s) (allowed : guard s label)
    (step : m.step s label = some (.ok t)) : m.Reachable guard t := by
  obtain ⟨start, initial, steps⟩ := h
  exact ⟨start, initial, steps.tail ⟨label, allowed, step⟩⟩

theorem Reachable.steps (h : m.Reachable guard s) (steps : m.Steps guard s t) :
    m.Reachable guard t := by
  obtain ⟨start, initial, before⟩ := h
  exact ⟨start, initial, before.trans steps⟩

/-- What one guarded step preserves holds along a run; the step may use that its source is
reachable, and so every invariant proved before. -/
theorem Steps.invariant {P : State → Prop} (reachable : m.Reachable guard s) (start : P s)
    (preserved : ∀ a label b, m.Reachable guard a → P a → guard a label →
      m.step a label = some (.ok b) → P b)
    (h : m.Steps guard s t) : P t := by
  induction h with
  | refl => exact start
  | tail before next ih =>
    obtain ⟨label, allowed, step⟩ := next
    exact preserved _ label _ (reachable.steps before) ih allowed step

theorem Reachable.invariant {P : State → Prop} (initial : ∀ a, m.init a → P a)
    (preserved : ∀ a label b, m.Reachable guard a → P a → guard a label →
      m.step a label = some (.ok b) → P b)
    (h : m.Reachable guard s) : P s := by
  obtain ⟨start, init, steps⟩ := h
  exact Steps.invariant (.initial init) (initial start init) preserved steps

/-- A guard that every reachable step meets. -/
theorem Reachable.strengthen {stronger : State → Label → Prop}
    (implied : ∀ a label, m.Reachable guard a → guard a label → stronger a label) (h : m.Reachable guard s) :
    m.Reachable stronger s :=
  h.invariant (fun _ init => .initial init) fun a label _ reached before allowed step =>
    before.next (implied a label reached allowed) step

theorem Reachable.mono {weaker : State → Label → Prop} (implied : ∀ s label, guard s label → weaker s label)
    (h : m.Reachable guard s) : m.Reachable weaker s :=
  h.strengthen fun a label _ => implied a label

section Projection

variable {State' Label' Fault' : Type} {m' : Machine State' Label' Fault'} {guard' : State' → Label' → Prop}
  {f : State → State'}

/-- A part of the state that each step changes by steps of another machine. -/
theorem Steps.project
    (step : ∀ a label b, guard a label → m.step a label = some (.ok b) → m'.Steps guard' (f a) (f b))
    (h : m.Steps guard s t) : m'.Steps guard' (f s) (f t) := by
  induction h with
  | refl => exact .refl
  | tail _ next ih =>
    obtain ⟨label, allowed, stepped⟩ := next
    exact ih.trans (step _ label _ allowed stepped)

theorem Reachable.project (initial : ∀ a, m.init a → m'.init (f a))
    (step : ∀ a label b, guard a label → m.step a label = some (.ok b) → m'.Steps guard' (f a) (f b))
    (h : m.Reachable guard s) : m'.Reachable guard' (f s) := by
  obtain ⟨start, init, steps⟩ := h
  exact ⟨f start, initial start init, steps.project step⟩

end Projection

theorem exists_end (h : Acc (fun b a => m.Next guard a b) s) : ∃ t, m.Steps guard s t ∧ ∀ u, ¬m.Next guard t u := by
  induction h with
  | intro a _ ih =>
    by_cases stuck : ∃ b, m.Next guard a b
    · obtain ⟨b, next⟩ := stuck
      obtain ⟨t, steps, last⟩ := ih b next
      exact ⟨t, .head next steps, last⟩
    · exact ⟨a, .refl, fun u next => stuck ⟨u, next⟩⟩

/-- Steps that each meet the guard, with what is seen of them. -/
inductive Trace {Seen : Type} (m : Machine State Label Fault) (guard : State → Label → Prop)
    (see : State → Label → List Seen) (s : State) : List Seen → State → Prop where
  | refl : Trace m guard see s [] s
  | tail {seen : List Seen} {t u : State} {label : Label} (before : Trace m guard see s seen t)
      (allowed : guard t label) (step : m.step t label = some (.ok u)) :
      Trace m guard see s (seen ++ see t label) u

theorem Trace.steps {Seen : Type} {see : State → Label → List Seen} {seen : List Seen}
    (h : m.Trace guard see s seen t) : m.Steps guard s t := by
  induction h with
  | refl => exact .refl
  | tail _ allowed step ih => exact ih.tail ⟨_, allowed, step⟩

/-- Runs a list of labels; `none` when one is not enabled, aborts, or breaks the guard. -/
def exec (m : Machine State Label Fault) (guard : State → Label → Prop)
    [∀ s label, Decidable (guard s label)] : State → List Label → Option State
  | s, [] => some s
  | s, label :: rest =>
    if guard s label then
      match m.step s label with
      | some (.ok t) => exec m guard t rest
      | _ => none
    else none

theorem exec_steps [∀ s label, Decidable (guard s label)] {labels : List Label}
    (h : m.exec guard s labels = some t) : m.Steps guard s t := by
  induction labels generalizing s with
  | nil =>
    obtain rfl := Option.some.inj h
    exact .refl
  | cons label rest ih =>
    rw [exec] at h
    split at h
    · rename_i allowed
      split at h
      · rename_i next step
        exact .head ⟨label, allowed, step⟩ (ih h)
      · exact absurd h (by simp)
    · exact absurd h (by simp)

/-- A run of labels that meet the guard in every state. -/
theorem exec_allowed {labels : List Label} (allowed : ∀ label ∈ labels, ∀ a, guard a label)
    (h : m.exec anyStep s labels = some t) : m.Steps guard s t := by
  induction labels generalizing s with
  | nil =>
    obtain rfl := Option.some.inj h
    exact .refl
  | cons label rest ih =>
    rw [exec, if_pos (show anyStep s label from trivial)] at h
    split at h
    · rename_i next step
      exact .head ⟨label, allowed label List.mem_cons_self s, step⟩
        (ih (fun other member => allowed other (List.mem_cons_of_mem _ member)) h)
    · exact absurd h (by simp)

theorem exec_trace {Seen : Type} {see : State → Label → List Seen} {seen : List Seen} {start : State}
    {labels : List Label} (before : m.Trace guard see start seen s) (allowed : ∀ label ∈ labels, ∀ a, guard a label)
    (h : m.exec anyStep s labels = some t) : ∃ seen, m.Trace guard see start seen t := by
  induction labels generalizing s seen with
  | nil =>
    obtain rfl := Option.some.inj h
    exact ⟨seen, before⟩
  | cons label rest ih =>
    rw [exec, if_pos (show anyStep s label from trivial)] at h
    split at h
    · rename_i next step
      exact ih (before.tail (allowed label List.mem_cons_self s) step)
        (fun other member => allowed other (List.mem_cons_of_mem _ member)) h
    · exact absurd h (by simp)

/-- A decidable property of the state that a concrete run ends in. -/
theorem exec_reaches (m : Machine State Label Fault) (guard : State → Label → Prop)
    [∀ s label, Decidable (guard s label)] (s : State) (labels : List Label)
    (P : State → Prop) [DecidablePred P] (initial : m.init s)
    (h : (m.exec guard s labels).any (fun t => decide (P t)) = true) :
    ∃ t, m.Reachable guard t ∧ P t := by
  cases found : m.exec guard s labels with
  | none => simp [found] at h
  | some t =>
    rw [found] at h
    exact ⟨t, ⟨s, initial, exec_steps found⟩, by simpa using h⟩

end Machine

end Dserver.Lib
