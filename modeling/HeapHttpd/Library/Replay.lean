import Mathlib.Tactic.Common

/-!
# Replayed events

A state that events change one after the other, and conditions that every event
meets in the state it comes to.
-/

namespace HeapHttpd

namespace Replay

variable {σ ε : Type*} {apply : σ → ε → σ}

/-- Every event meets a condition in the state the events before it lead to. -/
inductive Throughout (apply : σ → ε → σ) (condition : σ → ε → Prop) : σ → List ε → Prop
  | nil (state : σ) : Throughout apply condition state []
  | cons (state : σ) (event : ε) (rest : List ε) (now : condition state event)
      (later : Throughout apply condition (apply state event) rest) :
      Throughout apply condition state (event :: rest)

variable {condition property : σ → ε → Prop} {state : σ}

@[simp]
theorem throughout_nil : Throughout apply condition state [] :=
  .nil state

@[simp]
theorem throughout_cons {event : ε} {rest : List ε} :
    Throughout apply condition state (event :: rest) ↔
      condition state event ∧ Throughout apply condition (apply state event) rest := by
  constructor
  · intro met
    cases met with
    | cons _ _ _ now later => exact ⟨now, later⟩
  · exact fun met => .cons state event rest met.1 met.2

theorem throughout_append {first second : List ε} :
    Throughout apply condition state (first ++ second) ↔
      Throughout apply condition state first ∧
        Throughout apply condition (first.foldl apply state) second := by
  induction first generalizing state with
  | nil => simp
  | cons event first ih => simp [ih, and_assoc]

instance instDecidableThroughout [∀ state event, Decidable (condition state event)] :
    ∀ (state : σ) (events : List ε), Decidable (Throughout apply condition state events)
  | _, [] => isTrue throughout_nil
  | state, event :: rest =>
      have : Decidable (Throughout apply condition (apply state event) rest) :=
        instDecidableThroughout (apply state event) rest
      decidable_of_iff (condition state event ∧ _) throughout_cons.symm

/-- What every event has in whatever state. -/
theorem Throughout.mem {events : List ε} (met : Throughout apply condition state events)
    {event : ε} (member : event ∈ events) : ∃ state, condition state event := by
  induction met with
  | nil state => cases member
  | cons state first rest now later ih =>
      rcases List.mem_cons.mp member with rfl | isLater
      · exact ⟨state, now⟩
      · exact ih isLater

/-- What every event meets, each of them meets where it stands. -/
theorem Throughout.at {before after : List ε} {event : ε}
    (met : Throughout apply condition state (before ++ event :: after)) :
    condition (before.foldl apply state) event :=
  (throughout_cons.mp (throughout_append.mp met).2).1

/-- A condition under which each event keeps an invariant and has a property. -/
theorem Throughout.keeps {inv : σ → Prop} {events : List ε}
    (met : Throughout apply condition state events) (holds : inv state)
    (step : ∀ state, inv state → ∀ event ∈ events, condition state event →
      property state event ∧ inv (apply state event)) :
    Throughout apply property state events ∧ inv (events.foldl apply state) := by
  induction met with
  | nil state => exact ⟨throughout_nil, holds⟩
  | cons state event rest now later ih =>
      have first := step state holds event List.mem_cons_self now
      have behind := ih first.2 fun state holds event member =>
        step state holds event (List.mem_cons_of_mem _ member)
      exact ⟨throughout_cons.mpr ⟨first.1, behind.1⟩, behind.2⟩

/-- A condition under which each event keeps an invariant. -/
theorem Throughout.invariant {inv : σ → Prop} {events : List ε}
    (met : Throughout apply condition state events) (holds : inv state)
    (step : ∀ state, inv state → ∀ event ∈ events, condition state event →
      inv (apply state event)) : inv (events.foldl apply state) := by
  have kept : Throughout apply (fun _ _ => True) state events ∧ inv (events.foldl apply state) :=
    met.keeps holds fun state holds event member now => ⟨trivial, step state holds event member now⟩
  exact kept.2

/-- What is asked of every event is met throughout exactly if a condition is, when this is
so for one event that meets what is assumed, in a state with an invariant that good events
keep. -/
theorem throughout_iff_of {inv : σ → Prop} {assumed : σ → ε → Prop} {events : List ε}
    (given : Throughout apply assumed state events) (holds : inv state)
    (step : ∀ state, inv state → ∀ event, assumed state event →
      (property state event ↔ condition state event) ∧
        (property state event → inv (apply state event))) :
    Throughout apply property state events ↔ Throughout apply condition state events := by
  induction given with
  | nil state => simp
  | cons state event rest now later ih =>
      obtain ⟨same, kept⟩ := step state holds event now
      rw [throughout_cons, throughout_cons, ← same]
      exact and_congr_right fun good => ih (kept good)

theorem throughout_true (events : List ε) : Throughout apply (fun _ _ => True) state events := by
  induction events generalizing state with
  | nil => exact throughout_nil
  | cons event rest ih => exact throughout_cons.mpr ⟨trivial, ih⟩

/-- The same without an assumption. -/
theorem throughout_iff {inv : σ → Prop} {events : List ε} (holds : inv state)
    (step : ∀ state, inv state → ∀ event, (property state event ↔ condition state event) ∧
      (property state event → inv (apply state event))) :
    Throughout apply property state events ↔ Throughout apply condition state events :=
  throughout_iff_of (throughout_true events) holds fun state holds event _ =>
    step state holds event

end Replay

end HeapHttpd
