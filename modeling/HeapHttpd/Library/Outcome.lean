import Mathlib.Tactic.Common

/-!
# Outcomes of partial machine code

A routine written over raw memory either returns a value, reports failure to
its caller, or leaves the defined behaviour of its language: it reads memory
outside every object, shifts too far, or overflows a signed integer.  The
three cases are kept apart, because a caller can react to a reported failure
and cannot react to a fault.
-/

namespace HeapHttpd

/-- What one call of a memory-level routine does. -/
inductive Outcome (α : Type*)
  | ok (value : α)
  | err
  | fault
  deriving DecidableEq, Repr

namespace Outcome

universe u

variable {α β γ : Type u}

/-- Sequencing: the first failure or fault ends the computation. -/
protected def bind : Outcome α → (α → Outcome β) → Outcome β
  | ok value, next => next value
  | err, _ => err
  | fault, _ => fault

instance : Monad Outcome where
  pure := ok
  bind := Outcome.bind

@[simp]
theorem pure_eq (value : α) : (pure value : Outcome α) = ok value :=
  rfl

@[simp]
theorem ok_bind (value : α) (next : α → Outcome β) :
    (ok value >>= next) = next value :=
  rfl

@[simp]
theorem err_bind (next : α → Outcome β) : ((err : Outcome α) >>= next) = err :=
  rfl

@[simp]
theorem fault_bind (next : α → Outcome β) :
    ((fault : Outcome α) >>= next) = fault :=
  rfl

theorem bind_eq_ok {first : Outcome α} {next : α → Outcome β} {result : β} :
    (first >>= next) = ok result ↔
      ∃ value, first = ok value ∧ next value = ok result := by
  cases first <;> simp

theorem bind_eq_err {first : Outcome α} {next : α → Outcome β} :
    (first >>= next) = err ↔
      first = err ∨ ∃ value, first = ok value ∧ next value = err := by
  cases first <;> simp

instance : LawfulMonad Outcome :=
  LawfulMonad.mk' Outcome (fun first => by cases first <;> rfl)
    (fun _ _ => rfl) (fun first _ _ => by cases first <;> rfl)

end Outcome

/-- A routine over a memory suffix that never looks past the bytes its result
depends on: memory added behind those present changes no defined result. -/
def StableUnderExtension {α β : Type*}
    (routine : List α → Outcome β) : Prop :=
  ∀ memory extra, routine memory ≠ .fault →
    routine (memory ++ extra) = routine memory

namespace StableUnderExtension

universe u

variable {α : Type*} {β γ : Type u}

theorem pure (result : Outcome β) :
    StableUnderExtension fun _ : List α => result :=
  fun _ _ _ => rfl

theorem ok {routine : List α → Outcome β} (stable : StableUnderExtension routine)
    {memory : List α} {value : β} (result : routine memory = .ok value)
    (extra : List α) : routine (memory ++ extra) = .ok value := by
  rw [stable memory extra (by simp [result]), result]

theorem err {routine : List α → Outcome β} (stable : StableUnderExtension routine)
    {memory : List α} (result : routine memory = .err)
    (extra : List α) : routine (memory ++ extra) = .err := by
  rw [stable memory extra (by simp [result]), result]

theorem bind {first : List α → Outcome β} {next : β → List α → Outcome γ}
    (firstStable : StableUnderExtension first)
    (nextStable : ∀ value, StableUnderExtension (next value)) :
    StableUnderExtension fun memory => first memory >>= fun value => next value memory := by
  intro memory extra defined
  cases result : first memory with
  | ok value =>
      have reached : next value memory ≠ .fault := by simpa [result] using defined
      simp only [firstStable.ok result extra, result, Outcome.ok_bind]
      exact nextStable value memory extra reached
  | err => simp only [firstStable.err result extra, result, Outcome.err_bind]
  | fault => simp [result] at defined

end StableUnderExtension

end HeapHttpd
