import Mathlib.Data.List.Infix

/-!
# Walks below a root

A path is walked move by move: one move stays, goes up, or goes down into
something named.  A walk leaves its root where it goes up from there.
-/

namespace HeapHttpd

namespace Descent

variable {α : Type*}

/-- One move of a walk. -/
inductive Move (α : Type*)
  | stay
  | up
  | down (name : α)
  deriving DecidableEq

def Move.isUp : Move α → Bool
  | .up => true
  | _ => false

def Move.isDown : Move α → Bool
  | .down _ => true
  | _ => false

/-- A place below the root as the names that lead to it, the last one first; none
is outside. -/
def move : Option (List α) → Move α → Option (List α)
  | none, _ => none
  | some place, .stay => some place
  | some [], .up => none
  | some (_ :: place), .up => some place
  | some place, .down name => some (name :: place)

/-- The walk from a place never leaves the root. -/
def StaysFrom (place : List α) (moves : List (Move α)) : Prop :=
  (moves.foldl move (some place)).isSome

/-- The walk from the root never leaves it. -/
def Stays (moves : List (Move α)) : Prop :=
  StaysFrom [] moves

instance (moves : List (Move α)) : Decidable (Stays moves) := by
  unfold Stays StaysFrom
  infer_instance

theorem foldl_none (moves : List (Move α)) : moves.foldl move none = none := by
  induction moves with
  | nil => rfl
  | cons first moves ih => exact ih

@[simp]
theorem staysFrom_nil (place : List α) : StaysFrom place [] :=
  rfl

@[simp]
theorem staysFrom_stay {place : List α} {moves : List (Move α)} :
    StaysFrom place (.stay :: moves) ↔ StaysFrom place moves :=
  Iff.rfl

@[simp]
theorem staysFrom_down {place : List α} {moves : List (Move α)} {name : α} :
    StaysFrom place (.down name :: moves) ↔ StaysFrom (name :: place) moves := by
  cases place <;> rfl

@[simp]
theorem staysFrom_up_root {moves : List (Move α)} : ¬ StaysFrom [] (.up :: moves) := by
  simp [StaysFrom, move, foldl_none]

@[simp]
theorem staysFrom_up {name : α} {place : List α} {moves : List (Move α)} :
    StaysFrom (name :: place) (.up :: moves) ↔ StaysFrom place moves :=
  Iff.rfl

/-- A walk stays below its root if and only if no beginning of it has more moves up
than moves down and names to start with. -/
theorem staysFrom_iff {place : List α} {moves : List (Move α)} :
    StaysFrom place moves ↔
      ∀ start, start <+: moves →
        start.countP Move.isUp ≤ place.length + start.countP Move.isDown := by
  induction moves generalizing place with
  | nil => simp
  | cons first moves ih =>
      have split (holds : List (Move α) → Prop) :
          (∀ start, start <+: first :: moves → holds start) ↔
            holds [] ∧ ∀ start, start <+: moves → holds (first :: start) := by
        simp only [List.prefix_cons_iff]
        constructor
        · exact fun all => ⟨all [] (.inl rfl), fun start begins => all _ (.inr ⟨start, rfl, begins⟩)⟩
        · rintro ⟨empty, later⟩ start (rfl | ⟨rest, rfl, begins⟩)
          · exact empty
          · exact later rest begins
      rw [split]
      cases first with
      | stay => simp [ih, Move.isUp, Move.isDown]
      | down name =>
          have shift (ups count downs : Nat) : ups ≤ count + 1 + downs ↔ ups ≤ count + (downs + 1) := by
            omega
          simp [ih, List.countP_cons, Move.isUp, Move.isDown, shift]
      | up =>
          cases place with
          | nil =>
              simp only [staysFrom_up_root, false_iff, not_and, not_forall]
              intro _
              exact ⟨[], List.nil_prefix, by simp [Move.isUp, Move.isDown]⟩
          | cons name place =>
              have shift (ups downs : Nat) :
                  ups + 1 ≤ place.length + 1 + downs ↔ ups ≤ place.length + downs := by
                omega
              simp [ih, List.countP_cons, Move.isUp, Move.isDown, shift]

/-- A walk from the root stays below it if and only if no beginning of it has more
moves up than moves down. -/
theorem stays_iff {moves : List (Move α)} :
    Stays moves ↔
      ∀ start, start <+: moves → start.countP Move.isUp ≤ start.countP Move.isDown := by
  simp [Stays, staysFrom_iff]

end Descent

end HeapHttpd
