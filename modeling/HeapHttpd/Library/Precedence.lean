import Mathlib.Tactic.Common

/-!
# Precedence in a trace

A trace is a list of events.  Some of them are effects, and none may stand in the
trace without a cause before it.
-/

namespace HeapHttpd

namespace Precedence

variable {α : Type*}

/-- No effect stands in a trace without a cause before it. -/
def Caused (cause effect : α → Prop) (trace : List α) : Prop :=
  ∀ before event after, trace = before ++ event :: after → effect event →
    ∃ earlier ∈ before, cause earlier

variable {cause effect : α → Prop} {trace more : List α}

theorem caused_nil : Caused cause effect ([] : List α) := by
  intro before event after split
  simp at split

/-- A trace with effects that go on from a cause, or without further effects. -/
theorem Caused.append (caused : Caused cause effect trace)
    (next : (∃ event ∈ trace, cause event) ∨ ∀ event ∈ more, ¬ effect event) :
    Caused cause effect (trace ++ more) := by
  intro before event after split isEffect
  rcases List.append_eq_append_iff.mp split with ⟨behind, isBefore, isMore⟩ | ⟨rest, isTrace, isRest⟩
  · rcases next with ⟨first, member, isCause⟩ | noEffect
    · exact ⟨first, by rw [isBefore]; exact List.mem_append_left _ member, isCause⟩
    · have member : event ∈ more := by
        rw [isMore]
        exact List.mem_append_right _ List.mem_cons_self
      exact absurd isEffect (noEffect event member)
  · cases rest with
    | nil =>
        rw [List.append_nil] at isTrace
        rcases next with ⟨first, member, isCause⟩ | noEffect
        · exact ⟨first, by rwa [← isTrace], isCause⟩
        · have member : event ∈ more := by
            have := congrArg (event ∈ ·) isRest
            simpa using this
          exact absurd isEffect (noEffect event member)
    | cons first rest =>
        rw [List.cons_append, List.cons.injEq] at isRest
        rw [← isRest.1] at isTrace
        exact caused before event rest isTrace isEffect

end Precedence

end HeapHttpd
