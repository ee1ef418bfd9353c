import Mathlib.Data.List.Basic

/-!
# Reading a text in pieces

A loop that takes one symbol after the other into its state, and that does something
else at a separator and at the end.
-/

namespace HeapHttpd

namespace Pieces

variable {Symbol State : Type*} [DecidableEq Symbol]

/-- The loop, which takes the end for a separator. -/
def readPieces (separator : Symbol) (take : State → Symbol → State) (close : State → State) :
    State → List Symbol → State
  | state, [] => close state
  | state, symbol :: text =>
      if symbol = separator then readPieces separator take close (close state) text
      else readPieces separator take close (take state symbol) text

variable {separator : Symbol} {take : State → Symbol → State} {close : State → State}

/-- Behind the symbols of a piece that were read already. -/
theorem readPieces_eq_foldl (state : State) (text : List Symbol) :
    readPieces separator take close state text =
      (text.splitOn separator).foldl (fun state piece => close (piece.foldl take state)) state := by
  induction text generalizing state with
  | nil => rfl
  | cons symbol text ih =>
      rw [readPieces, List.splitOn_cons_eq_if_modifyHead]
      by_cases isSeparator : symbol = separator
      · rw [if_pos isSeparator, if_pos (beq_iff_eq.mpr isSeparator), List.foldl_cons, ih]
        rfl
      · rw [if_neg isSeparator, if_neg (by simpa using isSeparator), ih]
        obtain ⟨piece, pieces, split⟩ :=
          List.exists_cons_of_ne_nil (List.splitOn_ne_nil separator text)
        rw [split]
        rfl

/-- The pieces hold no separator. -/
theorem not_mem_splitOn (separator : Symbol) (text : List Symbol) :
    ∀ piece ∈ text.splitOn separator, separator ∉ piece := by
  induction text with
  | nil => simp
  | cons symbol text ih =>
      rw [List.splitOn_cons_eq_if_modifyHead]
      by_cases isSeparator : symbol = separator
      · rw [if_pos (beq_iff_eq.mpr isSeparator)]
        exact List.forall_mem_cons.mpr ⟨List.not_mem_nil, ih⟩
      · rw [if_neg (by simpa using isSeparator)]
        obtain ⟨piece, pieces, split⟩ :=
          List.exists_cons_of_ne_nil (List.splitOn_ne_nil separator text)
        rw [split] at ih ⊢
        obtain ⟨first, others⟩ := List.forall_mem_cons.mp ih
        refine List.forall_mem_cons.mpr ⟨?_, others⟩
        rw [List.mem_cons, not_or]
        exact ⟨Ne.symm isSeparator, first⟩

end Pieces

end HeapHttpd
