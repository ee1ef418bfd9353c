import Mathlib.Data.List.Basic
import Mathlib.Tactic.Common

/-!
# Feistel networks

A round mixes a function of one half of a block into the other half.  Which function does not
matter: the rounds in the opposite order take it out again.
-/

namespace HeapHttpd

namespace Feistel

/-! ## Steps that undo themselves -/

section Steps

variable {ι β : Type*} {step : ι → β → β}

/-- Steps that undo themselves, one after the other, and back. -/
theorem foldl_reverse_foldl (involutive : ∀ index block, step index (step index block) = block)
    (indices : List ι) (block : β) :
    indices.reverse.foldl (fun block index => step index block)
      (indices.foldl (fun block index => step index block) block) = block := by
  induction indices generalizing block with
  | nil => rfl
  | cons index indices ih =>
      rw [List.foldl_cons, List.reverse_cons, List.foldl_append, ih]
      exact involutive index block

theorem foldl_foldl_reverse (involutive : ∀ index block, step index (step index block) = block)
    (indices : List ι) (block : β) :
    indices.foldl (fun block index => step index block)
      (indices.reverse.foldl (fun block index => step index block) block) = block := by
  have back := foldl_reverse_foldl involutive indices.reverse block
  rwa [List.reverse_reverse] at back

end Steps

/-! ## Rounds -/

section Rounds

variable {α : Type*} (mix : α → α → α) (secret : Nat → α → α)

/-- A round as it is described: the halves change places, and one is mixed. -/
def round (num : Nat) (block : α × α) : α × α :=
  (block.2, mix block.1 (secret num block.2))

/-- A round in place: the halves take turns. -/
def roundInPlace (num : Nat) (block : α × α) : α × α :=
  if num % 2 = 1 then (block.1, mix block.2 (secret num block.1))
  else (mix block.1 (secret num block.2), block.2)

variable {mix}

theorem roundInPlace_roundInPlace (cancels : ∀ first second, mix (mix first second) second = first)
    (num : Nat) (block : α × α) :
    roundInPlace mix secret num (roundInPlace mix secret num block) = block := by
  unfold roundInPlace
  split
  · rw [cancels]
  · rw [cancels]

/-- After an odd number of rounds in place the halves have changed places. -/
theorem foldl_roundInPlace (count : Nat) (block : α × α) :
    (List.range count).foldl (fun block num => roundInPlace mix secret num block) block =
      let described := (List.range count).foldl (fun block num => round mix secret num block) block
      if count % 2 = 1 then described.swap else described := by
  induction count with
  | zero => rfl
  | succ count ih =>
      rw [List.range_succ, List.foldl_append, List.foldl_append, ih]
      dsimp only [List.foldl_cons, List.foldl_nil]
      generalize (List.range count).foldl (fun block num => round mix secret num block) block =
        described
      by_cases odd : count % 2 = 1
      · have even : ¬(count + 1) % 2 = 1 := by omega
        rw [if_pos odd, if_neg even, roundInPlace, if_pos odd]
        rfl
      · have odd' : (count + 1) % 2 = 1 := by omega
        rw [if_neg odd, if_pos odd', roundInPlace, if_neg odd]
        rfl

end Rounds

end Feistel

end HeapHttpd
