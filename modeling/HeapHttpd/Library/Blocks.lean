import Mathlib.Data.List.Basic
import Mathlib.Data.List.Induction
import Mathlib.Tactic.Common

/-!
# Data in blocks

Blocks of one width that are replaced in place, and data that comes in pieces and is taken block by
block: what matters is only what has come all in all.
-/

namespace HeapHttpd

namespace Blocks

/-! ## Blocks replaced in place -/

section Replace

variable {α : Type*} {width : Nat} {step back : List α → List α}

/-- Each of some blocks from the front is replaced. -/
def replace (width : Nat) (step : List α → List α) : Nat → List α → List α
  | 0, data => data
  | count + 1, data => step (data.take width) ++ replace width step count (data.drop width)

theorem length_replace (keeps : ∀ block, block.length = width → (step block).length = width)
    {count : Nat} {data : List α} (whole : data.length = width * count) :
    (replace width step count data).length = data.length := by
  induction count generalizing data with
  | zero => rfl
  | succ count ih =>
      rw [Nat.mul_succ] at whole
      have first : (data.take width).length = width := by
        rw [List.length_take]
        omega
      have rest : (data.drop width).length = width * count := by
        rw [List.length_drop]
        omega
      rw [replace, List.length_append, keeps _ first, ih rest, rest]
      omega

/-- What stands behind the blocks stays. -/
theorem replace_append {count : Nat} {data : List α} (whole : data.length = width * count)
    (rest : List α) :
    replace width step count (data ++ rest) = replace width step count data ++ rest := by
  induction count generalizing data with
  | zero => rfl
  | succ count ih =>
      rw [Nat.mul_succ] at whole
      have left : (data.drop width).length = width * count := by
        rw [List.length_drop]
        omega
      rw [replace, replace, List.take_append_of_le_length (by omega),
        List.drop_append_of_le_length (by omega), ih left, List.append_assoc]

/-- What undoes a step on a block undoes it on all of them. -/
theorem replace_replace (keeps : ∀ block, block.length = width → (step block).length = width)
    (undoes : ∀ block, block.length = width → back (step block) = block)
    {count : Nat} {data : List α} (whole : data.length = width * count) :
    replace width back count (replace width step count data) = data := by
  induction count generalizing data with
  | zero => rfl
  | succ count ih =>
      rw [Nat.mul_succ] at whole
      have first : (data.take width).length = width := by
        rw [List.length_take]
        omega
      have rest : (data.drop width).length = width * count := by
        rw [List.length_drop]
        omega
      rw [replace, replace, List.take_left' (keeps _ first), List.drop_left' (keeps _ first),
        undoes _ first, ih rest, List.take_append_drop]

end Replace

/-! ## Blocks taken from a stream -/

section Absorb

variable {α σ : Type*} {width : Nat} {compress : σ → List α → σ} {state : σ} {rest data : List α}

/-- The next item of a stream, with the items before it that do not fill a block. -/
def absorbItem (width : Nat) (compress : σ → List α → σ) (absorbed : σ × List α) (item : α) :
    σ × List α :=
  if absorbed.2.length + 1 = width then (compress absorbed.1 (absorbed.2 ++ [item]), [])
  else (absorbed.1, absorbed.2 ++ [item])

/-- Further items of a stream. -/
def absorb (width : Nat) (compress : σ → List α → σ) (absorbed : σ × List α) (data : List α) :
    σ × List α :=
  data.foldl (absorbItem width compress) absorbed

/-- The state behind some whole blocks. -/
def compressAll (width : Nat) (compress : σ → List α → σ) : Nat → σ → List α → σ
  | 0, state, _ => state
  | count + 1, state, data =>
      compressAll width compress count (compress state (data.take width)) (data.drop width)

theorem absorb_singleton (absorbed : σ × List α) (item : α) :
    absorb width compress absorbed [item] = absorbItem width compress absorbed item :=
  rfl

/-- How the items are divided does not matter. -/
theorem absorb_append (absorbed : σ × List α) (first second : List α) :
    absorb width compress absorbed (first ++ second) =
      absorb width compress (absorb width compress absorbed first) second :=
  List.foldl_append

/-- Items that do not fill the block. -/
theorem absorb_short (short : rest.length + data.length < width) :
    absorb width compress (state, rest) data = (state, rest ++ data) := by
  induction data generalizing rest with
  | nil => rw [List.append_nil]; rfl
  | cons item data ih =>
      rw [List.length_cons] at short
      have more : ¬rest.length + 1 = width := by omega
      have step : absorb width compress (state, rest) (item :: data) =
          absorb width compress (state, rest ++ [item]) data := by
        rw [absorb, List.foldl_cons, absorbItem, if_neg more]
        rfl
      rw [step, ih (by rw [List.length_append, List.length_singleton]; omega), List.append_assoc,
        List.singleton_append]

/-- Items that just fill the block. -/
theorem absorb_full (full : rest.length + data.length = width) (some' : data ≠ []) :
    absorb width compress (state, rest) data = (compress state (rest ++ data), []) := by
  obtain ⟨front, item, rfl⟩ : ∃ front item, data = front ++ [item] :=
    ⟨_, _, (List.dropLast_append_getLast some').symm⟩
  rw [List.length_append, List.length_singleton] at full
  have last : (rest ++ front).length + 1 = width := by
    rw [List.length_append]
    omega
  have before : absorb width compress (state, rest) front = (state, rest ++ front) :=
    absorb_short (by omega)
  rw [absorb_append, before, absorb_singleton, absorbItem, if_pos last, List.append_assoc]

/-- How many items are left. -/
theorem length_absorb (positive : 0 < width) (state : σ) (data : List α) :
    (absorb width compress (state, []) data).2.length = data.length % width := by
  induction data using List.reverseRecOn with
  | nil => exact (Nat.zero_mod width).symm
  | append_singleton data item ih =>
      have bound := Nat.mod_lt data.length positive
      rw [absorb_append, absorb_singleton, absorbItem, List.length_append, List.length_singleton,
        ih]
      by_cases full : data.length % width + 1 = width
      · rw [if_pos full]
        obtain ⟨count, division⟩ : ∃ count, data.length + 1 = width * (count + 1) := by
          refine ⟨data.length / width, ?_⟩
          have whole := Nat.div_add_mod data.length width
          rw [Nat.mul_succ]
          omega
        rw [division, Nat.mul_mod_right]
        rfl
      · rw [if_neg full, List.length_append, List.length_singleton, ih]
        have small : data.length % width + 1 < width := by omega
        have whole := Nat.div_add_mod data.length width
        have sum : data.length + 1 = width * (data.length / width) + (data.length % width + 1) := by
          omega
        rw [sum, Nat.mul_add_mod, Nat.mod_eq_of_lt small]

/-- A stream of whole blocks. -/
theorem absorb_whole (positive : 0 < width) {count : Nat} (whole : data.length = width * count) :
    absorb width compress (state, []) data = (compressAll width compress count state data, []) := by
  induction count generalizing state data with
  | zero =>
      obtain rfl := List.eq_nil_of_length_eq_zero whole
      rfl
  | succ count ih =>
      rw [Nat.mul_succ] at whole
      have first : (data.take width).length = width := by
        rw [List.length_take]
        omega
      have left : (data.drop width).length = width * count := by
        rw [List.length_drop]
        omega
      have some' : data.take width ≠ [] := by
        intro none'
        rw [none', List.length_nil] at first
        omega
      have divided : absorb width compress (state, []) (data.take width ++ data.drop width) = _ :=
        absorb_append (state, []) (data.take width) (data.drop width)
      rw [List.take_append_drop] at divided
      rw [divided, absorb_full (by rw [first]; exact Nat.zero_add _) some', List.nil_append,
        ih left]
      rfl

end Absorb

end Blocks

end HeapHttpd
