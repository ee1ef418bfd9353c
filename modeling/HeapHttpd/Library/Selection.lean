import Mathlib.Data.List.GetD
import Mathlib.Tactic.Common

/-!
# Selections

A table of places, counted from one, says which items of a list come one after the other.
-/

namespace HeapHttpd

namespace Selection

variable {α : Type*} [Inhabited α] {table inner : List Nat} {items : List α}

/-- The items at the places of a table. -/
def select (table : List Nat) (items : List α) : List α :=
  table.map fun place => items.getD (place - 1) default

@[simp]
theorem length_select (table : List Nat) (items : List α) :
    (select table items).length = table.length :=
  List.length_map _

theorem getD_select {index : Nat} (inside : index < table.length) :
    (select table items).getD index default = items.getD (table.getD index 0 - 1) default := by
  rw [List.getD_eq_getElem _ _ (by rwa [length_select]), List.getD_eq_getElem _ _ inside]
  exact List.getElem_map _

/-- A selection of a selection is one selection. -/
theorem select_select (places : ∀ place ∈ table, 0 < place ∧ place ≤ inner.length) :
    select table (select inner items) = select (select table inner) items := by
  unfold select
  rw [List.map_map]
  refine List.map_congr_left fun place member => ?_
  obtain ⟨positive, bound⟩ := places place member
  have inside : place - 1 < inner.length := by omega
  have selected : (select inner items).getD (place - 1) default = _ := getD_select inside
  rw [Function.comp_apply, List.getD_eq_getElem _ (default : Nat) inside]
  rw [List.getD_eq_getElem _ _ inside] at selected
  exact selected

theorem select_range' (items : List α) : select (List.range' 1 items.length) items = items := by
  unfold select
  refine List.ext_getElem (by rw [List.length_map, List.length_range']) ?_
  intro index inside inside'
  rw [List.getElem_map, List.getElem_range', Nat.one_mul, Nat.add_sub_cancel_left,
    List.getD_eq_getElem _ _ inside']

/-- Two tables undo each other where one selected from the other counts up. -/
theorem select_select_cancel (places : ∀ place ∈ table, 0 < place ∧ place ≤ inner.length)
    (counts : select table inner = List.range' 1 items.length) :
    select table (select inner items) = items := by
  rw [select_select places, counts, select_range']

/-! ## Pieces of one length -/

omit [Inhabited α] in
theorem length_flatMap_range {piece : Nat → List α} {width : Nat}
    (equal : ∀ index, (piece index).length = width) (count : Nat) :
    ((List.range count).flatMap piece).length = width * count := by
  induction count with
  | zero => rfl
  | succ count ih =>
      rw [List.range_succ, List.flatMap_append, List.length_append, ih, List.flatMap_singleton,
        equal, Nat.mul_succ]

omit [Inhabited α] in
/-- An item of pieces of one length, one after the other. -/
theorem getD_flatMap_range {piece : Nat → List α} {width count place : Nat}
    (equal : ∀ index, (piece index).length = width) (inside : place < width * count)
    (fallback : α) :
    ((List.range count).flatMap piece).getD place fallback =
      (piece (place / width)).getD (place % width) fallback := by
  induction count with
  | zero => exact absurd inside (by rw [Nat.mul_zero]; omega)
  | succ count ih =>
      have length := length_flatMap_range equal count
      rw [List.range_succ, List.flatMap_append, List.flatMap_singleton]
      by_cases earlier : place < width * count
      · rw [List.getD_append _ _ _ _ (by omega), ih earlier]
      · obtain ⟨offset, rfl⟩ := Nat.exists_eq_add_of_le (Nat.le_of_not_lt earlier)
        have few : offset < width := by
          rw [Nat.mul_succ] at inside
          omega
        rw [List.getD_append_right _ _ _ _ (by omega), length, Nat.add_sub_cancel_left,
          Nat.mul_add_div (by omega), Nat.div_eq_of_lt few, Nat.add_zero, Nat.mul_add_mod,
          Nat.mod_eq_of_lt few]

end Selection

end HeapHttpd
