import Mathlib.Algebra.GroupWithZero.Nat
import Mathlib.Tactic.Common

/-!
# Tables that evict their oldest entries

A table of entries, the latest first, whose total size is bounded: the oldest
entries go when it grows too large.  What it has at any time is a beginning of
all that was ever inserted.
-/

namespace HeapHttpd

namespace EvictingTable

variable {α : Type*} (size : α → Nat)

/-- The entries that are left when a table must not be larger than a limit. -/
def evict (limit : Nat) : List α → List α
  | [] => []
  | entry :: older =>
      if size entry ≤ limit then entry :: evict (limit - size entry) older else []

/-- The total size of a table. -/
def total (table : List α) : Nat :=
  (table.map size).sum

theorem evict_isPrefix (limit : Nat) (table : List α) : evict size limit table <+: table := by
  induction table generalizing limit with
  | nil => exact List.nil_prefix
  | cons entry older ih =>
      unfold evict
      split
      · exact List.cons_prefix_cons.mpr ⟨rfl, ih _⟩
      · exact List.nil_prefix

theorem total_evict_le (limit : Nat) (table : List α) :
    total size (evict size limit table) ≤ limit := by
  induction table generalizing limit with
  | nil => simp [evict, total]
  | cons entry older ih =>
      unfold evict
      split
      · have rest := ih (limit - size entry)
        simp only [total, List.map_cons, List.sum_cons] at rest ⊢
        omega
      · simp [total]

/-- The tables that can be there when the entries of a history, the latest first,
have been inserted, where the bound of the table may change but is never above a
limit. -/
inductive Holds (limit : Nat) : List α → List α → Prop
  | start : Holds limit [] []
  | insert (history table : List α) (entry : α) (bound : Nat) (within : bound ≤ limit)
      (holds : Holds limit history table) :
      Holds limit (entry :: history) (evict size bound (entry :: table))
  | resize (history table : List α) (bound : Nat) (within : bound ≤ limit)
      (holds : Holds limit history table) : Holds limit history (evict size bound table)

variable {size}

theorem Holds.isPrefix {limit : Nat} {history table : List α}
    (holds : Holds size limit history table) : table <+: history := by
  induction holds with
  | start => exact List.nil_prefix
  | insert history table entry bound _ _ ih =>
      exact (evict_isPrefix size bound _).trans (List.cons_prefix_cons.mpr ⟨rfl, ih⟩)
  | resize history table bound _ _ ih => exact (evict_isPrefix size bound table).trans ih

theorem Holds.total_le {limit : Nat} {history table : List α}
    (holds : Holds size limit history table) : total size table ≤ limit := by
  cases holds with
  | start => simp [total]
  | insert _ _ _ bound within _ => exact Nat.le_trans (total_evict_le size bound _) within
  | resize _ _ bound within _ => exact Nat.le_trans (total_evict_le size bound _) within

theorem length_mul_le_total {least : Nat} (atLeast : ∀ entry, least ≤ size entry)
    (table : List α) : table.length * least ≤ total size table := by
  induction table with
  | nil => simp [total]
  | cons entry older ih =>
      have first := atLeast entry
      simp only [total, List.map_cons, List.sum_cons, List.length_cons, Nat.succ_mul] at ih ⊢
      omega

/-- Where no entry is smaller than `least`, there are not many. -/
theorem Holds.length_mul_le {limit least : Nat} {history table : List α}
    (holds : Holds size limit history table) (atLeast : ∀ entry, least ≤ size entry) :
    table.length * least ≤ limit :=
  Nat.le_trans (length_mul_le_total atLeast table) holds.total_le

end EvictingTable

end HeapHttpd
