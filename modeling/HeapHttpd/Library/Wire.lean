import Mathlib.Algebra.Group.Int.Defs
import Mathlib.Algebra.Group.Nat.Defs
import Mathlib.Data.List.Induction
import Mathlib.Data.List.Perm.Subperm
import Mathlib.Tactic.Common

/-!
# Items on a wire

Numbers in network order, and items that are written one behind the other and read
back with a reader for a single one.
-/

namespace HeapHttpd

namespace Wire

/-- The octets of a number in network order. -/
def write : Nat → Nat → List UInt8
  | 0, _ => []
  | width + 1, value => write width (value / 256) ++ [UInt8.ofNat value]

/-- The number that octets stand for in network order. -/
def read (octets : List UInt8) : Nat :=
  octets.foldl (fun value octet => value * 256 + octet.toNat) 0

@[simp]
theorem length_write (width value : Nat) : (write width value).length = width := by
  induction width generalizing value with
  | zero => rfl
  | succ width ih => simp [write, ih]

theorem read_append_octet (octets : List UInt8) (octet : UInt8) :
    read (octets ++ [octet]) = read octets * 256 + octet.toNat := by
  simp [read]

theorem read_write (width value : Nat) : read (write width value) = value % 256 ^ width := by
  induction width generalizing value with
  | zero => simp [write, read, Nat.mod_one]
  | succ width ih =>
      have low : (UInt8.ofNat value).toNat = value % 256 := by simp
      rw [write, read_append_octet, ih, low, Nat.pow_succ, Nat.mul_comm (256 ^ width) 256,
        Nat.mod_mul]
      omega

theorem read_lt (octets : List UInt8) : read octets < 256 ^ octets.length := by
  induction octets using List.reverseRecOn with
  | nil => exact Nat.one_pos
  | append_singleton octets octet ih =>
      have small := octet.toNat_lt
      rw [read_append_octet, List.length_append, List.length_singleton, Nat.pow_succ]
      omega

/-- Octets are written again as they were read. -/
theorem write_read {octets : List UInt8} {width : Nat} (isWidth : octets.length = width) :
    write width (read octets) = octets := by
  induction octets using List.reverseRecOn generalizing width with
  | nil =>
      subst isWidth
      rfl
  | append_singleton octets octet ih =>
      rw [List.length_append, List.length_singleton] at isWidth
      subst isWidth
      have small := octet.toNat_lt
      have high : (read octets * 256 + octet.toNat) / 256 = read octets := by omega
      have low : UInt8.ofNat (read octets * 256 + octet.toNat) = octet := by
        rw [← UInt8.toNat_inj, UInt8.toNat_ofNat']
        omega
      rw [read_append_octet, write, high, low, ih rfl]

section Items

variable {α β : Type*}

/-- The first elements, where there are enough. -/
def split (count : Nat) (text : List α) : Option (List α × List α) :=
  if count ≤ text.length then some (text.take count, text.drop count) else none

theorem split_append {front : List α} {count : Nat} (width : front.length = count)
    (rest : List α) : split count (front ++ rest) = some (front, rest) := by
  subst width
  simp [split]

theorem length_of_split {count : Nat} {text front rest : List α}
    (found : split count text = some (front, rest)) :
    front.length = count ∧ count + rest.length = text.length := by
  unfold split at found
  split at found
  case isTrue enough =>
    cases found
    rw [List.length_take, List.length_drop]
    omega
  case isFalse => cases found

/-- Items one behind the other, up to the end.  Each takes up at least one element. -/
def readItems (readItem : List α → Option (β × List α)) : Nat → List α → Option (List β)
  | _, [] => some []
  | 0, _ :: _ => none
  | fuel + 1, first :: others =>
      match readItem (first :: others) with
      | none => none
      | some (item, rest) => (readItems readItem fuel rest).map (item :: ·)

def readAll (readItem : List α → Option (β × List α)) (text : List α) : Option (List β) :=
  readItems readItem text.length text

variable {readItem : List α → Option (β × List α)} {writeItem : β → List α}

theorem readItems_flatMap {items : List β}
    (readsBack : ∀ item ∈ items, ∀ rest, readItem (writeItem item ++ rest) = some (item, rest))
    (positive : ∀ item ∈ items, writeItem item ≠ []) {fuel : Nat}
    (enough : (items.flatMap writeItem).length ≤ fuel) :
    readItems readItem fuel (items.flatMap writeItem) = some items := by
  induction items generalizing fuel with
  | nil => cases fuel <;> rfl
  | cons item items ih =>
      obtain ⟨first, others, written⟩ :=
        List.exists_cons_of_ne_nil (positive item List.mem_cons_self)
      have back := readsBack item List.mem_cons_self (items.flatMap writeItem)
      rw [List.flatMap_cons] at enough ⊢
      rw [written, List.cons_append] at back enough ⊢
      cases fuel with
      | zero => simp at enough
      | succ fuel =>
          have enough : (items.flatMap writeItem).length ≤ fuel := by
            simp only [List.length_cons, List.length_append] at enough
            omega
          rw [readItems, back]
          simp only
          rw [ih (fun other member => readsBack other (List.mem_cons_of_mem _ member))
            (fun other member => positive other (List.mem_cons_of_mem _ member)) enough]
          rfl

/-- Items that are read back one by one are read back together. -/
theorem readAll_flatMap {items : List β}
    (readsBack : ∀ item ∈ items, ∀ rest, readItem (writeItem item ++ rest) = some (item, rest))
    (positive : ∀ item ∈ items, writeItem item ≠ []) :
    readAll readItem (items.flatMap writeItem) = some items :=
  readItems_flatMap readsBack positive (Nat.le_refl _)

/-- What items take up together. -/
def total (size : β → Nat) (items : List β) : Nat :=
  items.foldr (fun item sum => size item + sum) 0

@[simp]
theorem total_nil (size : β → Nat) : total size [] = 0 :=
  rfl

@[simp]
theorem total_cons (size : β → Nat) (item : β) (items : List β) :
    total size (item :: items) = size item + total size items :=
  rfl

theorem length_flatMap_eq (writeItem : β → List α) (items : List β) :
    (items.flatMap writeItem).length = total (fun item => (writeItem item).length) items := by
  induction items with
  | nil => rfl
  | cons item items ih => simp [ih]

theorem total_perm (size : β → Nat) {items others : List β} (perm : items.Perm others) :
    total size items = total size others := by
  induction perm with
  | nil => rfl
  | cons item _ ih => rw [total_cons, total_cons, ih]
  | swap first second items =>
      simp only [total_cons]
      omega
  | trans _ _ ih ih' => exact ih.trans ih'

theorem total_append (size : β → Nat) (items others : List β) :
    total size (items ++ others) = total size items + total size others := by
  induction items with
  | nil => rw [List.nil_append, total_nil, Nat.zero_add]
  | cons item items ih =>
      rw [List.cons_append, total_cons, total_cons, ih, Nat.add_assoc]

theorem total_sublist (size : β → Nat) {items others : List β} (sublist : items.Sublist others) :
    total size items ≤ total size others := by
  induction sublist with
  | slnil => exact Nat.le_refl _
  | cons item _ ih => exact Nat.le_trans ih (Nat.le_add_left _ _)
  | cons_cons item _ ih => exact Nat.add_le_add_left ih _

/-- Different items that are among others take up no more than these. -/
theorem total_le_of_subset (size : β → Nat) {items others : List β} (distinct : items.Nodup)
    (among : items ⊆ others) : total size items ≤ total size others := by
  obtain ⟨same, perm, sublist⟩ := List.subperm_of_subset distinct among
  rw [← total_perm size perm]
  exact total_sublist size sublist

/-- Items that are of some kind, and the others. -/
theorem total_filter (size : β → Nat) (kind : β → Bool) (items : List β) :
    total size (items.filter kind) + total size (items.filter fun item => !kind item) =
      total size items := by
  induction items with
  | nil => rfl
  | cons item items ih =>
      rw [total_cons, List.filter_cons, List.filter_cons]
      cases kind item with
      | true =>
          rw [if_pos rfl, if_neg (by simp), total_cons]
          omega
      | false =>
          rw [if_neg (by simp), if_pos (by simp), total_cons]
          omega

/-- What is read takes up no more than there is. -/
theorem total_le_of_readItems {size : β → Nat} {fuel : Nat}
    (sized : ∀ text item rest, readItem text = some (item, rest) →
      size item + rest.length ≤ text.length) {text : List α} {items : List β}
    (found : readItems readItem fuel text = some items) : total size items ≤ text.length := by
  induction fuel generalizing text items with
  | zero =>
      cases text with
      | nil =>
          cases found
          exact Nat.le_refl _
      | cons first text => cases found
  | succ fuel ih =>
      cases text with
      | nil =>
          cases found
          exact Nat.le_refl _
      | cons first text =>
          rw [readItems] at found
          cases one : readItem (first :: text) with
          | none =>
              rw [one] at found
              cases found
          | some step =>
              obtain ⟨item, rest⟩ := step
              rw [one] at found
              simp only [Option.map_eq_some_iff] at found
              obtain ⟨others, later, rfl⟩ := found
              have others_le := ih later
              have item_le := sized _ item rest one
              rw [total_cons]
              omega

theorem total_le_of_readAll {size : β → Nat}
    (sized : ∀ text item rest, readItem text = some (item, rest) →
      size item + rest.length ≤ text.length) {text : List α} {items : List β}
    (found : readAll readItem text = some items) : total size items ≤ text.length :=
  total_le_of_readItems sized found

/-- The first of the items that are read back. -/
theorem head_of_readAll {text : List α} {items : List β} (nonempty : text ≠ [])
    (found : readAll readItem text = some items) :
    ∃ item rest others, readItem text = some (item, rest) ∧ items = item :: others := by
  cases text with
  | nil => exact absurd rfl nonempty
  | cons first text =>
      rw [readAll, List.length_cons, readItems] at found
      cases one : readItem (first :: text) with
      | none =>
          rw [one] at found
          cases found
      | some step =>
          obtain ⟨item, rest⟩ := step
          rw [one] at found
          simp only [Option.map_eq_some_iff] at found
          obtain ⟨others, -, rfl⟩ := found
          exact ⟨item, rest, others, rfl, rfl⟩

end Items

end Wire

end HeapHttpd
