import Mathlib.Tactic.Common

/-!
# Decimal numerals in octets

Natural numbers as strings of ASCII digits, and the number that a string of digits
stands for.
-/

namespace HeapHttpd

namespace Decimal

/-- The digits of a number. -/
def digits (number : Nat) : List UInt8 :=
  (Nat.toDigits 10 number).map fun digit => UInt8.ofNat digit.toNat

/-- Whether an octet is a digit. -/
def isDigit (octet : UInt8) : Bool :=
  0x30 ≤ octet && octet ≤ 0x39

/-- The number of a string of digits. -/
def value (text : List UInt8) : Nat :=
  text.foldl (fun value digit => value * 10 + (digit.toNat - 0x30)) 0

theorem toNat_of_isDigit {digit : Char} (isDigit : digit.isDigit) :
    48 ≤ digit.toNat ∧ digit.toNat ≤ 57 := by
  simp only [Char.isDigit, Bool.and_eq_true, decide_eq_true_eq, ge_iff_le,
    UInt32.le_iff_toNat_le] at isDigit
  exact isDigit

theorem isDigit_of_mem_digits {number : Nat} {octet : UInt8} (member : octet ∈ digits number) :
    isDigit octet := by
  obtain ⟨digit, inDigits, rfl⟩ := List.mem_map.mp member
  have bounds := toNat_of_isDigit
    (Nat.isDigit_of_mem_toDigits (by decide) (by decide) inDigits)
  simp only [isDigit, Bool.and_eq_true, decide_eq_true_eq, UInt8.le_iff_toNat_le,
    UInt8.toNat_ofNat']
  have : (0x30 : UInt8).toNat = 48 := rfl
  have : (0x39 : UInt8).toNat = 57 := rfl
  omega

theorem digits_ne_nil (number : Nat) : digits number ≠ [] := by
  rw [digits, Ne, List.map_eq_nil_iff]
  exact Nat.toDigits_ne_nil

theorem foldl_digits {text : List Char} (isDigits : ∀ digit ∈ text, digit.isDigit)
    (start : Nat) :
    (text.map fun digit => UInt8.ofNat digit.toNat).foldl
        (fun value digit => value * 10 + (digit.toNat - 0x30)) start =
      Nat.ofDigitChars 10 text start := by
  induction text generalizing start with
  | nil => simp
  | cons digit text ih =>
      have bounds := toNat_of_isDigit (isDigits digit List.mem_cons_self)
      have low : (UInt8.ofNat digit.toNat).toNat = digit.toNat := by
        rw [UInt8.toNat_ofNat']
        omega
      rw [List.map_cons, List.foldl_cons, Nat.ofDigitChars_cons, low, Nat.mul_comm start,
        ih fun digit member => isDigits digit (List.mem_cons_of_mem _ member)]
      rfl

/-- The digits of a number stand for it. -/
@[simp]
theorem value_digits (number : Nat) : value (digits number) = number := by
  rw [value, digits, foldl_digits fun digit member =>
    Nat.isDigit_of_mem_toDigits (by decide) (by decide) member]
  exact Nat.ofDigitChars_toDigits (by decide) (by decide)

theorem digits_inj {first second : Nat} : digits first = digits second ↔ first = second := by
  constructor
  case mp =>
    intro same
    rw [← value_digits first, same, value_digits]
  case mpr => rintro rfl; rfl

end Decimal

end HeapHttpd
