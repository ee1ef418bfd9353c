import HeapHttpd.Library.Decimal
import Mathlib.Data.List.TakeWhile

/-!
# Scanning a text by a format

What is stored by a scanner that follows the directives of a format through a text, and what it
stores of a text that was printed in the format.
-/

namespace HeapHttpd

namespace Scan

open Decimal (isDigit value)

/-- A directive of a format. -/
inductive Directive
  | blanks
  | exact (octet : UInt8)
  | skipTo (stop : UInt8)
  | number
  | wordTo (stop : UInt8)
  deriving DecidableEq

/-- What a directive stores. -/
inductive Stored
  | number (value : Int)
  | word (text : List UInt8)
  deriving DecidableEq

/-- The number that a text begins with, and the text behind it. -/
def leadingNumber (text : List UInt8) : Option (Int × List UInt8) :=
  let unsigned := if text.head? = some 0x2d ∨ text.head? = some 0x2b then text.tail else text
  let digits := unsigned.takeWhile isDigit
  if digits = [] then none
  else
    some (if text.head? = some 0x2d then -(value digits : Int) else value digits,
      unsigned.dropWhile isDigit)

/-- The values that are stored until a directive fails. -/
def scan (space : UInt8 → Bool) : List Directive → List UInt8 → List Stored
  | [], _ => []
  | .blanks :: format, text => scan space format (text.dropWhile space)
  | .exact octet :: format, text =>
      if text.head? = some octet then scan space format text.tail else []
  | .skipTo stop :: format, text =>
      if text.takeWhile (· ≠ stop) = [] then []
      else scan space format (text.dropWhile (· ≠ stop))
  | .number :: format, text =>
      match leadingNumber (text.dropWhile space) with
      | none => []
      | some (value, rest) => .number value :: scan space format rest
  | .wordTo stop :: format, text =>
      if text.takeWhile (· ≠ stop) = [] then []
      else .word (text.takeWhile (· ≠ stop)) :: scan space format (text.dropWhile (· ≠ stop))

/-- The first octet of a text, if any, is not one of some octets. -/
def StartsOutside (inside : UInt8 → Bool) (text : List UInt8) : Prop :=
  ∀ octet ∈ text.head?, inside octet = false

theorem dropWhile_eq_self {inside : UInt8 → Bool} {text : List UInt8}
    (outside : StartsOutside inside text) : text.dropWhile inside = text := by
  cases text with
  | nil => rfl
  | cons octet text => rw [List.dropWhile_cons, outside octet rfl, if_neg Bool.false_ne_true]

theorem takeWhile_eq_nil {inside : UInt8 → Bool} {text : List UInt8}
    (outside : StartsOutside inside text) : text.takeWhile inside = [] := by
  cases text with
  | nil => rfl
  | cons octet text => rw [List.takeWhile_cons, outside octet rfl, if_neg Bool.false_ne_true]

theorem takeWhile_append {inside : UInt8 → Bool} {front text : List UInt8}
    (all : ∀ octet ∈ front, inside octet = true) (outside : StartsOutside inside text) :
    (front ++ text).takeWhile inside = front := by
  rw [List.takeWhile_append_of_pos all, takeWhile_eq_nil outside, List.append_nil]

theorem dropWhile_append {inside : UInt8 → Bool} {front text : List UInt8}
    (all : ∀ octet ∈ front, inside octet = true) (outside : StartsOutside inside text) :
    (front ++ text).dropWhile inside = text := by
  rw [List.dropWhile_append_of_pos all, dropWhile_eq_self outside]

section Printed

variable {space : UInt8 → Bool} {format : List Directive} {text : List UInt8}

theorem scan_blank {blank : UInt8} (isSpace : space blank = true)
    (outside : StartsOutside space text) :
    scan space (.blanks :: format) (blank :: text) = scan space format text := by
  rw [scan, List.dropWhile_cons, if_pos isSpace, dropWhile_eq_self outside]

theorem scan_exact (octet : UInt8) :
    scan space (.exact octet :: format) (octet :: text) = scan space format text := by
  rw [scan, List.head?_cons, if_pos rfl, List.tail_cons]

theorem word_octets {word : List UInt8} {stop : UInt8} (free : stop ∉ word) :
    ∀ octet ∈ word, decide (octet ≠ stop) = true := by
  intro octet member
  exact decide_eq_true fun same => free (same ▸ member)

theorem scan_skipTo {word : List UInt8} {stop : UInt8} (nonempty : word ≠ [])
    (free : stop ∉ word) (outside : StartsOutside (· ≠ stop) text) :
    scan space (.skipTo stop :: format) (word ++ text) = scan space format text := by
  rw [scan, takeWhile_append (word_octets free) outside, if_neg nonempty,
    dropWhile_append (word_octets free) outside]

theorem scan_wordTo {word : List UInt8} {stop : UInt8} (nonempty : word ≠ [])
    (free : stop ∉ word) (outside : StartsOutside (· ≠ stop) text) :
    scan space (.wordTo stop :: format) (word ++ text) = .word word :: scan space format text := by
  rw [scan, takeWhile_append (word_octets free) outside, if_neg nonempty,
    dropWhile_append (word_octets free) outside]

theorem leadingNumber_append {digits : List UInt8} (nonempty : digits ≠ [])
    (all : ∀ digit ∈ digits, isDigit digit = true) (outside : StartsOutside isDigit text) :
    leadingNumber (digits ++ text) = some ((value digits : Int), text) := by
  obtain ⟨first, rest, rfl⟩ := List.exists_cons_of_ne_nil nonempty
  have notSign (sign : UInt8) (noDigit : isDigit sign = false) :
      (first :: rest ++ text).head? ≠ some sign := by
    rintro ⟨⟩
    rw [all first List.mem_cons_self] at noDigit
    cases noDigit
  have unsigned : ¬((first :: rest ++ text).head? = some 0x2d ∨
      (first :: rest ++ text).head? = some 0x2b) :=
    not_or.mpr ⟨notSign 0x2d (by decide), notSign 0x2b (by decide)⟩
  rw [leadingNumber]
  simp only [if_neg unsigned, takeWhile_append all outside, dropWhile_append all outside,
    if_neg nonempty, if_neg (notSign 0x2d (by decide))]

theorem scan_number {digits : List UInt8} (nonempty : digits ≠ [])
    (all : ∀ digit ∈ digits, isDigit digit = true)
    (noSpace : ∀ digit, isDigit digit = true → space digit = false)
    (outside : StartsOutside isDigit text) :
    scan space (.number :: format) (digits ++ text) =
      .number (value digits : Int) :: scan space format text := by
  have kept : (digits ++ text).dropWhile space = digits ++ text := by
    obtain ⟨first, rest, rfl⟩ := List.exists_cons_of_ne_nil nonempty
    rw [List.cons_append, List.dropWhile_cons, noSpace first (all first List.mem_cons_self),
      if_neg Bool.false_ne_true]
  rw [scan, kept, leadingNumber_append nonempty all outside]

end Printed

end Scan

end HeapHttpd
